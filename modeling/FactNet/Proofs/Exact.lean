import Mathlib
import FactNet.Scalar

/-!
# Exact numbers

The reals extended by the two infinities are numbers in the sense of `Scalar`: a probability of
zero has the logarithm `⊥`, and the exponential brings it back.  Inference over them rounds
nothing, so what is said of it here is said of the method and not of the digits.

Adding is associative and commutative over all of them, `⊥` taking everything with it.

## Main definitions

* The instance `Scalar EReal`.

## Main results

* `Scalar.foldl_add_eq_sum` — adding from the left gives the sum of the list.
* `Scalar.isInfinite_eq_false_iff` — what is not infinite is a real number.
-/

namespace FactNet

open Scalar

/-- The exponential, the logarithm and the order are those of the extended reals; no exponential is
too large. -/
noncomputable instance : Scalar EReal where
  decimal m places := ((m / 10 ^ places : ℝ) : EReal)
  top := ⊤
  bottom := ⊥
  exp x := ((EReal.exp x : ENNReal) : EReal)
  log x := ENNReal.log x.toENNReal
  expLessOne x := ((EReal.exp x : ENNReal) : EReal) - 1
  logOnePlus x := ENNReal.log (1 + x).toENNReal
  expOverflows _ := false
  beq a b := decide (a = b)
  decLt a b := Classical.propDecidable (a < b)
  decLe a b := Classical.propDecidable (a ≤ b)

namespace Scalar

instance : LawfulBEq EReal where
  eq_of_beq h := of_decide_eq_true h
  rfl := decide_eq_true rfl

@[simp] theorem top_ereal : (top : EReal) = ⊤ := rfl

@[simp] theorem bottom_ereal : (bottom : EReal) = ⊥ := rfl

@[simp] theorem decimal_ereal (m places : ℕ) :
    (decimal m places : EReal) = ((m / 10 ^ places : ℝ) : EReal) := rfl

@[simp] theorem nat_ereal (n : ℕ) : (nat n : EReal) = ((n : ℝ) : EReal) := by
  simp [nat]

@[simp] theorem zero_ereal : (zero : EReal) = 0 := by
  simp [zero]

@[simp] theorem one_ereal : (one : EReal) = 1 := by
  simp [one]

/-- Adding from the left gives the sum of the list. -/
theorem foldl_add_eq_sum (xs : List EReal) (acc : EReal) :
    xs.foldl (· + ·) acc = acc + xs.sum := by
  induction xs generalizing acc with
  | nil => simp
  | cons x xs ih => rw [List.foldl_cons, ih, List.sum_cons, add_assoc]

/-- What is not infinite is a real number. -/
theorem isInfinite_eq_false_iff {x : EReal} : isInfinite x = false ↔ x ≠ ⊤ ∧ x ≠ ⊥ := by
  simp [isInfinite]

end Scalar

end FactNet
