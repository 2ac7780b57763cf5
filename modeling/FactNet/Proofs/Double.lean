import Mathlib
import FactNet.Scalar

/-!
# Doubles in order

Doubles are compared by the side of zero that they are on, then by exponent, then by
significand.  So every double has a rank in a linear order, and comparing two doubles is
comparing their ranks, unless one of them is no number at all.  The two zeros have one rank.

## Main definitions

* `Double.rank` — the rank of a double.

## Main results

* `Double.compare_unpack` — **comparing two numbers is comparing their ranks.**
* `Double.lt_iff`, `Double.le_iff`, `Double.beq_iff` — the same for the three comparisons.
* `Double.eq_top_of_beq` — **a double equal to the one above all others is that double.**
-/

namespace FactNet.Double

open Float.Model Float.Model.UnpackedFloat

/-- The rank of a double by its parts: its class, its exponent, and its significand, the last two
reversed below zero. -/
def rankOf : UnpackedFloat → ℤ ×ₗ ℤ ×ₗ ℤ
  | .infinity .negative => toLex (-2, toLex (0, 0))
  | .finite .negative m e _ => toLex (-1, toLex (-e, -(m : ℤ)))
  | .zero _ => toLex (0, toLex (0, 0))
  | .finite .positive m e _ => toLex (1, toLex (e, (m : ℤ)))
  | .infinity .positive => toLex (2, toLex (0, 0))
  | .notANumber => toLex (0, toLex (0, 0))

/-- The rank of a double. -/
def rank (x : Float) : ℤ ×ₗ ℤ ×ₗ ℤ := rankOf x.toModel.unpack

/-! ### Comparing parts -/

theorem compare_toLex {β : Type} [LinearOrder β] (a b : ℤ) (x y : β) :
    compare (toLex (a, x)) (toLex (b, y)) = (compare a b).then (compare x y) := by
  rw [Prod.Lex.compare_def]
  rfl

theorem compare_natCast (m n : ℕ) : compare (m : ℤ) (n : ℤ) = compare m n := by
  rcases lt_trichotomy m n with h | h | h
  · rw [compare_lt_iff_lt.mpr h, compare_lt_iff_lt.mpr (Int.ofNat_lt.mpr h)]
  · rw [compare_eq_iff_eq.mpr h, compare_eq_iff_eq.mpr (congrArg _ h)]
  · rw [compare_gt_iff_gt.mpr h, compare_gt_iff_gt.mpr (Int.ofNat_lt.mpr h)]

theorem compare_neg (a b : ℤ) : compare (-a) (-b) = (compare a b).swap := by
  rcases lt_trichotomy a b with h | h | h
  · rw [compare_lt_iff_lt.mpr h, compare_gt_iff_gt.mpr (Int.neg_lt_neg h)]
    rfl
  · rw [compare_eq_iff_eq.mpr h, compare_eq_iff_eq.mpr (congrArg _ h)]
    rfl
  · rw [compare_gt_iff_gt.mpr h, compare_lt_iff_lt.mpr (Int.neg_lt_neg h)]
    rfl

theorem compare_eq {a b : UnpackedFloat} (ha : a ≠ .notANumber) (hb : b ≠ .notANumber) :
    UnpackedFloat.compare a b = some (compare (rankOf a) (rankOf b)) := by
  cases a with
  | notANumber => exact absurd rfl ha
  | infinity s =>
    cases b with
    | notANumber => exact absurd rfl hb
    | infinity s' => cases s <;> cases s' <;> rfl
    | zero s' => cases s <;> rfl
    | finite s' m e h => cases s <;> cases s' <;> rfl
  | zero s =>
    cases b with
    | notANumber => exact absurd rfl hb
    | infinity s' => cases s' <;> rfl
    | zero s' => rfl
    | finite s' m e h => cases s' <;> rfl
  | finite s m e h =>
    cases b with
    | notANumber => exact absurd rfl hb
    | infinity s' => cases s <;> cases s' <;> rfl
    | zero s' => cases s <;> rfl
    | finite s' m' e' h' =>
      -- only on the same side of zero do exponent and significand count
      cases s with
      | negative =>
        cases s' with
        | negative =>
          simp only [UnpackedFloat.compare, rankOf, compare_toLex, compare_neg, compare_natCast,
            Ordering.swap_then]
          rfl
        | positive => rfl
      | positive =>
        cases s' with
        | negative => rfl
        | positive =>
          simp only [UnpackedFloat.compare, rankOf, compare_toLex, compare_natCast]
          rfl

/-! ### Comparing doubles -/

variable {x y : Float}

theorem unpack_ne_notANumber (hx : x.isNaN = false) : x.toModel.unpack ≠ .notANumber := by
  intro heq
  have hnan : x.isNaN = x.toModel.unpack.isNaN := rfl
  rw [hx, heq] at hnan
  cases hnan

/-- **Comparing two numbers is comparing their ranks.** -/
theorem compare_unpack (hx : x.isNaN = false) (hy : y.isNaN = false) :
    UnpackedFloat.compare x.toModel.unpack y.toModel.unpack = some (compare (rank x) (rank y)) :=
  compare_eq (unpack_ne_notANumber hx) (unpack_ne_notANumber hy)

theorem lt_iff (hx : x.isNaN = false) (hy : y.isNaN = false) : x < y ↔ rank x < rank y := by
  have hlt : x < y ↔
      (UnpackedFloat.compare x.toModel.unpack y.toModel.unpack == some .lt) = true :=
    decide_eq_true_iff
  rw [hlt, compare_unpack hx hy, beq_iff_eq, Option.some.injEq]
  exact compare_lt_iff_lt

theorem le_iff (hx : x.isNaN = false) (hy : y.isNaN = false) : x ≤ y ↔ rank x ≤ rank y := by
  have hle : x ≤ y ↔
      ((UnpackedFloat.compare x.toModel.unpack y.toModel.unpack).any (·.isLE)) = true :=
    decide_eq_true_iff
  rw [hle, compare_unpack hx hy, Option.any_some, Ordering.isLE_iff_ne_gt]
  exact compare_le_iff_le

theorem beq_iff (hx : x.isNaN = false) (hy : y.isNaN = false) :
    (x == y) = true ↔ rank x = rank y := by
  have hbeq : (x == y) =
      (UnpackedFloat.compare x.toModel.unpack y.toModel.unpack == some .eq) := rfl
  rw [hbeq, compare_unpack hx hy, beq_iff_eq, Option.some.injEq]
  exact compare_eq_iff_eq

/-- Doubles that can be compared are numbers. -/
theorem isNaN_of_compare {o : Ordering}
    (h : UnpackedFloat.compare x.toModel.unpack y.toModel.unpack = some o) :
    x.isNaN = false ∧ y.isNaN = false := by
  show x.toModel.unpack.isNaN = false ∧ y.toModel.unpack.isNaN = false
  cases hx : x.toModel.unpack with
  | notANumber =>
    rw [hx] at h
    cases h
  | _ =>
    cases hy : y.toModel.unpack with
    | notANumber =>
      rw [hx, hy] at h
      cases h
    | _ => exact ⟨rfl, rfl⟩

theorem isNaN_of_le (h : x ≤ y) : x.isNaN = false ∧ y.isNaN = false := by
  have hle : x ≤ y ↔
      ((UnpackedFloat.compare x.toModel.unpack y.toModel.unpack).any (·.isLE)) = true :=
    decide_eq_true_iff
  obtain ⟨o, ho, -⟩ := (Option.any_eq_true _ _).1 (hle.1 h)
  exact isNaN_of_compare ho

theorem isNaN_of_beq (h : (x == y) = true) : x.isNaN = false ∧ y.isNaN = false := by
  have hbeq : (x == y) =
      (UnpackedFloat.compare x.toModel.unpack y.toModel.unpack == some .eq) := rfl
  exact isNaN_of_compare (eq_of_beq (hbeq ▸ h))

protected theorem le_refl (hx : x.isNaN = false) : x ≤ x := (le_iff hx hx).2 le_rfl

protected theorem le_trans {z : Float} (hxy : x ≤ y) (hyz : y ≤ z) : x ≤ z := by
  obtain ⟨hx, hy⟩ := isNaN_of_le hxy
  obtain ⟨-, hz⟩ := isNaN_of_le hyz
  rw [le_iff hx hy] at hxy
  rw [le_iff hy hz] at hyz
  rw [le_iff hx hz]
  exact hxy.trans hyz

protected theorem le_of_not_le (hx : x.isNaN = false) (hy : y.isNaN = false) (h : ¬x ≤ y) :
    y ≤ x := by
  rw [le_iff hx hy] at h
  rw [le_iff hy hx]
  exact (not_le.1 h).le

/-- Equality of doubles goes both ways and on. -/
instance partialEquivBEq : PartialEquivBEq Float where
  symm {x y} h := by
    obtain ⟨hx, hy⟩ := isNaN_of_beq h
    rw [beq_iff hx hy] at h
    rw [beq_iff hy hx, h]
  trans {x y z} h h' := by
    obtain ⟨hx, hy⟩ := isNaN_of_beq h
    obtain ⟨-, hz⟩ := isNaN_of_beq h'
    rw [beq_iff hx hy] at h
    rw [beq_iff hy hz] at h'
    rw [beq_iff hx hz, h, h']

/-! ### The double above all others -/

/-- The parts of positive infinity have only one row of bits. -/
theorem toBits_of_unpack_infinity {m : Float.Model} (h : m.unpack = .infinity .positive) :
    m.toBits = 0x7FF0000000000000 := by
  obtain ⟨bits, hvalid⟩ := m
  simp only [Float.Model.unpack, UnpackedFloat.unpack] at h
  split at h
  · next hexponent =>
    split at h
    · next hmantissa =>
      have hsign : @unpackSign Format.binary64 bits.toBitVec = 0#1 := by
        simpa [Sign.ofBitVec] using h
      have hsign := congrArg BitVec.toNat hsign
      have hexponent := congrArg BitVec.toNat hexponent
      have hmantissa := congrArg BitVec.toNat hmantissa
      simp [unpackExponent, unpackMantissa, unpackSign, Format.binary64,
        Nat.shiftRight_eq_div_pow] at hexponent hmantissa hsign
      have := bits.toNat_lt
      refine UInt64.toNat_inj.1 ?_
      simp
      omega
    · cases h
  · split at h
    · split at h <;> cases h
    · cases h

/-- **A double equal to the one above all others is that double.** -/
theorem eq_top_of_beq (h : (x == Scalar.top) = true) : x = Scalar.top := by
  have htop : (Scalar.top : Float).toModel.unpack = .infinity .positive := by rfl
  have hcompare :
      UnpackedFloat.compare x.toModel.unpack (Scalar.top : Float).toModel.unpack = some .eq := by
    simpa using (show (UnpackedFloat.compare x.toModel.unpack
      (Scalar.top : Float).toModel.unpack == some .eq) = true from h)
  have hunpack : x.toModel.unpack = .infinity .positive := by
    rw [htop] at hcompare
    cases hx : x.toModel.unpack with
    | infinity s => cases s <;> simp [hx, UnpackedFloat.compare] at hcompare ⊢
    | notANumber => simp [hx, UnpackedFloat.compare] at hcompare
    | zero s => simp [hx, UnpackedFloat.compare] at hcompare
    | finite s m e hm => cases s <;> simp [hx, UnpackedFloat.compare] at hcompare
  have hbits : x.toModel.toBits = (Scalar.top : Float).toModel.toBits := by
    rw [toBits_of_unpack_infinity hunpack, toBits_of_unpack_infinity htop]
  cases x with
  | ofModel m =>
    cases m
    congr

end FactNet.Double
