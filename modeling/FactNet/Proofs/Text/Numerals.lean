import Mathlib
import FactNet.Text.Digit

/-!
# The number that digits stand for

A row of digits stands for the sum of its parts, and the digits that a number is written with stand
for that number.  They begin with a zero only if the number is zero.

## Main results

* `naturalOf_append` — **a row of digits is worth as much as its two parts.**
* `naturalOf_lt` — it stands for less than the power of ten with as many zeros.
* `naturalOf_toDigits` — the digits of a number stand for it.
* `head?_toDigits_ne` — they do not begin with a zero.
-/

namespace FactNet.Text

/-- A row of ASCII digits, at least one. -/
structure IsNumeral (ds : List Char) : Prop where
  ne_nil : ds ≠ []
  isDigit : ∀ c ∈ ds, c.isDigit = true

theorem foldl_digits (n : Nat) (cs : List Char) :
    cs.foldl (fun n c => 10 * n + (digitValue? c).getD 0) n =
      n * 10 ^ cs.length + naturalOf cs := by
  induction cs generalizing n with
  | nil => simp [naturalOf]
  | cons c cs ih =>
    rw [naturalOf, List.foldl_cons, List.foldl_cons, ih, ih (10 * 0 + _), List.length_cons,
      Nat.pow_succ]
    grind

/-- **A row of digits is worth as much as its two parts.** -/
theorem naturalOf_append (cs ds : List Char) :
    naturalOf (cs ++ ds) = naturalOf cs * 10 ^ ds.length + naturalOf ds := by
  rw [naturalOf, List.foldl_append, foldl_digits]
  rfl

/-- A row of digits stands for less than the power of ten with as many zeros. -/
theorem naturalOf_lt (cs : List Char) : naturalOf cs < 10 ^ cs.length := by
  induction cs with
  | nil => exact Nat.one_pos
  | cons c cs ih =>
    have hdigit : naturalOf [c] < 10 := by
      show 10 * 0 + (digitValue? c).getD 0 < 10
      cases h : digitValue? c with
      | none => exact Nat.zero_lt_succ 9
      | some d => simpa using digitValue?_lt h
    rw [← List.singleton_append, naturalOf_append, List.length_append, Nat.pow_add,
      List.length_singleton, Nat.pow_one]
    calc naturalOf [c] * 10 ^ cs.length + naturalOf cs
        < naturalOf [c] * 10 ^ cs.length + 10 ^ cs.length := Nat.add_lt_add_left ih _
      _ = (naturalOf [c] + 1) * 10 ^ cs.length := (Nat.succ_mul _ _).symm
      _ ≤ 10 * 10 ^ cs.length := Nat.mul_le_mul_right _ hdigit

theorem naturalOf_zero : naturalOf ['0'] = 0 := by decide

theorem naturalOf_replicate_zero (k : Nat) : naturalOf (List.replicate k '0') = 0 := by
  induction k with
  | zero => rfl
  | succ k ih => rw [List.replicate_succ', naturalOf_append, ih, naturalOf_zero, Nat.zero_mul]

theorem digitValue?_of_isDigit {c : Char} (h : c.isDigit = true) :
    digitValue? c = some (c.toNat - 48) := by
  have hdigit : 48 ≤ c.toNat ∧ c.toNat ≤ 57 := by
    simpa [Char.isDigit, UInt32.le_iff_toNat_le] using h
  unfold digitValue? digitZeros
  rw [List.find?_cons_of_pos (by simp; omega)]
  rfl

theorem isNumeral_zero : IsNumeral ['0'] := ⟨List.cons_ne_nil _ _, by simp [Char.isDigit]⟩

theorem isNumeral_toDigits (n : Nat) : IsNumeral (Nat.toDigits 10 n) :=
  ⟨Nat.toDigits_ne_nil, fun _ hc => Nat.isDigit_of_mem_toDigits (by decide) (by decide) hc⟩

theorem IsNumeral.append {cs ds : List Char} (h : IsNumeral cs)
    (hds : ∀ c ∈ ds, c.isDigit = true) : IsNumeral (cs ++ ds) := by
  refine ⟨by simp [h.ne_nil], fun c hc => ?_⟩
  exact (List.mem_append.1 hc).elim (h.isDigit c) (hds c)

theorem isDigit_of_mem_replicate_zero {k : Nat} {c : Char} (h : c ∈ List.replicate k '0') :
    c.isDigit = true := by
  rw [List.eq_of_mem_replicate h]
  decide

/-- Zeros in front of a row of digits leave it one. -/
theorem IsNumeral.replicate_append {ds : List Char} (h : IsNumeral ds) (k : Nat) :
    IsNumeral (List.replicate k '0' ++ ds) := by
  refine ⟨by simp [h.ne_nil], fun c hc => ?_⟩
  exact (List.mem_append.1 hc).elim isDigit_of_mem_replicate_zero (h.isDigit c)

theorem naturalOf_replicate_append (k : Nat) (ds : List Char) :
    naturalOf (List.replicate k '0' ++ ds) = naturalOf ds := by
  rw [naturalOf_append, naturalOf_replicate_zero, Nat.zero_mul, Nat.zero_add]

/-- The digits of a number stand for it. -/
theorem naturalOf_toDigits (n : Nat) : naturalOf (Nat.toDigits 10 n) = n := by
  have hsame : ∀ (ds : List Char) (k : Nat), (∀ c ∈ ds, c.isDigit = true) →
      ds.foldl (fun n c => 10 * n + (digitValue? c).getD 0) k = Nat.ofDigitChars 10 ds k := by
    intro ds
    induction ds with
    | nil => exact fun _ _ => rfl
    | cons c ds ih =>
      intro k hds
      rw [List.foldl_cons, ih _ fun d hd => hds d (List.mem_cons_of_mem c hd),
        digitValue?_of_isDigit (hds c List.mem_cons_self)]
      rfl
  rw [naturalOf, hsame _ _ (isNumeral_toDigits n).isDigit, Nat.ofDigitChars_ten_toDigits]

/-- The digits of a number that is not zero do not begin with a zero. -/
theorem head?_toDigits_ne {n : Nat} (hn : n ≠ 0) : (Nat.toDigits 10 n).head? ≠ some '0' := by
  induction n using Nat.strongRecOn with
  | ind n ih =>
    rcases Nat.lt_or_ge n 10 with hlt | hge
    · have hsmall : ∀ n, n < 10 → n ≠ 0 → some n.digitChar ≠ some '0' := by decide
      rw [Nat.toDigits_of_lt_base hlt, List.head?_cons]
      exact hsmall n hlt hn
    · have hfront := ih (n / 10) (by omega) (by omega)
      rw [Nat.toDigits_of_base_le (by decide) hge]
      obtain ⟨c, cs, hcs⟩ := List.exists_cons_of_ne_nil (Nat.toDigits_ne_nil (n := n / 10) (b := 10))
      rw [hcs] at hfront ⊢
      exact hfront

end FactNet.Text
