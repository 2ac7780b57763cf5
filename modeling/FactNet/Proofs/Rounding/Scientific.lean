import FactNet.Decimal.Numeral
import FactNet.Proofs.Rounding.Near

/-!
# Decimals rounded to doubles

A whole number times a power of ten is rounded to a double in one step.  If both are doubles they
are multiplied or divided; else the multiplication or division is done with significands of any
length, and its result is rounded.

## Main results

* `Double.exactlyRepresentable_eq` — the first powers of ten are doubles.
* `Double.exists_ofScientific` — **a decimal is rounded to a double.**
-/

namespace FactNet

namespace Double

open Float.Model Float.Model.UnpackedFloat

/-! ### Powers of ten -/

/-- A power of ten with all places of a significand. -/
def powerOfTen (k : Nat) : UnpackedFloat :=
  .finite .positive (5 ^ k * 2 ^ (52 - (5 ^ k).log2)) ((5 ^ k).log2 + k - 52)
    (Nat.mul_pos (Nat.pow_pos (by decide)) (Nat.two_pow_pos _))

/-- **The first powers of ten are doubles.** -/
theorem exactlyRepresentable_eq (k : Fin 23) :
    getElem Float.exactlyRepresentablePowersOfTen k.val
        (by simp [Float.exactlyRepresentablePowersOfTen]) =
      .ofModel (.pack (powerOfTen k)) := by
  revert k
  decide +kernel

theorem log2_five_pow_lt {k : Nat} (hk : k < 23) : (5 ^ k).log2 < 53 := by
  refine (Nat.log2_lt (Nat.pow_pos (by decide)).ne').2 ?_
  exact lt_of_le_of_lt (Nat.pow_le_pow_right (by decide) (Nat.le_of_lt_succ hk)) (by norm_num)

/-- A number with fifty-three places or less is given all of them. -/
theorem full_significand {n : Nat} (hn : 0 < n) (hlog : n.log2 < 53) :
    2 ^ 52 ≤ n * 2 ^ (52 - n.log2) ∧ n * 2 ^ (52 - n.log2) < 2 ^ 53 := by
  refine (Nat.log2_eq_iff (Nat.mul_pos hn (Nat.two_pow_pos _)).ne').1 ?_
  rw [log2_mul_two_pow hn]
  omega

theorem unpack_powerOfTen {k : Nat} (hk : k < 23) :
    (Float.Model.pack (powerOfTen k)).unpack = powerOfTen k := by
  have hlog := log2_five_pow_lt hk
  obtain ⟨hle, hlt⟩ := full_significand (Nat.pow_pos (n := k) (by decide : 0 < 5)) hlog
  exact unpack_pack _ hle hlt (by omega) (by omega)

/-- Its value is that of the number before it was given all places. -/
theorem full_significand_mul (n : Nat) {l : Nat} (hl : l < 53) (k : Nat) :
    ((n * 2 ^ (52 - l) : ℕ) : ℚ) * 2 ^ ((l : ℤ) + k - 52) = n * 2 ^ k := by
  have hexp : (l : ℤ) + k - 52 = (k : ℤ) - (52 - l : ℕ) := by omega
  rw [hexp, zpow_sub₀ two_ne_zero]
  push_cast
  rw [zpow_natCast, zpow_natCast]
  field_simp

theorem powerOfTen_value {k : Nat} (hk : k < 23) :
    ((5 ^ k * 2 ^ (52 - (5 ^ k).log2) : ℕ) : ℚ) * 2 ^ (((5 ^ k).log2 : ℤ) + k - 52) = 10 ^ k := by
  rw [full_significand_mul _ (log2_five_pow_lt hk)]
  push_cast
  rw [← mul_pow]
  norm_num

theorem whole_value {n : Nat} (hn : n.log2 < 53) :
    ((n * 2 ^ (52 - n.log2) : ℕ) : ℚ) * 2 ^ ((n.log2 : ℤ) - 52) = n := by
  have h := full_significand_mul n hn 0
  rwa [Nat.cast_zero, add_zero, pow_zero, mul_one] at h

/-! ### Decimals -/

section Decimals

variable {d : Nat}

/-- Digits and a power of ten that are doubles are multiplied. -/
theorem exists_mul_powerOfTen (hd : 0 < d) (hsmall : d < 2 ^ 53) {k : Nat} (hk : k < 23) :
    ∃ a, RoundsTo (d * 10 ^ k) a ∧
      d.toUInt64.toFloat * Float.ofModel (.pack (powerOfTen k)) = .ofModel (.pack a) := by
  have hlog := log2_lt_53 hd hsmall
  refine ⟨UnpackedFloat.mul Format.binary64 (whole d) (powerOfTen k), ?_, ?_⟩
  · rw [whole_of_pos hd, ← powerOfTen_value hk]
    nth_rewrite 1 [← whole_value hlog]
    refine roundsTo_mul _ _ ?_
    exact (full_significand hd hlog).1.trans
      (Nat.le_mul_of_pos_right _ (Nat.mul_pos (Nat.pow_pos (by decide)) (Nat.two_pow_pos _)))
  · rw [toFloat_toUInt64 hsmall]
    show Float.ofModel (.pack (UnpackedFloat.mul Format.binary64 (Float.Model.pack (whole d)).unpack
      (Float.Model.pack (powerOfTen k)).unpack)) = _
    rw [unpack_whole hsmall, unpack_powerOfTen hk]

/-- Or they are divided. -/
theorem exists_div_powerOfTen (hd : 0 < d) (hsmall : d < 2 ^ 53) {k : Nat} (hk : k < 23) :
    ∃ a, RoundsTo (d / 10 ^ k) a ∧
      d.toUInt64.toFloat / Float.ofModel (.pack (powerOfTen k)) = .ofModel (.pack a) := by
  have hlog := log2_lt_53 hd hsmall
  refine ⟨UnpackedFloat.div Format.binary64 (whole d) (powerOfTen k), ?_, ?_⟩
  · rw [whole_of_pos hd, ← powerOfTen_value hk]
    nth_rewrite 1 [← whole_value hlog]
    exact roundsTo_div_finite _ _
  · rw [toFloat_toUInt64 hsmall]
    show Float.ofModel (.pack (UnpackedFloat.div Format.binary64 (Float.Model.pack (whole d)).unpack
      (Float.Model.pack (powerOfTen k)).unpack)) = _
    rw [unpack_whole hsmall, unpack_powerOfTen hk]

/-- With significands of any length a decimal is rounded too, unless its exponent is far out. -/
theorem exists_modelOfScientific (hd : 0 < d) {k : ℤ} (hlow : -(2048 + (d.log2 : ℤ)) ≤ k)
    (hhigh : k ≤ 2048) :
    ∃ a, RoundsTo (d * 10 ^ k) a ∧ UnpackedFloat.ofScientific Format.binary64 d k = a := by
  refine ⟨_, ?_, rfl⟩
  have hbits : (2 : ℤ) ^ Format.binary64.exponentBits = 2048 := rfl
  unfold UnpackedFloat.ofScientific
  rw [dif_neg hd.ne', if_neg (by omega), if_neg (by omega)]
  split
  · next hk =>
    -- the digits are shifted to have all places and multiplied by a power of ten
    obtain ⟨n, rfl⟩ := Int.eq_ofNat_of_zero_le hk
    have hvalue : (d : ℚ) * (10 : ℚ) ^ (n : ℤ) =
        ((d <<< 53 : ℕ) : ℚ) * 2 ^ (-53 : ℤ) * ((10 ^ n : ℕ) * 2 ^ (0 : ℤ)) := by
      rw [Nat.shiftLeft_eq, zpow_neg, zpow_natCast, zpow_zero]
      push_cast
      field_simp
    rw [hvalue]
    refine roundsTo_mul _ _ ?_
    rw [Nat.shiftLeft_eq]
    calc 2 ^ 52 ≤ 1 * 2 ^ 53 * 1 := by norm_num
      _ ≤ d * 2 ^ 53 * 10 ^ n :=
        Nat.mul_le_mul (Nat.mul_le_mul_right _ hd) (Nat.pow_pos (by decide))
  · next hk =>
    -- the digits are divided by a power of ten
    obtain ⟨n, rfl⟩ : ∃ n : ℕ, k = -n := ⟨k.natAbs, by omega⟩
    have hn : (-(-(n : ℤ))).toNat = n := by omega
    have hvalue : (d : ℚ) * (10 : ℚ) ^ (-(n : ℤ)) = d * 2 ^ (0 : ℤ) / ((10 ^ n : ℕ) * 2 ^ (0 : ℤ)) := by
      rw [zpow_neg, zpow_natCast, zpow_zero]
      push_cast
      field_simp
    simp only [hn]
    rw [hvalue]
    exact roundsTo_div_finite _ _

/-- **A decimal is rounded to a double.** -/
theorem exists_ofScientific (hd : 0 < d) {k : ℤ} (hlow : -(2048 + (d.log2 : ℤ)) ≤ k)
    (hhigh : k ≤ 2048) :
    ∃ a, RoundsTo (d * 10 ^ k) a ∧ Float.ofScientific d (k < 0) k.natAbs = .ofModel (.pack a) := by
  have hslow := exists_modelOfScientific hd hlow hhigh
  unfold Float.ofScientific
  rcases lt_or_ge k 0 with hneg | hpos
  · obtain ⟨n, rfl⟩ : ∃ n : ℕ, k = -n := ⟨k.natAbs, by omega⟩
    rw [decide_eq_true hneg, Int.natAbs_neg, Int.natAbs_natCast]
    split
    · next hfast =>
      -- few digits and a small power of ten are doubles, so one division is enough
      rw [zpow_neg, zpow_natCast, ← div_eq_mul_inv]
      exact exactlyRepresentable_eq ⟨n, by omega⟩ ▸
        exists_div_powerOfTen hd hfast.1 (Nat.lt_succ_of_le hfast.2)
    · obtain ⟨a, ha, heq⟩ := hslow
      refine ⟨a, ha, ?_⟩
      rw [← heq]
      rfl
  · obtain ⟨n, rfl⟩ := Int.eq_ofNat_of_zero_le hpos
    rw [decide_eq_false (by omega), Int.natAbs_natCast]
    split
    · next hfast =>
      -- and so is one multiplication
      rw [zpow_natCast]
      exact exactlyRepresentable_eq ⟨n, by omega⟩ ▸
        exists_mul_powerOfTen hd hfast.1 (Nat.lt_succ_of_le hfast.2)
    · obtain ⟨a, ha, heq⟩ := hslow
      refine ⟨a, ha, ?_⟩
      rw [← heq]
      rfl

end Decimals

end Double

end FactNet
