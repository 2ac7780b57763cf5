import FactNet.Proofs.Rounding.Scientific

/-!
# The double nearest to a decimal

Decimals with the same value are read as the same double, however their digits are arranged, and so
are all decimals that lie near enough to it.  No such decimal is so large or so small that it would
be taken for infinity or zero from its length alone.

## Main definitions

* `Significand.value` — the value of a decimal.

## Main results

* `digitCount_eq` — the number of digits.
* `Significand.toFloat_eq` — **a decimal that lies near a double is read as it.**
-/

namespace FactNet.Decimal

open Float.Model Float.Model.UnpackedFloat
open FactNet.Double

/-! ### Digits -/

section Digits

variable {n : Nat}

theorem digitCount_eq (hn : n ≠ 0) : digitCount n = Nat.log 10 n + 1 := by
  induction n using Nat.strong_induction_on with
  | h n ih =>
    rw [digitCount, if_neg hn]
    rcases lt_or_ge n 10 with hlt | hge
    · rw [Nat.div_eq_of_lt hlt, Nat.log_of_lt hlt, digitCount, if_pos rfl]
    · rw [ih (n / 10) (Nat.div_lt_self (by omega) (by decide)) (by omega),
        Nat.log_of_one_lt_of_le (by decide) hge]

theorem lt_pow_digitCount (hn : n ≠ 0) : n < 10 ^ digitCount n := by
  rw [digitCount_eq hn]
  exact Nat.lt_pow_succ_log_self (by decide) n

theorem pow_le_of_digitCount (hn : n ≠ 0) : 10 ^ (digitCount n - 1) ≤ n := by
  rw [digitCount_eq hn]
  exact Nat.pow_log_le_self 10 hn

theorem digitCount_le_log2 (hn : n ≠ 0) : digitCount n ≤ n.log2 + 1 := by
  rw [digitCount_eq hn, Nat.log2_eq_log_two]
  exact Nat.succ_le_succ (Nat.log_anti_left (by decide) (by decide))

end Digits

/-! ### Values -/

namespace Significand

/-- The value of a decimal. -/
def value (s : Significand) : ℚ := s.digits * 10 ^ s.exponent

variable {s : Significand}

/-- The exponent of the first place before a decimal that it does not reach. -/
def magnitude (s : Significand) : ℤ := digitCount s.digits + s.exponent

theorem value_lt (hs : s.digits ≠ 0) : s.value < 10 ^ s.magnitude := by
  rw [value, magnitude, zpow_add₀ (by norm_num), zpow_natCast]
  refine mul_lt_mul_of_pos_right ?_ (by positivity)
  exact_mod_cast lt_pow_digitCount hs

theorem le_value (hs : s.digits ≠ 0) : 10 ^ (s.magnitude - 1) ≤ s.value := by
  have hcount : 1 ≤ digitCount s.digits := by
    rw [digitCount_eq hs]
    omega
  have hexp : s.magnitude - 1 = (digitCount s.digits - 1 : ℕ) + s.exponent := by
    rw [magnitude]
    omega
  rw [value, hexp, zpow_add₀ (by norm_num), zpow_natCast]
  refine mul_le_mul_of_nonneg_right ?_ (by positivity)
  exact_mod_cast pow_le_of_digitCount hs

/-- The double that a decimal is rounded to is found unless the decimal is far out. -/
theorem exists_toFloat (hs : s.digits ≠ 0) (hlow : -400 ≤ s.magnitude) (hhigh : s.magnitude ≤ 400) :
    ∃ a, RoundsTo s.value a ∧ s.toFloat = .ofModel (.pack a) := by
  have hcount := digitCount_le_log2 hs
  obtain ⟨a, ha, heq⟩ := exists_ofScientific (Nat.pos_of_ne_zero hs) (k := s.exponent)
    (by rw [magnitude] at hlow; omega) (by rw [magnitude] at hhigh; omega)
  refine ⟨a, ha, ?_⟩
  rw [← heq, toFloat]
  change (if s.digits = 0 || s.magnitude < -400 then _ else if 400 < s.magnitude then _ else _) = _
  rw [if_neg (by simp [hs, hlow]), if_neg (by omega)]

theorem two_pow_lt_ten_pow : (2 : ℚ) ^ (1075 : ℤ) < 10 ^ (400 : ℤ) := by
  calc (2 : ℚ) ^ (1075 : ℤ) ≤ 2 ^ ((3 * 400 : ℕ) : ℤ) :=
        zpow_le_zpow_right₀ one_le_two (by norm_num)
    _ = (2 ^ 3) ^ 400 := by rw [zpow_natCast, pow_mul]
    _ < 10 ^ 400 := pow_lt_pow_left₀ (by norm_num) (by norm_num) (by norm_num)
    _ = 10 ^ (400 : ℤ) := (zpow_natCast 10 400).symm

/-- The smallest double above zero is not far out. -/
theorem ten_zpow_lt_half : (10 : ℚ) ^ (-400 : ℤ) < 2 ^ (-1074 : ℤ) / 2 := by
  calc (10 : ℚ) ^ (-400 : ℤ) < 2 ^ (-1075 : ℤ) := by
        rw [zpow_neg, zpow_neg]
        exact inv_strictAnti₀ (by positivity) two_pow_lt_ten_pow
    _ = 2 ^ (-1074 : ℤ) / 2 := by
        rw [div_eq_mul_inv, ← zpow_sub_one₀ two_ne_zero]
        rfl

/-- A number without places after the lowest one, and below the limit, is within the range of
doubles. -/
theorem range_of_isCanonical {m : Nat} {e : ℤ} {hm : 0 < m}
    (ha : IsCanonical (.finite .positive m e hm)) (he : e ≤ 971) :
    (2 : ℚ) ^ (-1074 : ℤ) ≤ m * 2 ^ e ∧ (m : ℚ) * 2 ^ e ≤ 2 ^ (1024 : ℤ) := by
  cases ha with
  | finite _ hsmall hlowest _ =>
  have hone : (1 : ℚ) ≤ m := by exact_mod_cast hm
  constructor
  · calc (2 : ℚ) ^ (-1074 : ℤ) ≤ 2 ^ e := zpow_le_zpow_right₀ one_le_two hlowest
      _ ≤ m * 2 ^ e := le_mul_of_one_le_left (by positivity) hone
  · calc (m : ℚ) * 2 ^ e ≤ (2 ^ 53 : ℕ) * 2 ^ e :=
          mul_le_mul_of_nonneg_right (by exact_mod_cast hsmall.le) (by positivity)
      _ = 2 ^ ((53 : ℕ) + e) := (two_zpow_add 53 e).symm
      _ ≤ 2 ^ (1024 : ℤ) := zpow_le_zpow_right₀ one_le_two (by push_cast; omega)

/-- **A decimal that lies near a double is read as it.** -/
theorem toFloat_eq {m : Nat} {e : ℤ} {hm : 0 < m} (ha : IsCanonical (.finite .positive m e hm))
    (he : e ≤ 971) (h : Near s.value m e) :
    s.toFloat = .ofModel (.pack (.finite .positive m e hm)) := by
  obtain ⟨hlow, hhigh⟩ := range_of_isCanonical ha he
  have hpos := h.pos hm
  have hs : s.digits ≠ 0 := by
    intro h0
    rw [value, h0, Nat.cast_zero, zero_mul] at hpos
    exact lt_irrefl _ hpos
  -- a decimal near a double is not so large or small that its digits are not looked at
  have hupper : s.magnitude - 1 < 400 := by
    have hlt : (10 : ℚ) ^ (s.magnitude - 1) < 10 ^ (400 : ℤ) :=
      calc (10 : ℚ) ^ (s.magnitude - 1) ≤ s.value := le_value hs
        _ ≤ 2 * (m * 2 ^ e) := h.le_two_mul hm
        _ ≤ 2 ^ (1 : ℤ) * 2 ^ (1024 : ℤ) := mul_le_mul_of_nonneg_left hhigh two_pos.le
        _ ≤ 2 ^ (1075 : ℤ) := by
          rw [← zpow_add₀ two_ne_zero]
          exact zpow_le_zpow_right₀ one_le_two (by norm_num)
        _ < 10 ^ (400 : ℤ) := two_pow_lt_ten_pow
    exact (zpow_lt_zpow_iff_right₀ (by norm_num)).1 hlt
  have hlower : -400 < s.magnitude := by
    have hlt : (10 : ℚ) ^ (-400 : ℤ) < 10 ^ s.magnitude :=
      calc (10 : ℚ) ^ (-400 : ℤ) < 2 ^ (-1074 : ℤ) / 2 := ten_zpow_lt_half
        _ ≤ m * 2 ^ e / 2 := div_le_div_of_nonneg_right hlow two_pos.le
        _ ≤ s.value := h.half_le hm
        _ < 10 ^ s.magnitude := value_lt hs
    exact (zpow_lt_zpow_iff_right₀ (by norm_num)).1 hlt
  obtain ⟨a, hrounds, heq⟩ := exists_toFloat hs (by omega) (by omega)
  rw [heq, hrounds.eq_finite (h.roundsTo ha) hpos.le]

end Significand

end FactNet.Decimal
