import FactNet.Proofs.Rounding.Order

/-!
# What is rounded to a double

The numbers that are rounded to a double lie around it: up to half the way to the next double on
either side, and half the way itself if the significand is even.  The doubles below a power of two
lie twice as close as those above it, so that half the way down from it is a quarter of the way
between the doubles above.

## Main definitions

* `Double.Attains` — a distance is less than half the way, or half the way from an even number.
* `Double.Near` — a number lies near enough to a double.

## Main results

* `Double.Holds.roundedMantissa_of_attains` — a number is rounded to the whole number that it reaches.
* `Double.Near.roundsTo` — **what lies near a double is rounded to it.**
* `Double.RoundsTo.eq_finite` — a number is rounded to one double only.
-/

namespace FactNet

namespace Double

open Float.Model Float.Model.UnpackedFloat

/-! ### Whole numbers -/

/-- A distance is less than half the way to the next number, or half the way from an even one. -/
def Attains (n : Nat) (distance halfWay : ℚ) : Prop :=
  distance < halfWay ∨ distance = halfWay ∧ n % 2 = 0

theorem Attains.le {n : Nat} {distance halfWay : ℚ} (h : Attains n distance halfWay) :
    distance ≤ halfWay :=
  h.elim le_of_lt fun h => h.1.le

theorem attains_of_nonpos {n : Nat} {distance halfWay : ℚ} (h : distance ≤ 0) (hpos : 0 < halfWay) :
    Attains n distance halfWay :=
  .inl (h.trans_lt hpos)

/-- Distances are compared in any unit. -/
theorem attains_div_iff {n : Nat} {distance halfWay unit : ℚ} (hunit : 0 < unit) :
    Attains n (distance / unit) (halfWay / unit) ↔ Attains n distance halfWay := by
  unfold Attains
  rw [div_lt_div_iff_of_pos_right hunit, div_left_inj' hunit.ne']

/-- Every number that is not below zero is held. -/
theorem exists_holds {t : ℚ} (ht : 0 ≤ t) : ∃ x, Holds x t := by
  refine ⟨⟨⌊t⌋₊, decide ((⌊t⌋₊ : ℚ) + 1 / 2 ≤ t), decide (t ≠ ⌊t⌋₊ ∧ t ≠ ⌊t⌋₊ + 1 / 2)⟩, ?_⟩
  exact ⟨Nat.floor_le ht, Nat.lt_floor_add_one t, by simp, by simp⟩

/-- **A number is rounded to the whole number that it reaches.** -/
theorem Holds.roundedMantissa_of_attains {x : ExtendedMantissa} {t : ℚ} (h : Holds x t) {n : Nat}
    (habove : Attains n (t - n) (1 / 2)) (hbelow : Attains n (n - t) (1 / 2)) :
    x.roundedMantissa = n := by
  have hle := h.le
  have hlt := h.lt
  have hround := h.round
  have hsticky := h.sticky
  rw [Holds.roundedMantissa_eq]
  rcases le_or_gt (n : ℚ) t with hn | hn
  · obtain rfl : x.mantissa = n := by
      have hupper : (x.mantissa : ℚ) < n + 1 := by linarith [habove.le]
      have hlower : (n : ℚ) < x.mantissa + 1 := by linarith
      norm_cast at hupper hlower
      omega
    split
    · next hr =>
      -- half the way is from an even number only
      obtain ⟨heq, heven⟩ := habove.resolve_left (by linarith [hround.1 hr])
      have hnot : ¬x.stickyBit = true := fun hs => (hsticky.1 hs).2 (by linarith)
      rw [if_neg hnot, heven, Nat.add_zero]
    · rfl
  · obtain ⟨k, rfl⟩ : ∃ k, n = k + 1 := by
      have hpos : (0 : ℚ) < n := lt_of_le_of_lt (by positivity) (hle.trans_lt hn)
      exact Nat.exists_eq_add_one.2 (by exact_mod_cast hpos)
    push_cast at hn hbelow
    have hhalf : (k : ℚ) + 1 / 2 ≤ t := by linarith [hbelow.le]
    obtain rfl : x.mantissa = k := by
      have hupper : (x.mantissa : ℚ) < k + 1 := by linarith
      have hlower : (k : ℚ) < x.mantissa + 1 := by linarith
      norm_cast at hupper hlower
      omega
    rw [if_pos (hround.2 hhalf)]
    rcases hbelow with hless | ⟨heq, heven⟩
    · rw [if_pos (hsticky.2 ⟨by linarith, by linarith⟩)]
    · have hnot : ¬x.stickyBit = true := fun hs => (hsticky.1 hs).2 (by linarith)
      rw [if_neg hnot]
      omega

/-! ### Doubles -/

/-- Half the way from a double down to the next one. -/
def halfWayDown (m : Nat) (e : ℤ) : ℚ :=
  if m = 2 ^ 52 ∧ -1074 < e then 2 ^ e / 4 else 2 ^ e / 2

/-- A number lies near enough to a double, on either side, to be rounded to it. -/
structure Near (v : ℚ) (m : Nat) (e : ℤ) : Prop where
  above : Attains m (v - m * 2 ^ e) (2 ^ e / 2)
  below : Attains m (m * 2 ^ e - v) (halfWayDown m e)

section Near

variable {v : ℚ} {m : Nat} {e : ℤ}

theorem halfWayDown_pos (m : Nat) (e : ℤ) : 0 < halfWayDown m e := by
  unfold halfWayDown
  split <;> positivity

theorem halfWayDown_le (m : Nat) (e : ℤ) : halfWayDown m e ≤ 2 ^ e / 2 := by
  have hpow : (0 : ℚ) < 2 ^ e := by positivity
  unfold halfWayDown
  split <;> linarith

theorem near_self (m : Nat) (e : ℤ) : Near (m * 2 ^ e) m e where
  above := attains_of_nonpos (sub_self _).le (by positivity)
  below := attains_of_nonpos (sub_self _).le (halfWayDown_pos m e)

/-- What lies near a double is at least half of it. -/
theorem Near.half_le (h : Near v m e) (hm : 0 < m) : m * 2 ^ e / 2 ≤ v := by
  have hpow : (0 : ℚ) < 2 ^ e := by positivity
  have hone : (1 : ℚ) ≤ m := by exact_mod_cast hm
  have hunit : (2 : ℚ) ^ e ≤ m * 2 ^ e := le_mul_of_one_le_left hpow.le hone
  linarith [h.below.le, halfWayDown_le m e]

/-- And at most twice as much. -/
theorem Near.le_two_mul (h : Near v m e) (hm : 0 < m) : v ≤ 2 * (m * 2 ^ e) := by
  have hpow : (0 : ℚ) < 2 ^ e := by positivity
  have hone : (1 : ℚ) ≤ m := by exact_mod_cast hm
  have hunit : (2 : ℚ) ^ e ≤ m * 2 ^ e := le_mul_of_one_le_left hpow.le hone
  linarith [h.above.le]

theorem Near.pos (h : Near v m e) (hm : 0 < m) : 0 < v := by
  have hpos : (0 : ℚ) < m := by exact_mod_cast hm
  exact lt_of_lt_of_le (by positivity) (h.half_le hm)

/-- The doubles around a number are spaced by its exponent, unless it has more places. -/
theorem spacing_eq (hv : 0 < v) (hlowest : -1074 ≤ e) (hupper : v < 2 ^ (53 + e))
    (hlower : -1074 < e → 2 ^ (52 + e) ≤ v) : spacing v = e := by
  have hlog := (log_lt_iff hv).2 hupper
  have hlog' : -1074 < e → 52 + e ≤ Int.log 2 v := fun he => (le_log_iff hv).2 (hlower he)
  unfold spacing
  omega

/-- What reaches a significand at the spacing around it is rounded to that. -/
theorem exists_holds_of_attains {n : Nat} (hv : 0 < v) (hspacing : spacing v = e)
    (habove : Attains n (v - n * 2 ^ e) (2 ^ e / 2))
    (hbelow : Attains n (n * 2 ^ e - v) (2 ^ e / 2)) :
    ∃ x, Holds x (v / 2 ^ spacing v) ∧ (n : ℚ) * 2 ^ e = x.roundedMantissa * 2 ^ spacing v := by
  have hpow : (0 : ℚ) < 2 ^ e := by positivity
  have hhalf : (1 : ℚ) / 2 = 2 ^ e / 2 / 2 ^ e := by field_simp
  have hdistance : v / 2 ^ e - n = (v - n * 2 ^ e) / 2 ^ e := by field_simp
  have hdistance' : n - v / 2 ^ e = (n * 2 ^ e - v) / 2 ^ e := by field_simp
  rw [hspacing]
  obtain ⟨x, hx⟩ := exists_holds (t := v / 2 ^ e) (by positivity)
  refine ⟨x, hx, ?_⟩
  rw [hx.roundedMantissa_of_attains]
  · rwa [hdistance, hhalf, attains_div_iff hpow]
  · rwa [hdistance', hhalf, attains_div_iff hpow]

/-- What lies near a double is below all numbers with more places before the point. -/
theorem Near.lt_two_zpow (h : Near v m e) (hsmall : m < 2 ^ 53) : v < 2 ^ (53 + e) := by
  have hpow : (0 : ℚ) < 2 ^ e := by positivity
  have hless : (m : ℚ) + 1 / 2 < 2 ^ 53 := by
    have hnext : (m : ℚ) + 1 ≤ 2 ^ 53 := by exact_mod_cast hsmall
    linarith
  calc v ≤ (m + 1 / 2) * 2 ^ e := by linarith [h.above.le]
    _ < 2 ^ (53 : ℕ) * 2 ^ e := mul_lt_mul_of_pos_right hless hpow
    _ = 2 ^ (53 + e) := by rw [zpow_add₀ two_ne_zero]; norm_cast

/-- What lies near a double with all places, and not below a power of two, has as many places. -/
theorem Near.two_zpow_le (h : Near v m e) (hlarge : 2 ^ 52 ≤ m)
    (hwide : m = 2 ^ 52 → m * 2 ^ e ≤ v) : 2 ^ (52 + e) ≤ v := by
  have hpow : (0 : ℚ) < 2 ^ e := by positivity
  have hexp : (2 : ℚ) ^ (52 + e) = 2 ^ 52 * 2 ^ e := by
    rw [zpow_add₀ two_ne_zero]
    norm_cast
  rw [hexp]
  rcases hlarge.eq_or_lt with heq | hmore
  · have hle := hwide heq.symm
    rw [← heq] at hle
    exact_mod_cast hle
  · have hnext : (2 : ℚ) ^ 52 + 1 ≤ m := by exact_mod_cast hmore
    have hmul := mul_le_mul_of_nonneg_right hnext hpow.le
    linarith [h.below.le, halfWayDown_le m e]

/-- Below a power of two the doubles lie twice as close. -/
theorem Near.exists_holds_below (h : Near v (2 ^ 52) e) (he : -1074 < e)
    (hless : v < (2 ^ 52 : ℕ) * 2 ^ e) :
    ∃ x, Holds x (v / 2 ^ spacing v) ∧
      ((2 ^ 52 : ℕ) : ℚ) * 2 ^ e = x.roundedMantissa * 2 ^ spacing v := by
  have hdouble : (2 : ℚ) ^ e = 2 * 2 ^ (e - 1) := by
    rw [zpow_sub_one₀ two_ne_zero]
    field_simp
  have hunit : (0 : ℚ) < 2 ^ (e - 1) := by positivity
  have hbelow := h.below
  rw [halfWayDown, if_pos ⟨rfl, he⟩] at hbelow
  have hquarter : (2 : ℚ) ^ e / 4 = 2 ^ (e - 1) / 2 := by
    rw [hdouble]
    ring
  have hsame : ((2 ^ 52 : ℕ) : ℚ) * 2 ^ e = (2 ^ 53 : ℕ) * 2 ^ (e - 1) := by
    rw [hdouble]
    push_cast
    ring
  rw [hquarter] at hbelow
  rw [hsame] at hless hbelow ⊢
  -- below the power of two the exponent is one less
  have hspacing : spacing v = e - 1 := by
    refine spacing_eq (h.pos (by norm_num)) (by omega) ?_ fun _ => ?_
    · rwa [← two_zpow_add] at hless
    · have hexp : (2 : ℚ) ^ (52 + (e - 1)) = 2 ^ 52 * 2 ^ (e - 1) := by
        rw [zpow_add₀ two_ne_zero]
        norm_cast
      rw [hexp]
      have hle := hbelow.le
      push_cast at hle
      linarith
  refine exists_holds_of_attains (h.pos (by norm_num)) hspacing ?_ ?_
  · exact attains_of_nonpos (sub_nonpos.2 hless.le) (by positivity)
  · exact hbelow.imp_right fun heven => ⟨heven.1, by norm_num⟩

/-- **What lies near a double is rounded to it.** -/
theorem Near.roundsTo {hm : 0 < m} (h : Near v m e)
    (ha : IsCanonical (.finite .positive m e hm)) :
    RoundsTo v (.finite .positive m e hm) := by
  refine ⟨ha, ?_⟩
  rw [value_finite]
  cases ha with
  | finite hm hsmall hlowest hlarge =>
  by_cases hnarrow : (m = 2 ^ 52 ∧ -1074 < e) ∧ v < m * 2 ^ e
  · obtain ⟨⟨rfl, he⟩, hless⟩ := hnarrow
    exact h.exists_holds_below he hless
  · have hspacing : spacing v = e := by
      refine spacing_eq (h.pos hm) hlowest (h.lt_two_zpow hsmall) fun he => ?_
      exact h.two_zpow_le (hlarge he) fun heq => not_lt.1 fun hless => hnarrow ⟨⟨heq, he⟩, hless⟩
    refine exists_holds_of_attains (h.pos hm) hspacing h.above ?_
    rcases le_or_gt ((m : ℚ) * 2 ^ e) v with hle | hless
    · exact attains_of_nonpos (sub_nonpos.2 hle) (by positivity)
    · have hbelow := h.below
      rwa [halfWayDown, if_neg fun hm => hnarrow ⟨hm, hless⟩] at hbelow

end Near

/-- **A number is rounded to one double only.** -/
theorem RoundsTo.eq_finite {v : ℚ} {a : UnpackedFloat} {m : Nat} {e : ℤ} {hm : 0 < m}
    (h : RoundsTo v a) (h' : RoundsTo v (.finite .positive m e hm)) (hv : 0 ≤ v) :
    a = .finite .positive m e hm := by
  have hvalue : value a = value (.finite .positive m e hm) :=
    le_antisymm (h.value_le h' hv le_rfl) (h'.value_le h hv le_rfl)
  have hrank : rankOf a = rankOf (.finite .positive m e hm) :=
    le_antisymm ((rankOf_le_iff h.canonical h'.canonical).2 hvalue.le)
      ((rankOf_le_iff h'.canonical h.canonical).2 hvalue.ge)
  cases h.canonical with
  | zero s => exact absurd hrank (by simp [rankOf])
  | @finite m' e' hm' =>
    obtain ⟨rfl, hsame⟩ : e' = e ∧ (m' : ℤ) = m := by simpa [rankOf] using hrank
    obtain rfl : m' = m := by exact_mod_cast hsame
    rfl

end Double

end FactNet
