import FactNet.Proofs.Double
import FactNet.Proofs.Whole

/-!
# Rounding to the nearest double

The exact sum or quotient of two doubles above zero need not be a double, and then the nearest one
is taken, and of two that are equally near the even one.  The places that are dropped on the way
leave two marks: whether the rest is a half of the last place that is kept or more, and whether it
is neither nothing nor that half.  They tell all that rounding asks for, and dropping places one
after another comes to the same as dropping all of them at once.

The larger of two numbers is not rounded to the smaller double.  Where the exponents are the same
that is said of whole numbers, and where they are not the double with the higher exponent has all
its places.

## Main definitions

* `Double.Holds` — the places that are kept of a number, and the marks.
* `Double.spacing` — the exponent of the doubles around a number.
* `Double.IsCanonical` — what is finite and not below zero, written as a double.
* `Double.RoundsTo` — the double that a number is rounded to.

## Main results

* `Double.Holds.shiftRightOne` — **dropping a place keeps what is held.**
* `Double.Holds.roundedMantissa_le` — the larger number is not rounded to the smaller whole one.
* `Double.RoundsTo.value_le` — **the larger number is not rounded to the smaller double.**
* `Double.RoundsTo.refl` — a double is rounded to itself.
* `Double.roundsTo_add`, `Double.roundsTo_mul`, `Double.roundsTo_div` — **sums, products and quotients
  are rounded.**
-/

namespace FactNet

namespace Double

open Float.Model Float.Model.UnpackedFloat

/-! ### Places -/

/-- The places of a number that have been kept: the whole ones, whether the rest is a half at least,
and whether it is neither nothing nor a half. -/
structure Holds (x : ExtendedMantissa) (t : ℚ) : Prop where
  le : (x.mantissa : ℚ) ≤ t
  lt : t < x.mantissa + 1
  round : x.roundBit = true ↔ (x.mantissa : ℚ) + 1 / 2 ≤ t
  sticky : x.stickyBit = true ↔ t ≠ x.mantissa ∧ t ≠ x.mantissa + 1 / 2

namespace Holds

variable {x x' : ExtendedMantissa} {t t' : ℚ}

/-- Either mark tells that there is a rest. -/
theorem round_or_sticky (h : Holds x t) :
    (x.roundBit || x.stickyBit) = true ↔ t ≠ x.mantissa := by
  rw [Bool.or_eq_true, h.round, h.sticky]
  constructor
  · rintro (hround | ⟨hne, -⟩) heq
    · linarith
    · exact hne heq
  · intro hne
    rcases le_or_gt ((x.mantissa : ℚ) + 1 / 2) t with hle | hlt
    · exact .inl hle
    · exact .inr ⟨hne, hlt.ne⟩

/-- **Dropping a place keeps what is held.** -/
theorem shiftRightOne (h : Holds x t) : Holds x.shiftRightOne (t / 2) := by
  have hrest := h.round_or_sticky
  obtain ⟨m, r, s⟩ := x
  obtain ⟨hle, hlt, -, -⟩ := h
  dsimp only at hle hlt hrest
  -- the place that is dropped becomes the round mark, and the old marks the sticky one
  obtain ⟨k, hk⟩ : ∃ k, m = 2 * k ∨ m = 2 * k + 1 := ⟨m / 2, by omega⟩
  rcases hk with rfl | rfl
  · have hshift : (ExtendedMantissa.mk (2 * k) r s).shiftRightOne = ⟨k, false, r || s⟩ := by
      simp [ExtendedMantissa.shiftRightOne]
    rw [hshift]
    push_cast at hle hlt hrest
    refine ⟨by linarith, by linarith, ?_, ?_⟩
    · exact iff_of_false Bool.false_ne_true fun h => by linarith
    · rw [hrest]
      constructor
      · exact fun hne => ⟨fun h => hne (by linarith), by linarith⟩
      · rintro ⟨hne, -⟩ h
        exact hne (by linarith)
  · have hshift : (ExtendedMantissa.mk (2 * k + 1) r s).shiftRightOne = ⟨k, true, r || s⟩ := by
      simp [ExtendedMantissa.shiftRightOne]
      omega
    rw [hshift]
    push_cast at hle hlt hrest
    refine ⟨by linarith, by linarith, ?_, ?_⟩
    · exact ⟨fun _ => by linarith, fun _ => rfl⟩
    · rw [hrest]
      constructor
      · exact fun hne => ⟨by linarith, fun h => hne (by linarith)⟩
      · rintro ⟨-, hne⟩ h
        exact hne (by linarith)

theorem shiftRight (h : Holds x t) (n : Nat) : Holds (x >>> n) (t / 2 ^ n) := by
  show Holds (n.repeat ExtendedMantissa.shiftRightOne x) (t / 2 ^ n)
  induction n with
  | zero => simpa [Nat.repeat] using h
  | succ n ih =>
    rw [pow_succ, ← div_div]
    exact ih.shiftRightOne

/-- To the nearest whole number, and to an even one from the middle. -/
theorem roundedMantissa_eq (x : ExtendedMantissa) : x.roundedMantissa =
    if x.roundBit then (if x.stickyBit then x.mantissa + 1 else x.mantissa + x.mantissa % 2)
    else x.mantissa := by
  obtain ⟨m, r, s⟩ := x
  cases r <;> cases s <;> rfl

/-- **The larger number is not rounded to the smaller one.** -/
theorem roundedMantissa_le (h : Holds x t) (h' : Holds x' t') (hle : t ≤ t') :
    x.roundedMantissa ≤ x'.roundedMantissa := by
  obtain ⟨-, hupper⟩ := roundedMantissa_bounds x
  obtain ⟨hlower, -⟩ := roundedMantissa_bounds x'
  have hwhole : x.mantissa ≤ x'.mantissa := by
    have hlt : (x.mantissa : ℚ) < x'.mantissa + 1 := by
      have := h.le
      have := h'.lt
      linarith
    exact Nat.lt_succ_iff.1 (by exact_mod_cast hlt)
  rcases hwhole.lt_or_eq with hlt | heq
  · omega
  · -- of the same whole part, the larger rest is rounded up if the smaller one is
    have hround : x.roundBit = true → x'.roundBit = true := by
      rw [h.round, h'.round, heq]
      exact fun h => h.trans hle
    have hsticky : x.roundBit = true → x.stickyBit = true → x'.stickyBit = true := by
      rw [h.round, h.sticky, h'.sticky, heq]
      rintro hhalf ⟨-, hne⟩
      have hlt := lt_of_le_of_ne hhalf (Ne.symm hne)
      exact ⟨by linarith, by linarith⟩
    rw [roundedMantissa_eq, roundedMantissa_eq, heq]
    split
    · next hr =>
      rw [if_pos (hround hr)]
      split
      · next hs => rw [if_pos (hsticky hr hs)]
      · split <;> omega
    · split
      · split <;> omega
      · exact le_refl _

/-- A whole number and a rest are held by the number and what the marks tell of the rest. -/
theorem of_rest (m : Nat) {f : ℚ} {r s : Bool} (hf : 0 ≤ f) (hf' : f < 1)
    (hround : r = true ↔ 1 / 2 ≤ f) (hsticky : s = true ↔ f ≠ 0 ∧ f ≠ 1 / 2) :
    Holds ⟨m, r, s⟩ (m + f) where
  le := le_add_of_nonneg_right hf
  lt := (add_lt_add_iff_left _).2 hf'
  round := hround.trans (add_le_add_iff_left _).symm
  sticky := hsticky.trans (and_congr add_eq_left.not.symm (add_right_inj _).not.symm)

theorem of_exact (m : Nat) : Holds (.ofMantissaAndAccuracy m .exact) m := by
  have h := of_rest m (f := 0) (r := false) (s := false) (le_refl _) one_pos (by norm_num) (by simp)
  rwa [add_zero] at h

theorem roundedMantissa_exact (m : Nat) :
    (ExtendedMantissa.ofMantissaAndAccuracy m .exact).roundedMantissa = m := rfl

/-- A quotient is its whole part and the remainder as a part of the divisor. -/
theorem cast_div_eq_add (n : Nat) {d : Nat} (hd : 0 < d) :
    (n / d : ℚ) = (n / d : ℕ) + ((n % d : ℕ) : ℚ) / d := by
  have hpos : (0 : ℚ) < d := by exact_mod_cast hd
  have hparts : (n : ℚ) = d * (n / d : ℕ) + (n % d : ℕ) := by
    exact_mod_cast (Nat.div_add_mod n d).symm
  rw [eq_comm, ← mul_right_inj' hpos.ne', mul_add, mul_div_cancel₀ _ hpos.ne',
    mul_div_cancel₀ _ hpos.ne', ← hparts]

/-- A quotient is held by its whole part and by what the remainder is to the divisor. -/
theorem of_fraction (n : Nat) {d : Nat} (hd : 0 < d) :
    Holds (.ofMantissaAndAccuracy (n / d) (accuracyOfFraction (n % d) d)) (n / d : ℚ) := by
  have hpos : (0 : ℚ) < d := by exact_mod_cast hd
  have hless : ((n % d : ℕ) : ℚ) / d < 1 := by
    rw [div_lt_one hpos]
    exact_mod_cast Nat.mod_lt n hd
  rw [cast_div_eq_add n hd]
  generalize n / d = q at *
  generalize n % d = r at *
  unfold accuracyOfFraction
  split
  · next hr => simpa [hr] using of_exact q
  · next hr =>
    -- a rest is compared with a half as twice the remainder is with the divisor
    have hrest : (0 : ℚ) < r / d := div_pos (by exact_mod_cast Nat.pos_of_ne_zero hr) hpos
    have hhalf : (1 : ℚ) / 2 ≤ r / d ↔ d ≤ 2 * r := by
      rw [div_le_div_iff₀ two_pos hpos, one_mul, mul_comm]
      exact_mod_cast Iff.rfl
    have hmiddle : (r : ℚ) / d = 1 / 2 ↔ 2 * r = d := by
      rw [div_eq_div_iff hpos.ne' two_ne_zero, one_mul, mul_comm]
      exact_mod_cast Iff.rfl
    rcases lt_trichotomy (2 * r) d with h | h | h
    · rw [compare_lt_iff_lt.2 h]
      refine of_rest q hrest.le hless (iff_of_false Bool.false_ne_true ?_) (iff_of_true rfl ?_)
      · rw [hhalf]; omega
      · rw [ne_eq, ne_eq, hmiddle]; exact ⟨hrest.ne', by omega⟩
    · rw [compare_eq_iff_eq.2 h]
      refine of_rest q hrest.le hless (iff_of_true rfl ?_) (iff_of_false Bool.false_ne_true ?_)
      · rw [hhalf]; omega
      · rw [ne_eq, ne_eq, hmiddle]; exact fun hne => hne.2 h
    · rw [compare_gt_iff_gt.2 h]
      refine of_rest q hrest.le hless (iff_of_true rfl ?_) (iff_of_true rfl ?_)
      · rw [hhalf]; omega
      · rw [ne_eq, ne_eq, hmiddle]; exact ⟨hrest.ne', by omega⟩

end Holds

/-! ### Exponents -/

section Exponents

variable {v : ℚ} {z : ℤ}

theorem le_log_iff (hv : 0 < v) : z ≤ Int.log 2 v ↔ (2 : ℚ) ^ z ≤ v := by
  exact_mod_cast (Int.zpow_le_iff_le_log one_lt_two hv).symm

theorem log_lt_iff (hv : 0 < v) : Int.log 2 v < z ↔ v < (2 : ℚ) ^ z := by
  exact_mod_cast (Int.lt_zpow_iff_log_lt one_lt_two hv).symm

/-- The exponent of the doubles around a number above zero. -/
def spacing (v : ℚ) : ℤ := max (Int.log 2 v - 52) (-1074)

theorem two_zpow_add (k : ℕ) (e : ℤ) : (2 : ℚ) ^ ((k : ℤ) + e) = (2 ^ k : ℕ) * 2 ^ e := by
  rw [zpow_add₀ two_ne_zero, zpow_natCast, Nat.cast_pow, Nat.cast_ofNat]

/-- What begins with the places of a number has its leading place. -/
theorem log_eq_of_mem {m : Nat} {e : ℤ} (hm : 0 < m) (hle : (m : ℚ) * 2 ^ e ≤ v)
    (hlt : v < (m + 1) * 2 ^ e) : Int.log 2 v = m.log2 + e := by
  have hpow : (0 : ℚ) < 2 ^ e := by positivity
  have hv : 0 < v := lt_of_lt_of_le (mul_pos (by exact_mod_cast hm) hpow) hle
  have hlower : (m.log2 : ℤ) + e ≤ Int.log 2 v := by
    rw [le_log_iff hv, two_zpow_add]
    refine le_trans (mul_le_mul_of_nonneg_right ?_ hpow.le) hle
    exact_mod_cast Nat.log2_self_le hm.ne'
  have hupper : Int.log 2 v < ((m.log2 + 1 : ℕ) : ℤ) + e := by
    rw [log_lt_iff hv, two_zpow_add]
    refine lt_of_lt_of_le hlt (mul_le_mul_of_nonneg_right ?_ hpow.le)
    exact_mod_cast Nat.succ_le_of_lt (Nat.lt_log2_self (n := m))
  push_cast at hupper
  omega

/-- The exponent that a number is shifted to is that of the doubles around it. -/
theorem targetExponent_of_mem {m : Nat} {e : ℤ} (hv : 0 < v) (hle : (m : ℚ) * 2 ^ e ≤ v)
    (hlt : v < (m + 1) * 2 ^ e) (he : e ≤ spacing v) :
    Format.binary64.targetExponent (totalExponent m e) = spacing v := by
  rw [targetExponent_eq, totalExponent]
  unfold spacing at he ⊢
  rcases Nat.eq_zero_or_pos m with rfl | hm
  · have hlog : Int.log 2 v < e := (log_lt_iff hv).2 (by simpa using hlt)
    rw [Nat.log2_zero]
    omega
  · rw [log_eq_of_mem hm hle hlt]
    omega

variable {x : ExtendedMantissa}

/-- A number is held with fifty-three places at most by the doubles around it. -/
theorem Holds.mantissa_lt (h : Holds x (v / 2 ^ spacing v)) (hv : 0 < v) : x.mantissa < 2 ^ 53 := by
  have hlt : v < 2 ^ ((53 : ℤ) + spacing v) := by
    rw [← log_lt_iff hv]
    unfold spacing
    omega
  rw [zpow_add₀ two_ne_zero, ← div_lt_iff₀ (by positivity)] at hlt
  exact_mod_cast lt_of_le_of_lt h.le hlt

/-- It is held with all of them, unless the exponent is the lowest. -/
theorem Holds.le_mantissa (h : Holds x (v / 2 ^ spacing v)) (hv : 0 < v)
    (hspacing : -1074 < spacing v) : 2 ^ 52 ≤ x.mantissa := by
  have hle : 2 ^ ((52 : ℤ) + spacing v) ≤ v := by
    rw [← le_log_iff hv]
    unfold spacing at hspacing ⊢
    omega
  rw [zpow_add₀ two_ne_zero, ← le_div_iff₀ (by positivity)] at hle
  exact Nat.lt_succ_iff.1 (by exact_mod_cast lt_of_le_of_lt hle h.lt)

end Exponents

/-! ### Rounding -/

/-- The value of a number that is finite and not below zero. -/
def value : UnpackedFloat → ℚ
  | .finite _ m e _ => m * 2 ^ e
  | _ => 0

theorem value_finite (s : Sign) {m : Nat} (e : ℤ) (hm : 0 < m) :
    value (.finite s m e hm) = m * 2 ^ e := rfl

theorem value_zero (s : Sign) : value (.zero s) = 0 := rfl

/-- A number is finite, is not below zero, and is written with the exponent that it has as a
double. -/
inductive IsCanonical : UnpackedFloat → Prop
  | zero (s : Sign) : IsCanonical (.zero s)
  | finite {m : Nat} {e : ℤ} (hm : 0 < m) (hsmall : m < 2 ^ 53) (hlowest : -1074 ≤ e)
      (hlarge : -1074 < e → 2 ^ 52 ≤ m) : IsCanonical (.finite .positive m e hm)

/-- A number is the double that another one is rounded to. -/
structure RoundsTo (v : ℚ) (a : UnpackedFloat) : Prop where
  /-- It is written as a double. -/
  canonical : IsCanonical a
  /-- Its significand is the rounded one. -/
  places : ∃ x, Holds x (v / 2 ^ spacing v) ∧ value a = x.roundedMantissa * 2 ^ spacing v

section Rounding

variable {v v' : ℚ} {a a' : UnpackedFloat}

/-- **The larger number is not rounded to the smaller double.** -/
theorem RoundsTo.value_le (h : RoundsTo v a) (h' : RoundsTo v' a') (hv : 0 ≤ v) (hle : v ≤ v') :
    value a ≤ value a' := by
  obtain ⟨x, hx, hvalue⟩ := h.places
  obtain ⟨x', hx', hvalue'⟩ := h'.places
  rw [hvalue, hvalue']
  rcases hv.eq_or_lt with rfl | hv
  · have hnothing : Holds x 0 := by simpa using hx
    have hzero : x.roundedMantissa ≤ 0 := hnothing.roundedMantissa_le (Holds.of_exact 0) (by simp)
    rw [Nat.le_zero.1 hzero, Nat.cast_zero, zero_mul]
    positivity
  · have hlog : Int.log 2 v ≤ Int.log 2 v' := Int.log_mono_right hv hle
    have hspacing : spacing v ≤ spacing v' := max_le_max_right _ (by omega)
    rcases hspacing.eq_or_lt with heq | hlt
    · rw [heq] at hx ⊢
      refine mul_le_mul_of_nonneg_right ?_ (by positivity)
      exact_mod_cast hx.roundedMantissa_le hx' (div_le_div_of_nonneg_right hle (by positivity))
    · -- a double with a higher exponent has all its places
      have hupper : x.roundedMantissa ≤ 2 ^ 53 :=
        (roundedMantissa_bounds x).2.trans (hx.mantissa_lt hv)
      have hlower : 2 ^ 52 ≤ x'.roundedMantissa :=
        (hx'.le_mantissa (hv.trans_le hle) (lt_of_le_of_lt (le_max_right _ _) hlt)).trans
          (roundedMantissa_bounds x').1
      calc (x.roundedMantissa : ℚ) * 2 ^ spacing v
          ≤ 2 ^ (53 : ℕ) * 2 ^ spacing v :=
            mul_le_mul_of_nonneg_right (by exact_mod_cast hupper) (by positivity)
        _ = 2 ^ (53 + spacing v) := by rw [zpow_add₀ two_ne_zero]; norm_cast
        _ ≤ 2 ^ (52 + spacing v') := zpow_le_zpow_right₀ one_le_two (by omega)
        _ = 2 ^ (52 : ℕ) * 2 ^ spacing v' := by rw [zpow_add₀ two_ne_zero]; norm_cast
        _ ≤ x'.roundedMantissa * 2 ^ spacing v' :=
            mul_le_mul_of_nonneg_right (by exact_mod_cast hlower) (by positivity)

/-- **A double is rounded to itself.** -/
theorem RoundsTo.refl (ha : IsCanonical a) : RoundsTo (value a) a := by
  refine ⟨ha, ?_⟩
  cases ha with
  | zero s =>
    refine ⟨.ofMantissaAndAccuracy 0 .exact, by simpa [value_zero] using Holds.of_exact 0, ?_⟩
    rw [value_zero, Holds.roundedMantissa_exact, Nat.cast_zero, zero_mul]
  | @finite m e hm hsmall hlowest hlarge =>
    have hpow : (0 : ℚ) < 2 ^ e := by positivity
    have hv : (0 : ℚ) < m * 2 ^ e := mul_pos (by exact_mod_cast hm) hpow
    have hupper : Int.log 2 ((m : ℚ) * 2 ^ e) < 53 + e := by
      rw [log_lt_iff hv, zpow_add₀ two_ne_zero]
      exact mul_lt_mul_of_pos_right (by exact_mod_cast hsmall) hpow
    have hlower : -1074 < e → 52 + e ≤ Int.log 2 ((m : ℚ) * 2 ^ e) := by
      intro he
      rw [le_log_iff hv, zpow_add₀ two_ne_zero]
      exact mul_le_mul_of_nonneg_right (by exact_mod_cast hlarge he) hpow.le
    -- the doubles around it have its exponent
    have hspacing : spacing ((m : ℚ) * 2 ^ e) = e := by
      unfold spacing
      omega
    refine ⟨.ofMantissaAndAccuracy m .exact, ?_, ?_⟩
    · rw [value_finite, hspacing, mul_div_cancel_right₀ _ hpow.ne']
      exact Holds.of_exact m
    · rw [value_finite, hspacing, Holds.roundedMantissa_exact]

/-- The first shift leads to the exponent of the doubles around a number, and drops places. -/
theorem Holds.exists_shiftToTargetExponent {m : Nat} {e : ℤ} {acc : Accuracy}
    (h : Holds (.ofMantissaAndAccuracy m acc) (v / 2 ^ e)) (hv : 0 < v) (he : e ≤ spacing v) :
    ∃ x, shiftToTargetExponent Format.binary64 m e acc = (x, spacing v) ∧
      Holds x (v / 2 ^ spacing v) := by
  have hmantissa : (ExtendedMantissa.ofMantissaAndAccuracy m acc).mantissa = m := by
    rcases acc with _ | o
    · rfl
    · cases o <;> rfl
  have hpow : (0 : ℚ) < 2 ^ e := by positivity
  obtain ⟨k, hk⟩ : ∃ k : ℕ, spacing v = e + k := ⟨(spacing v - e).toNat, by omega⟩
  refine ⟨ExtendedMantissa.ofMantissaAndAccuracy m acc >>> k, ?_, ?_⟩
  · have hlower := h.le
    have hupper := h.lt
    rw [hmantissa, le_div_iff₀ hpow] at hlower
    rw [hmantissa, div_lt_iff₀ hpow] at hupper
    unfold shiftToTargetExponent shiftToExponent
    dsimp only
    rw [targetExponent_of_mem hv hlower hupper he, hk, add_sub_cancel_left, Int.toNat_natCast]
  · rw [hk, zpow_add₀ two_ne_zero, zpow_natCast, ← div_div]
    exact h.shiftRight k

/-- **What is held of a number is rounded to a double.** -/
theorem roundsTo_roundWithAccuracy {m : Nat} {e : ℤ} {acc : Accuracy} (hv : 0 < v)
    (h : Holds (.ofMantissaAndAccuracy m acc) (v / 2 ^ e)) (he : e ≤ spacing v) :
    RoundsTo v (roundWithAccuracy Format.binary64 .positive m e acc) := by
  obtain ⟨x, hx, hplaces⟩ := h.exists_shiftToTargetExponent hv he
  have hupper : x.roundedMantissa ≤ 2 ^ 53 :=
    (roundedMantissa_bounds x).2.trans (hplaces.mantissa_lt hv)
  have hlower : -1074 < spacing v → 2 ^ 52 ≤ x.roundedMantissa := fun hspacing =>
    (hplaces.le_mantissa hv hspacing).trans (roundedMantissa_bounds x).1
  have hlowest : -1074 ≤ spacing v := le_max_right _ _
  -- the second shift drops the place that rounding may have added
  obtain ⟨y, j, hy, hj, hsmall, hlarge⟩ :=
    exists_shiftToTargetExponent_rounded hupper hlowest hlower
  unfold roundWithAccuracy
  rw [hx]
  dsimp only
  rw [hy]
  dsimp only
  split
  · next hzero =>
    refine ⟨.zero _, x, hplaces, ?_⟩
    rw [hj, hzero, Nat.zero_mul, Nat.cast_zero, zero_mul]
    rfl
  · refine ⟨.finite _ hsmall (by omega) hlarge, x, hplaces, ?_⟩
    rw [hj, value_finite, zpow_add₀ two_ne_zero, zpow_natCast]
    push_cast
    ring

end Rounding

/-! ### Sums and quotients -/

section Operations

variable {a : UnpackedFloat} {m m' : Nat} {e e' : ℤ}

/-- A number without a sign is rounded to a double. -/
theorem roundsTo_round (hm : 0 < m) :
    RoundsTo (m * 2 ^ e) (UnpackedFloat.round Format.binary64 .positive m e) := by
  have hv : (0 : ℚ) < m * 2 ^ e := mul_pos (by exact_mod_cast hm) (by positivity)
  have hlog : Int.log 2 ((m : ℚ) * 2 ^ e) = m.log2 + e :=
    log_eq_of_mem hm (le_refl _) (mul_lt_mul_of_pos_right (lt_add_one _) (by positivity))
  unfold UnpackedFloat.round decreaseExponent
  dsimp only
  obtain ⟨k, hk⟩ : ∃ k : ℕ, k = (e - Format.binary64.targetExponent (totalExponent m e)).toNat :=
    ⟨_, rfl⟩
  rw [← hk]
  have hshift : (m : ℚ) * 2 ^ e / 2 ^ (e - k) = (m <<< k : ℕ) := by
    rw [Nat.shiftLeft_eq, div_eq_iff (by positivity), Nat.cast_mul, mul_assoc, ← two_zpow_add,
      add_sub_cancel]
  refine roundsTo_roundWithAccuracy hv (hshift ▸ Holds.of_exact _) ?_
  rw [targetExponent_eq, totalExponent] at hk
  unfold spacing
  omega

/-- **A sum is rounded to a double.** -/
theorem roundsTo_add (hm : 0 < m) (h : IsCanonical (.finite .positive m e hm))
    (ha : IsCanonical a) :
    RoundsTo (m * 2 ^ e + value a)
      (UnpackedFloat.add Format.binary64 (.finite .positive m e hm) a) := by
  cases ha with
  | zero s =>
    rw [value_zero, add_zero]
    exact RoundsTo.refl h
  | @finite m' e' hm' =>
    -- both are shifted to the lower exponent, and added without loss
    obtain ⟨j, hj⟩ : ∃ j : ℕ, j = (e - min e e').toNat := ⟨_, rfl⟩
    obtain ⟨j', hj'⟩ : ∃ j : ℕ, j = (e' - min e e').toNat := ⟨_, rfl⟩
    have hsum : 0 < m <<< j + m' <<< j' := by
      rw [Nat.shiftLeft_eq]
      exact Nat.add_pos_left (Nat.mul_pos hm (Nat.two_pow_pos j)) _
    have hgt : compare ((m <<< j + m' <<< j' : ℕ) : ℤ) 0 = .gt :=
      compare_gt_iff_gt.2 (Int.natCast_pos.2 hsum)
    have hvalue : (m : ℚ) * 2 ^ e + m' * 2 ^ e' = (m <<< j + m' <<< j' : ℕ) * 2 ^ min e e' := by
      have hleft : e = j + min e e' := by omega
      have hright : e' = j' + min e e' := by omega
      calc (m : ℚ) * 2 ^ e + m' * 2 ^ e'
          = m * ((2 ^ j : ℕ) * 2 ^ min e e') + m' * ((2 ^ j' : ℕ) * 2 ^ min e e') := by
            rw [← two_zpow_add, ← two_zpow_add, ← hleft, ← hright]
        _ = (m <<< j + m' <<< j' : ℕ) * 2 ^ min e e' := by
            rw [Nat.shiftLeft_eq, Nat.shiftLeft_eq]
            push_cast
            ring
    rw [value_finite, hvalue]
    show RoundsTo _ (UnpackedFloat.normalize Format.binary64
      (((m <<< (e - min e e').toNat : ℕ) : ℤ) + ((m' <<< (e' - min e e').toNat : ℕ) : ℤ))
      (min e e') .positive)
    rw [← hj, ← hj', ← Nat.cast_add, UnpackedFloat.normalize, hgt]
    exact roundsTo_round hsum

/-- **A product is rounded to a double**, if the significands have all places between them. -/
theorem roundsTo_mul (hm : 0 < m) (hm' : 0 < m') (h : 2 ^ 52 ≤ m * m') :
    RoundsTo (m * 2 ^ e * (m' * 2 ^ e'))
      (UnpackedFloat.mul Format.binary64 (.finite .positive m e hm) (.finite .positive m' e' hm')) := by
  have hvalue : (m : ℚ) * 2 ^ e * (m' * 2 ^ e') = (m * m' : ℕ) * 2 ^ (e + e') := by
    rw [zpow_add₀ two_ne_zero]
    push_cast
    ring
  have hpos : 0 < m * m' := Nat.mul_pos hm hm'
  have hv : (0 : ℚ) < (m * m' : ℕ) * 2 ^ (e + e') := mul_pos (by exact_mod_cast hpos) (by positivity)
  have hlog : 52 + (e + e') ≤ Int.log 2 (((m * m' : ℕ) : ℚ) * 2 ^ (e + e')) := by
    rw [le_log_iff hv, zpow_add₀ two_ne_zero]
    exact mul_le_mul_of_nonneg_right (by exact_mod_cast h) (by positivity)
  rw [hvalue]
  unfold UnpackedFloat.mul
  refine roundsTo_roundWithAccuracy hv ?_ ?_
  · rw [mul_div_cancel_right₀ _ (by positivity)]
    exact Holds.of_exact _
  · unfold spacing
    omega

/-- A quotient has at least as many places as the dividend has more than the divisor. -/
theorem le_log_div (hm : 0 < m) (hm' : 0 < m') (e e' : ℤ) :
    (m'.log2 : ℤ) + (e' - (m.log2 + 1 + e)) ≤
      Int.log 2 ((m' : ℚ) * 2 ^ e' / (m * 2 ^ e)) := by
  have hpos : (0 : ℚ) < m := by exact_mod_cast hm
  have hpos' : (0 : ℚ) < m' := by exact_mod_cast hm'
  have hlower : ((2 ^ m'.log2 : ℕ) : ℚ) ≤ m' := by exact_mod_cast Nat.log2_self_le hm'.ne'
  have hupper : (m : ℚ) ≤ (2 ^ (m.log2 + 1) : ℕ) := by
    exact_mod_cast (Nat.lt_log2_self (n := m)).le
  rw [le_log_iff (by positivity), le_div_iff₀ (by positivity)]
  calc (2 : ℚ) ^ ((m'.log2 : ℤ) + (e' - (m.log2 + 1 + e))) * (m * 2 ^ e)
      ≤ 2 ^ ((m'.log2 : ℤ) + (e' - (m.log2 + 1 + e))) * ((2 ^ (m.log2 + 1) : ℕ) * 2 ^ e) := by
        gcongr
    _ = 2 ^ ((m'.log2 : ℤ) + e') := by
        rw [← two_zpow_add, ← zpow_add₀ two_ne_zero]
        congr 1
        push_cast
        ring
    _ = (2 ^ m'.log2 : ℕ) * 2 ^ e' := two_zpow_add _ _
    _ ≤ m' * 2 ^ e' := by gcongr

/-- A quotient of numbers that are not zero is rounded to a double. -/
theorem roundsTo_div_finite (hm : 0 < m) (hm' : 0 < m') :
    RoundsTo (m' * 2 ^ e' / (m * 2 ^ e))
      (UnpackedFloat.div Format.binary64 (.finite .positive m' e' hm') (.finite .positive m e hm)) := by
  have hpos : (0 : ℚ) < m := by exact_mod_cast hm
  have hpos' : (0 : ℚ) < m' := by exact_mod_cast hm'
  have hv : (0 : ℚ) < m' * 2 ^ e' / (m * 2 ^ e) := by positivity
  -- the dividend is shifted so far that the quotient has all its places
  obtain ⟨t, ht⟩ : ∃ t, t = min (e' - e) (Format.binary64.targetExponent
    (totalExponent m' e' - totalExponent m e)) := ⟨_, rfl⟩
  obtain ⟨k, hk⟩ : ∃ k : ℕ, k = (e' - e - t).toNat := ⟨_, rfl⟩
  have hshift : (m' : ℚ) * 2 ^ e' / (m * 2 ^ e) / 2 ^ t = (m' <<< k : ℕ) / m := by
    have hexp : (2 : ℚ) ^ e' = (2 ^ k : ℕ) * 2 ^ (t + e) := by
      rw [← two_zpow_add]
      congr 1
      omega
    rw [Nat.shiftLeft_eq, hexp, zpow_add₀ two_ne_zero]
    push_cast
    field_simp
  have hlog := le_log_div hm hm' e e'
  unfold UnpackedFloat.div divCore
  dsimp only
  rw [← ht, ← hk]
  refine roundsTo_roundWithAccuracy hv (hshift ▸ Holds.of_fraction _ hm) ?_
  rw [targetExponent_eq, totalExponent, totalExponent] at ht
  unfold spacing
  omega

/-- **A quotient is rounded to a double.** -/
theorem roundsTo_div (hm : 0 < m) (ha : IsCanonical a) :
    RoundsTo (value a / (m * 2 ^ e))
      (UnpackedFloat.div Format.binary64 a (.finite .positive m e hm)) := by
  cases ha with
  | zero s =>
    rw [value_zero, div_eq_mul_inv, zero_mul]
    exact RoundsTo.refl (.zero (s / .positive))
  | finite hm' => exact roundsTo_div_finite hm hm'

end Operations

end Double

end FactNet
