import Mathlib
import FactNet.LogProb
import FactNet.Proofs.Factor.Bounds

/-!
# Weights and their log-probabilities

The weight of a clause is the logarithm of its odds.  Over exact numbers the log-probability of a
weight and that of its negation are those of an event and of its opposite, and both are brought
into the range between the logarithms of a ten-thousandth and of all but a ten-thousandth.  That
range is its own opposite, so of the two log-probabilities that are stored the first tells the
second.

## Main results

* `LogProb.logSigmoid_neg` — **the negated weight has the opposite log-probability.**
* `LogProb.clip_congr_opposite` — what is stored tells what is stored of the opposite.
* `LogProb.clip_mem` — what is stored is in the range.
-/

namespace FactNet.LogProb

open Scalar

/-- The log-probability of the opposite of an event. -/
noncomputable def opposite (x : EReal) : EReal := ENNReal.log (1 - EReal.exp x)

theorem opposite_antitone {x y : EReal} (h : x ≤ y) : opposite y ≤ opposite x :=
  ENNReal.log_le_log (tsub_le_tsub_left (EReal.exp_monotone h) 1)

theorem ofProb_coe {x : ℝ} (hx : 0 < x) :
    ofProb (x : EReal) = ENNReal.log (ENNReal.ofReal x) := by
  have hnot : ¬((x : ℝ) : EReal) ≤ (zero : EReal) := by
    rw [zero_ereal, not_le]
    exact_mod_cast hx
  rw [ofProb, if_neg hnot, log_ereal, EReal.real_coe_toENNReal]

/-! ### Weights -/

theorem logOnePlus_exp (x : ℝ) :
    logOnePlus (exp (x : EReal)) = ((Real.log (1 + Real.exp x) : ℝ) : EReal) := by
  have hsum : (1 + ((ENNReal.ofReal (Real.exp x) : ENNReal) : EReal)).toENNReal =
      ENNReal.ofReal (1 + Real.exp x) := by
    rw [EReal.toENNReal_add zero_le_one (EReal.coe_ennreal_nonneg _), EReal.toENNReal_coe,
      ENNReal.ofReal_add zero_le_one (Real.exp_pos x).le, ENNReal.ofReal_one]
    congr 1
    exact EReal.toENNReal_coe (x := 1)
  rw [exp_ereal, EReal.exp_coe, logOnePlus_ereal, hsum]
  exact ENNReal.log_ofReal_of_pos (by positivity)

/-- The log-probability of a finite weight. -/
theorem logSigmoid_coe (x : ℝ) :
    logSigmoid (x : EReal) = ((-Real.log (1 + Real.exp (-x)) : ℝ) : EReal) := by
  have htop : ((x : EReal) == (top : EReal)) = false := by simp
  have hbot : ((x : EReal) == (bottom : EReal)) = false := by simp
  unfold logSigmoid
  rw [htop, hbot]
  simp only [Bool.false_eq_true, if_false, zero_ereal]
  split
  · rw [← EReal.coe_neg, logOnePlus_exp, EReal.coe_neg]
  · have hshift : x - Real.log (1 + Real.exp x) = -Real.log (1 + Real.exp (-x)) := by
      have hfactor : 1 + Real.exp x = Real.exp x * (1 + Real.exp (-x)) := by
        rw [mul_add, mul_one, ← Real.exp_add, add_neg_cancel, Real.exp_zero, add_comm]
      rw [hfactor, Real.log_mul (Real.exp_pos x).ne' (by positivity), Real.log_exp]
      ring
    rw [logOnePlus_exp, ← EReal.coe_sub, hshift]

theorem logSigmoid_top : logSigmoid (⊤ : EReal) = 0 := by
  simp [logSigmoid]

theorem logSigmoid_bot : logSigmoid (⊥ : EReal) = ⊥ := by
  simp [logSigmoid]

/-- **The negated weight has the opposite log-probability.** -/
theorem logSigmoid_neg (w : EReal) : logSigmoid (-w) = opposite (logSigmoid w) := by
  induction w with
  | bot => simp [logSigmoid_top, logSigmoid_bot, opposite]
  | top => simp [logSigmoid_top, logSigmoid_bot, opposite]
  | coe x =>
    have hpos : 0 < 1 + Real.exp (-x) := by positivity
    have hodds : 1 - (1 + Real.exp (-x))⁻¹ = (1 + Real.exp x)⁻¹ := by
      have hinverse : Real.exp (-x) * Real.exp x = 1 := by
        rw [← Real.exp_add, neg_add_cancel, Real.exp_zero]
      have hpos' : 0 < 1 + Real.exp x := by positivity
      field_simp
      linarith
    rw [← EReal.coe_neg, logSigmoid_coe, logSigmoid_coe, neg_neg, opposite, EReal.exp_coe,
      Real.exp_neg, Real.exp_log hpos, ← ENNReal.ofReal_one, ← ENNReal.ofReal_sub _ (by positivity),
      hodds, ENNReal.log_ofReal_of_pos (by positivity), Real.log_inv]

/-! ### The range that is stored -/

theorem least_eq : (least : EReal) = ENNReal.log (ENNReal.ofReal (1 / 10 ^ 4)) := by
  rw [least, log_ereal, decimal_ereal, EReal.real_coe_toENNReal, Nat.cast_one]

theorem greatest_eq : (greatest : EReal) = ENNReal.log (1 - ENNReal.ofReal (1 / 10 ^ 4)) := by
  have hcoe : (((1 : ℕ) / 10 ^ 4 : ℝ) : EReal) = (ENNReal.ofReal (1 / 10 ^ 4) : ENNReal) := by
    rw [EReal.coe_ennreal_ofReal, max_eq_left (by positivity), Nat.cast_one]
  rw [greatest, log_ereal, one_ereal, decimal_ereal, hcoe, toENNReal_one_sub]

theorem greatest_eq_ofReal :
    (greatest : EReal) = ENNReal.log (ENNReal.ofReal (1 - 1 / 10 ^ 4)) := by
  rw [greatest_eq, ENNReal.ofReal_sub _ (by positivity), ENNReal.ofReal_one]

theorem opposite_least : opposite least = greatest := by
  rw [least_eq, greatest_eq, opposite, ENNReal.exp_log]

theorem opposite_greatest : opposite greatest = least := by
  have hle : ENNReal.ofReal (1 / 10 ^ 4) ≤ 1 := ENNReal.ofReal_le_one.2 (by norm_num)
  rw [least_eq, greatest_eq, opposite, ENNReal.exp_log,
    ENNReal.sub_sub_cancel ENNReal.one_ne_top hle]

theorem least_lt_greatest : (least : EReal) < greatest := by
  rw [least_eq, greatest_eq_ofReal, ENNReal.log_lt_log_iff,
    ENNReal.ofReal_lt_ofReal_iff (by norm_num)]
  norm_num

theorem clip_eq (x : EReal) : clip x = max least (min greatest x) := by
  have hlt := least_lt_greatest
  unfold clip
  split
  · next h => rw [min_eq_right (h.trans hlt).le, max_eq_left h.le]
  · next h =>
    split
    · next h' => rw [min_eq_left h'.le, max_eq_right hlt.le]
    · next h' => rw [min_eq_right (not_lt.1 h'), max_eq_right (not_lt.1 h)]

/-- What is stored is in the range, so that it is the logarithm of no certainty. -/
theorem clip_mem (x : EReal) : ⊥ < clip x ∧ clip x ≤ 0 := by
  have hleast : ⊥ < (least : EReal) := by
    rw [least_eq, ENNReal.bot_lt_log_iff, ENNReal.ofReal_pos]
    norm_num
  have hgreatest : (greatest : EReal) ≤ 0 := by
    rw [greatest_eq, ENNReal.log_le_zero_iff]
    exact tsub_le_self
  rw [clip_eq]
  exact ⟨lt_max_of_lt_left hleast,
    max_le (least_lt_greatest.le.trans hgreatest) ((min_le_left _ _).trans hgreatest)⟩

/-- Two numbers that are stored as one are equal or on one side of the range. -/
theorem clip_eq_clip {x y : EReal} (h : clip x = clip y) (hlt : x < y) :
    y ≤ least ∨ greatest ≤ x := by
  rw [clip_eq, clip_eq] at h
  by_contra hnot
  obtain ⟨hy, hx⟩ := not_or.1 hnot
  rw [not_le] at hx hy
  have hbelow : max least (min greatest x) < max least (min greatest y) := by
    refine lt_max_of_lt_right (max_lt (lt_min least_lt_greatest hy) ?_)
    rw [min_eq_right hx.le]
    exact lt_min hx hlt
  exact hbelow.ne h

/-- **What is stored tells what is stored of the opposite.** -/
theorem clip_congr_opposite {x y : EReal} (h : clip x = clip y) :
    clip (opposite x) = clip (opposite y) := by
  wlog hlt : x < y
  · rcases eq_or_lt_of_le (not_lt.1 hlt) with rfl | hlt
    · rfl
    · exact (this h.symm hlt).symm
  rcases clip_eq_clip h hlt with hle | hle
  · have habove : ∀ z : EReal, z ≤ least → clip (opposite z) = greatest := by
      intro z hz
      have hopposite := opposite_antitone hz
      rw [opposite_least] at hopposite
      rw [clip_eq, min_eq_left hopposite, max_eq_right least_lt_greatest.le]
    rw [habove x (hlt.le.trans hle), habove y hle]
  · have hbelow : ∀ z : EReal, greatest ≤ z → clip (opposite z) = least := by
      intro z hz
      have hopposite := opposite_antitone hz
      rw [opposite_greatest] at hopposite
      rw [clip_eq, max_eq_left ((min_le_right _ _).trans hopposite)]
    rw [hbelow x hle, hbelow y (hle.trans hlt.le)]

end FactNet.LogProb
