import Mathlib
import FactNet.Factor.Eager
import FactNet.Proofs.Exact

/-!
# Entries are log-probabilities

Over exact numbers the ways to merge grounded rules make log-probabilities of log-probabilities:
where no rule has a logarithm above zero, no entry of a table is above zero.  For such a number the
two ways to write the logarithm of one minus its exponential agree.

## Main results

* `LogProb.complement_ereal`, `EagerTable.complement_ereal` — **the logarithm of one minus a
  probability.**
* `MergeMethod.merge_nonpos` — **merging makes no logarithm above zero.**
* `RuleTable.entry_nonpos` — the same for the entries of a table.
-/

namespace FactNet

open Scalar

namespace Scalar

@[simp] theorem exp_ereal (x : EReal) : exp x = ((EReal.exp x : ENNReal) : EReal) := rfl

@[simp] theorem log_ereal (x : EReal) : log x = ENNReal.log x.toENNReal := rfl

@[simp] theorem expLessOne_ereal (x : EReal) :
    expLessOne x = ((EReal.exp x : ENNReal) : EReal) - 1 := rfl

@[simp] theorem logOnePlus_ereal (x : EReal) : logOnePlus x = ENNReal.log (1 + x).toENNReal := rfl

theorem least_ereal (a b : EReal) : least a b = min a b := by
  unfold least
  split
  · next h => rw [min_eq_right h.le]
  · next h => rw [min_eq_left (not_lt.1 h)]

theorem greatest_ereal (a b : EReal) : greatest a b = max a b := by
  unfold greatest
  split
  · next h => rw [max_eq_right h.le]
  · next h => rw [max_eq_left (not_lt.1 h)]

theorem sum_ereal (xs : List EReal) : sum xs = xs.sum := by
  rw [sum, foldl_add_eq_sum, zero_ereal, zero_add]

end Scalar

/-! ### Complements -/

theorem neg_sub_one_ereal (y : ENNReal) : -((y : EReal) - 1) = 1 - y := by
  have hne : (1 : EReal) ≠ ⊥ ∧ (1 : EReal) ≠ ⊤ := ⟨EReal.coe_ne_bot 1, EReal.coe_ne_top 1⟩
  rw [EReal.neg_sub (.inr hne.1) (.inr hne.2), add_comm, sub_eq_add_neg]

theorem toENNReal_one_sub (y : ENNReal) : (1 - (y : EReal)).toENNReal = 1 - y := by
  rw [EReal.toENNReal_sub (EReal.coe_ennreal_nonneg y), EReal.toENNReal_coe]
  congr 1
  exact EReal.toENNReal_coe (x := 1)

/-- **The logarithm of one minus a probability**, by the exponential less one. -/
theorem EagerTable.complement_ereal (x : EReal) :
    EagerTable.complement x = ENNReal.log (1 - EReal.exp x) := by
  rw [EagerTable.complement, log_ereal, expLessOne_ereal, neg_sub_one_ereal, toENNReal_one_sub]

/-- **The logarithm of one minus a probability**, in whichever of the ways it is taken. -/
theorem LogProb.complement_ereal {x : EReal} (hx : x ≤ 0) :
    LogProb.complement x = ENNReal.log (1 - EReal.exp x) := by
  unfold LogProb.complement
  split
  · next h =>
    obtain rfl : x = 0 := le_antisymm hx (by simpa using h)
    simp
  · split
    · next h =>
      obtain rfl : x = ⊥ := by simpa using h
      simp
    · split
      · exact EagerTable.complement_ereal x
      · rw [exp_ereal, logOnePlus_ereal, ← sub_eq_add_neg, toENNReal_one_sub]

theorem LogProb.complement_nonpos {x : EReal} (hx : x ≤ 0) : LogProb.complement x ≤ 0 := by
  rw [LogProb.complement_ereal hx, ENNReal.log_le_zero_iff]
  exact tsub_le_self

theorem LogProb.ofProb_nonpos {p : EReal} (hp : p ≤ 1) : LogProb.ofProb p ≤ 0 := by
  unfold LogProb.ofProb
  split
  · simp
  · rw [log_ereal, ENNReal.log_le_zero_iff]
    have := EReal.toENNReal_le_toENNReal hp
    rwa [show (1 : EReal).toENNReal = 1 from EReal.toENNReal_coe (x := 1)] at this

/-! ### Merging -/

/-- A grounded rule whose two logarithms are those of probabilities. -/
def GroundedRule.IsProb (r : GroundedRule EReal) : Prop := r.ifTrue ≤ 0 ∧ r.ifFalse ≤ 0

theorem GroundedRule.default_isProb (c : Nat) {d : EReal} (h0 : 0 ≤ d) (h1 : d ≤ 1) :
    (GroundedRule.default c d).IsProb := by
  refine ⟨LogProb.ofProb_nonpos h1, LogProb.ofProb_nonpos ?_⟩
  rw [one_ereal, sub_eq_add_neg]
  exact add_le_of_nonpos_right (by simpa using h0)

namespace MergeMethod

variable {prior : GroundedRule EReal} {rows : List (GroundedRule EReal)}

theorem sum_nonpos {xs : List EReal} (h : ∀ x ∈ xs, x ≤ 0) : xs.sum ≤ 0 := by
  have := List.sum_le_card_nsmul xs 0 h
  rwa [nsmul_zero] at this

theorem jointlyFalse_nonpos (hprior : prior.IsProb) (rows : List (GroundedRule EReal)) :
    jointlyFalse prior rows ≤ 0 := by
  rw [jointlyFalse, sum_ereal]
  refine sum_nonpos fun x hx => ?_
  obtain ⟨r, -, rfl⟩ := List.mem_map.1 hx
  rw [least_ereal]
  exact (min_le_left _ _).trans hprior.2

theorem jointlyTrue_nonpos (hprior : prior.IsProb) (hrows : ∀ r ∈ rows, r.IsProb) :
    jointlyTrue prior rows ≤ 0 := by
  rw [jointlyTrue, sum_ereal]
  refine sum_nonpos fun x hx => ?_
  obtain ⟨r, hr, rfl⟩ := List.mem_map.1 hx
  rw [greatest_ereal]
  exact max_le hprior.1 (hrows r hr).1

/-- A mean of two numbers that are not above zero, of which the first counts `n` times. -/
theorem mean_nonpos {acc x : EReal} (hacc : acc ≤ 0) (hx : x ≤ 0) (n : Nat) :
    acc + (x - acc) / nat (n + 1) ≤ 0 := by
  have hpos : (0 : EReal) < ((n + 1 : ℕ) : ℝ) := by exact_mod_cast Nat.succ_pos n
  rw [nat_ereal]
  induction acc with
  | bot => simp
  | top => exact absurd hacc (by simp)
  | coe a =>
    induction x with
    | top => exact absurd hx (by simp)
    | bot =>
      rw [EReal.bot_sub, EReal.bot_div_of_pos_ne_top hpos (EReal.coe_ne_top _), EReal.add_bot]
      exact bot_le
    | coe x =>
      have ha : a ≤ 0 := by exact_mod_cast hacc
      have hx : x ≤ 0 := by exact_mod_cast hx
      have hn : (0 : ℝ) < ((n + 1 : ℕ) : ℝ) := by exact_mod_cast Nat.succ_pos n
      have hmean : a + (x - a) / ((n + 1 : ℕ) : ℝ) = (n * a + x) / ((n + 1 : ℕ) : ℝ) := by
        push_cast
        field_simp
        ring
      rw [← EReal.coe_sub, ← EReal.coe_div, ← EReal.coe_add, hmean]
      have hsum : (n : ℝ) * a + x ≤ 0 :=
        add_nonpos (mul_nonpos_of_nonneg_of_nonpos (Nat.cast_nonneg n) ha) hx
      exact_mod_cast div_nonpos_of_nonpos_of_nonneg hsum hn.le

theorem runningMean_nonpos {xs : List EReal} (h : ∀ x ∈ xs, x ≤ 0) {acc : EReal} (hacc : acc ≤ 0)
    (n : Nat) : runningMean acc n xs ≤ 0 := by
  induction xs generalizing acc n with
  | nil => exact hacc
  | cons x xs ih =>
    have ⟨hx, hxs⟩ := List.forall_mem_cons.1 h
    exact ih hxs (mean_nonpos hacc hx n) (n + 1)

theorem half_add_le_one {p q : EReal} (hp : p ≤ 1) (hq : q ≤ 1) :
    (p + q) / nat (1 + 1) ≤ 1 := by
  have htwo : (nat (1 + 1) : EReal) = 1 + 1 := by
    rw [nat_ereal, ← EReal.coe_one, ← EReal.coe_add]
    norm_num
  have hpos : (0 : EReal) < 1 + 1 := by positivity
  rw [htwo, EReal.div_le_iff_le_mul hpos (by rw [← htwo, nat_ereal]; exact EReal.coe_ne_top _),
    mul_one]
  exact add_le_add hp hq

/-- The mean of two probabilities, of which one may be missing, has no logarithm above zero. -/
theorem meanOfBranches_nonpos {p q : EReal} (hp : p ≤ 1) (hq : q ≤ 1)
    (pro contra : List (GroundedRule EReal)) : meanOfBranches pro contra p q ≤ 0 := by
  refine LogProb.ofProb_nonpos ?_
  unfold branch
  rw [zero_ereal]
  cases pro.isEmpty <;> cases contra.isEmpty
  · exact half_add_le_one hp hq
  · simpa using hp
  · simpa using hq
  · simp

/-- **Merging makes no logarithm above zero.** -/
theorem merge_nonpos (m : MergeMethod) (hprior : prior.IsProb) (hrows : ∀ r ∈ rows, r.IsProb) :
    m.merge prior rows ≤ 0 := by
  have hfalse : ∀ rows, -expLessOne (jointlyFalse prior rows) ≤ 1 := by
    intro rows
    rw [expLessOne_ereal, neg_sub_one_ereal, sub_eq_add_neg]
    exact add_le_of_nonpos_right (by simpa using EReal.coe_ennreal_nonneg _)
  cases m with
  | noisyOr => exact LogProb.complement_nonpos (jointlyFalse_nonpos hprior rows)
  | geometricMean =>
    refine runningMean_nonpos (fun x hx => ?_) (by simp) 0
    obtain ⟨r, hr, rfl⟩ := List.mem_map.1 hx
    rw [greatest_ereal]
    exact max_le hprior.1 (hrows r hr).1
  | hybridOr =>
    refine meanOfBranches_nonpos (hfalse _) ?_ _ _
    have htrue : jointlyTrue prior (rows.filter fun r => !favours r) ≤ 0 :=
      jointlyTrue_nonpos hprior fun r hr => hrows r (List.mem_of_mem_filter hr)
    rw [exp_ereal]
    exact_mod_cast EReal.exp_le_one_iff.2 htrue
  | gentleOr => exact meanOfBranches_nonpos (hfalse _) (hfalse _) _ _

end MergeMethod

/-- The rules that count are rows. -/
theorem RuleTable.active_subset {α : Type} (t : RuleTable α) (v : Valuation) :
    t.active v ⊆ t.rows := by
  intro r hr
  unfold active at hr
  split at hr
  · cases hr
  · exact List.mem_of_mem_filter hr

/-- **No entry of a table is above zero.** -/
theorem RuleTable.entry_nonpos {t : RuleTable EReal} (hprior : t.prior.IsProb)
    (hrows : ∀ r ∈ t.rows, r.IsProb) (v : Valuation) : t.entry v ≤ 0 :=
  MergeMethod.merge_nonpos t.method hprior fun r hr => hrows r (t.active_subset v hr)

end FactNet
