import Mathlib
import FactNet.Proofs.Factor.Equivalence
import FactNet.Proofs.LogProb
import FactNet.Proofs.Net.Fixed
import FactNet.Proofs.Net.RunningScore

/-!
# The weights of worlds

Scores are logarithms, and the exponential of the score of a world is its weight.  Over exact
numbers the logarithm of a sum is that of the sum of the exponentials, an operand without a
weight included, so the probability with which a step draws a variable true is the share that
the world where it is true has of the weights of both worlds.  The score a chain keeps is true
in whatever it gets to, so this is what every step draws with, whichever of the two worlds it
starts from.

Weights are numbers as long as no factor gives a world the logarithm `⊤`; that of a probability
never is.

## Main definitions

* `BayesNet.weight` — the weight of a world.
* `BayesNet.HasWeights` — a network in which all weights are numbers.
* `Factor.OfProbs` — the factors of log-probabilities.
* `Sampler.chance` — the probability with which a step draws a variable true.
* `Draws` — a stream of numbers that are known before.

## Main results

* `LogProb.add_ereal` — **the logarithm of a sum**, for all operands.
* `Factor.OfProbs.logProb_nonpos` — a factor of log-probabilities gives every world one.
* `Sampler.probTrue_ereal` — of two worlds the first is taken with its share of the weights.
* `Sampler.Reachable.tracks` — **the score a chain keeps is true in whatever it gets to.**
* `Sampler.Tracks.chance_eq_share` — **a variable is drawn true with the share of the world
  where it is.**
-/

namespace FactNet

open Scalar

/-! ### Logarithms of sums -/

namespace LogProb

theorem logOnePlus_exp_ereal (x : EReal) :
    logOnePlus (exp x) = ENNReal.log (1 + EReal.exp x) := by
  have hone : (1 : EReal).toENNReal = 1 := EReal.toENNReal_coe (x := 1)
  rw [logOnePlus_ereal, exp_ereal, EReal.toENNReal_add zero_le_one (EReal.coe_ennreal_nonneg _),
    EReal.toENNReal_coe, hone]

/-- An operand that has a weight is taken out of the sum. -/
theorem add_logOnePlus_exp {x y : EReal} (hy : y ≠ ⊥) :
    y + logOnePlus (exp (x - y)) = ENNReal.log (EReal.exp x + EReal.exp y) := by
  have hexp : EReal.exp y * EReal.exp (x - y) + EReal.exp y = EReal.exp x + EReal.exp y := by
    rw [← EReal.exp_add]
    induction y with
    | bot => exact absurd rfl hy
    | top => simp
    | coe y => rw [add_comm (y : EReal), EReal.sub_add_cancel]
  calc y + logOnePlus (exp (x - y))
      = ENNReal.log (EReal.exp y) + ENNReal.log (1 + EReal.exp (x - y)) := by
        rw [EReal.log_exp, logOnePlus_exp_ereal]
    _ = ENNReal.log (EReal.exp x + EReal.exp y) := by
        rw [← ENNReal.log_mul_add, mul_add, mul_one, add_comm, hexp]

/-- **The logarithm of a sum**, whichever operand is larger and whether it has a weight or not. -/
theorem add_ereal (x y : EReal) : add x y = ENNReal.log (EReal.exp x + EReal.exp y) := by
  unfold add
  split
  · next hx =>
    obtain rfl : x = ⊥ := by simpa using hx
    simp
  · next hx =>
    split
    · next hy =>
      obtain rfl : y = ⊥ := by simpa using hy
      simp
    · next hy =>
      split
      · exact add_logOnePlus_exp (by simpa using hy)
      · rw [add_logOnePlus_exp (by simpa using hx), add_comm]

/-- What a factor without anything to say gives a world is the logarithm of one half. -/
theorem half_ereal : (half : EReal) = ENNReal.log (1 / 2) := by
  rw [half, log_ereal, decimal_ereal, EReal.real_coe_toENNReal, one_div, ← ENNReal.ofReal_ofNat,
    ← ENNReal.ofReal_inv_of_pos two_pos]
  norm_num

end LogProb

namespace Scalar

theorem half_ereal : (half : EReal) = ((1 / 2 : ℝ) : EReal) := by
  rw [half, one_ereal, nat_ereal, ← EReal.coe_one, ← EReal.coe_div]
  norm_num

/-- What is between zero and one is left as it is. -/
theorem clampUnit_ereal {x : EReal} (h0 : 0 ≤ x) (h1 : x ≤ 1) : clampUnit x = x := by
  rw [clampUnit, least_ereal, greatest_ereal, zero_ereal, one_ereal, max_eq_right h0,
    min_eq_right h1]

end Scalar

/-! ### Factors of log-probabilities -/

/-- A table of rules that are probabilities is one of probabilities. -/
theorem RuleTable.isProb_of_ofRules {rules : List (GroundedRule EReal)} {m : MergeMethod}
    {d : EReal} {t : RuleTable EReal} (h : ofRules rules m d = .ok t)
    (hrules : ∀ r ∈ rules, r.IsProb) (h0 : 0 ≤ d) (h1 : d ≤ 1) :
    t.prior.IsProb ∧ ∀ r ∈ t.rows, r.IsProb := by
  cases rules with
  | nil => cases h
  | cons r rest =>
    unfold ofRules cleanPriors at h
    dsimp only at h
    split at h
    · cases h
    · cases h
      exact isProb_rowsOf (c := r.consequent) hrules h0 h1

/-- No value of a table with all its entries listed is above zero, if none of its entries is. -/
theorem EagerTable.logProb_nonpos {t : RuleTable EReal} {e : EagerTable EReal}
    (h : ofTable t = .ok e) (hentry : ∀ v, t.entry v ≤ 0) (w : World) : e.logProb w ≤ 0 := by
  have hlisted : ∀ (xs : List EReal) (j : Nat), (∀ x ∈ xs, x ≤ 0) →
      xs.toArray.getD j bottom ≤ 0 := by
    intro xs j hxs
    rw [Array.getD_eq_getD_getElem?, List.getElem?_toArray]
    cases hx : xs[j]? with
    | none => exact bot_le
    | some x => exact hxs x (List.mem_of_getElem? hx)
  unfold ofTable at h
  dsimp only at h
  split at h
  · cases h
  · split at h
    · cases h
    · cases h
      unfold logProb
      dsimp only
      split
      · refine hlisted _ _ fun x hx => ?_
        obtain ⟨bits, -, rfl⟩ := List.mem_map.1 hx
        exact hentry _
      · refine hlisted _ _ fun x hx => ?_
        obtain ⟨y, -, rfl⟩ := List.mem_map.1 hx
        rw [complement_ereal, ENNReal.log_le_zero_iff]
        exact tsub_le_self

namespace Factor

/-- The factors of log-probabilities: single rules with two of them, and tables of such rules. -/
inductive OfProbs : Factor EReal → Prop
  | entailment {r : GroundedRule EReal} (hr : r.IsProb) : OfProbs (.entailment r)
  | table {rules : List (GroundedRule EReal)} {m : MergeMethod} {d : EReal} {t : RuleTable EReal}
      (hrules : ∀ r ∈ rules, r.IsProb) (h0 : 0 ≤ d) (h1 : d ≤ 1)
      (h : RuleTable.ofRules rules m d = .ok t) : OfProbs (.table t)
  | eager {rules : List (GroundedRule EReal)} {m : MergeMethod} {d : EReal} {t : EagerTable EReal}
      (hrules : ∀ r ∈ rules, r.IsProb) (h0 : 0 ≤ d) (h1 : d ≤ 1)
      (h : EagerTable.ofRules rules m d = .ok t) : OfProbs (.eager t)

/-- **A factor of log-probabilities gives every world a log-probability.** -/
theorem OfProbs.logProb_nonpos {f : Factor EReal} (hf : f.OfProbs) (w : World) :
    f.logProb w ≤ 0 := by
  -- one case for each kind of factor that is built
  cases hf with
  | @entailment r hr =>
    have hhalf : (LogProb.half : EReal) ≤ 0 := by
      rw [LogProb.half_ereal, ENNReal.log_le_zero_iff, one_div]
      exact ENNReal.inv_le_one.2 one_le_two
    unfold logProb GroundedRule.valueOf
    dsimp only
    split
    · split
      · exact hr.1
      · exact hr.2
    · exact hhalf
  | table hrules h0 h1 h =>
    have ⟨hprior, hrows⟩ := RuleTable.isProb_of_ofRules h hrules h0 h1
    have hentry := RuleTable.entry_nonpos hprior hrows w.value
    unfold logProb
    dsimp only
    split
    · exact hentry
    · exact LogProb.complement_nonpos hentry
  | eager hrules h0 h1 h =>
    unfold EagerTable.ofRules at h
    split at h
    · next ht =>
      have ⟨hprior, hrows⟩ := RuleTable.isProb_of_ofRules ht hrules h0 h1
      exact EagerTable.logProb_nonpos h (RuleTable.entry_nonpos hprior hrows) w
    · cases h

end Factor

/-! ### Weights -/

namespace BayesNet

variable {net : BayesNet EReal} {w : World}

/-- The weight of a world. -/
noncomputable def weight (net : BayesNet EReal) (w : World) : ENNReal := EReal.exp (net.score w)

/-- What the factors give a world is a real number or the logarithm of zero, so that every weight is
a number. -/
def HasWeights (net : BayesNet EReal) : Prop :=
  ∀ f ∈ net.factors.toList, ∀ w, f.logProb w ≠ ⊤

/-- A network of log-probabilities has weights. -/
theorem hasWeights_of_ofProbs (h : ∀ f ∈ net.factors.toList, f.OfProbs) : net.HasWeights :=
  fun f hf w => ((h f hf).logProb_nonpos w).trans_lt EReal.zero_lt_top |>.ne

/-- The worlds that have a weight are the possible ones. -/
theorem weight_pos_iff : 0 < net.weight w ↔ ⊥ < net.score w := EReal.zero_lt_exp_iff

/-- A world and the one where a variable changes are the two worlds of the variable. -/
theorem weight_add_weight_flip (net : BayesNet EReal) (w : World) (i : Nat) :
    net.weight w + net.weight (w.assign i (!w.value i)) =
      net.weight (w.assign i true) + net.weight (w.assign i false) := by
  have hcurrent : w.assign i (w.value i) = w := World.assign_value w i
  cases hvalue : w.value i with
  | true =>
    rw [hvalue] at hcurrent
    rw [hcurrent, Bool.not_true]
  | false =>
    rw [hvalue] at hcurrent
    rw [hcurrent, Bool.not_false, add_comm]

theorem sum_ne_top {xs : List EReal} (h : ∀ x ∈ xs, x ≠ ⊤) : xs.sum ≠ ⊤ := by
  induction xs with
  | nil => exact EReal.zero_ne_top
  | cons x xs ih =>
    obtain ⟨hx, hxs⟩ := List.forall_mem_cons.1 h
    rw [List.sum_cons]
    exact (EReal.add_lt_top hx (ih hxs)).ne

theorem HasWeights.weight_ne_top (h : net.HasWeights) (w : World) : net.weight w ≠ ⊤ := by
  rw [weight, ne_eq, EReal.exp_eq_top_iff, score_eq_sum]
  refine sum_ne_top fun x hx => ?_
  obtain ⟨f, hf, rfl⟩ := List.mem_map.1 hx
  exact h f hf w

end BayesNet

/-! ### What a step draws with -/

/-- A stream of numbers that are known before, from zero to below one; after the last one it draws
zero.  Asked to choose, it takes the first. -/
structure Draws where
  /-- The numbers, in the order in which they are drawn. -/
  numbers : List (Set.Ico (0 : ℝ) 1)

noncomputable instance : RandomStream Draws EReal where
  below _ d := (0, d)
  unit d := (((d.numbers.headD 0 : Set.Ico (0 : ℝ) 1) : ℝ), ⟨d.numbers.tail⟩)

theorem Draws.unit_mem (d : Draws) : (RandomStream.unit d).1 ∈ Set.Ico (0 : EReal) 1 := by
  obtain ⟨h0, h1⟩ := (d.numbers.headD 0).2
  exact ⟨EReal.coe_nonneg.2 h0, EReal.coe_lt_coe_iff.2 h1⟩

namespace Sampler

/-- **Of two worlds the first is taken with the share that it has of both weights.** -/
theorem probTrue_ereal {x y : EReal} (h : x ≠ ⊥ ∨ y ≠ ⊥) :
    probTrue x y = ((EReal.exp x / (EReal.exp x + EReal.exp y) : ENNReal) : EReal) := by
  have hbot : ¬((x == (bottom : EReal)) && y == (bottom : EReal)) = true := by
    rw [bottom_ereal, Bool.and_eq_true, beq_iff_eq, beq_iff_eq]
    exact fun hboth => h.elim (absurd hboth.1) (absurd hboth.2)
  have hshare : exp (x - LogProb.add x y) =
      ((EReal.exp x / (EReal.exp x + EReal.exp y) : ENNReal) : EReal) := by
    rw [exp_ereal, LogProb.add_ereal, sub_eq_add_neg, EReal.exp_add, EReal.exp_neg, ENNReal.exp_log,
      div_eq_mul_inv]
  have hle : EReal.exp x / (EReal.exp x + EReal.exp y) ≤ 1 :=
    ENNReal.div_le_of_le_mul (by rw [one_mul]; exact le_self_add)
  rw [probTrue, if_neg hbot, hshare]
  exact clampUnit_ereal (EReal.coe_ennreal_nonneg _) (by exact_mod_cast hle)

section Chance

variable {σ α : Type} [Scalar α]

/-- The probability with which a step draws a variable true. -/
def chance (net : BayesNet α) (s : Sampler σ α) (i : Nat) : α :=
  probTrue (s.conditional net i).1 (s.conditional net i).2

/-- A step makes a variable true if what it draws is below that probability. -/
theorem step_world [RandomStream σ α] (net : BayesNet α) (mode : Mode) (s : Sampler σ α) (i : Nat) :
    (s.step net mode i).world =
      s.world.assign i ((RandomStream.unit (α := α) s.stream).1 < s.chance net i) :=
  setVariable_world ..

/-- A climb makes a variable true if that probability is above one half. -/
theorem climb_world (net : BayesNet α) (mode : Mode) (s : Sampler σ α) (i : Nat) :
    (s.climb net mode i).world = s.world.assign i
      (if s.chance net i == half then s.world.value i else half < s.chance net i) :=
  setVariable_world ..

end Chance

variable {σ : Type} {net : BayesNet EReal} {s : Sampler σ EReal} {mode : Mode}

/-- **A variable is drawn true with the share of the world where it is**, if one of the two worlds
is possible.  Only these two worlds count, not which of them the chain is in. -/
theorem Tracks.chance_eq_share (hnet : net.WellMade) (hs : s.Tracks net) {i : Nat}
    (h : 0 < net.weight (s.world.assign i true) + net.weight (s.world.assign i false)) :
    s.chance net i = ((net.weight (s.world.assign i true) /
      (net.weight (s.world.assign i true) + net.weight (s.world.assign i false)) : ENNReal) :
        EReal) := by
  rw [chance, hs.conditional_eq hnet]
  refine probTrue_ereal ?_
  rcases add_pos_iff.1 h with h | h
  · exact .inl (BayesNet.weight_pos_iff.1 h).ne'
  · exact .inr (BayesNet.weight_pos_iff.1 h).ne'

/-- A step keeps the kept score true, whichever variable it is in. -/
theorem Tracks.step [RandomStream σ EReal] (hnet : net.WellMade) (hs : s.Tracks net) (mode : Mode)
    (i : Nat) : (s.step net mode i).Tracks net := by
  obtain ⟨stream, b, hb⟩ : ∃ stream b, s.step net mode i =
    setVariable mode { s with stream := stream } i b (s.conditional net i) := ⟨_, _, rfl⟩
  rw [hb, hs.conditional_eq hnet]
  exact tracks_setVariable mode i b

/-- **The score a chain keeps is true in whatever it gets to.** -/
theorem Reachable.tracks [RandomStream σ EReal] (hnet : net.WellMade) (h : s.Reachable net mode) :
    s.Tracks net := by
  induction h with
  | start stream => exact tracks_start net mode stream
  | after _ _ ih => exact ih.after hnet mode _
  | step _ _ ih => exact ih.step hnet mode _

end Sampler

end FactNet
