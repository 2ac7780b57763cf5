import Mathlib
import FactNet.Proofs.Net.BestWorld
import FactNet.Proofs.Net.Weights

/-!
# Chains keep to possible worlds

A variable whose two worlds are not both impossible is given a value of a possible one: where only
one of them is possible, the probability of drawing the variable true is one or zero, and what is
drawn is never below zero and always below one.  A climb sees the same probability.

So neither a step nor a climb leads from a possible world to an impossible one, and both leave an
impossible world at once if a change of their variable is enough for that.  Only a restart, which
draws without looking at scores, can put a chain into an impossible world.

## Main results

* `Sampler.Tracks.possible_drawn`, `Sampler.Tracks.possible_climb` — where one of the two worlds is
  possible, the one that is taken is.
* `Sampler.Tracks.possible_afterAll` — **without a restart a chain stays in possible worlds.**
* `Sampler.Reachable.leads_to_possible` — **steps and climbs lead to possible worlds.**
-/

namespace FactNet

open Scalar

namespace MersenneTwister

/-- A number is drawn from zero to below one. -/
theorem unit_mem (s : MersenneTwister) :
    (RandomStream.unit s : EReal × MersenneTwister).1 ∈ Set.Ico 0 1 := by
  refine ⟨?_, BayesNet.unit_lt_one s⟩
  show 0 ≤ (nat (MersenneTwister.draw53 s).1 / nat 9007199254740992 : EReal)
  rw [nat_ereal, nat_ereal, ← EReal.coe_div]
  exact_mod_cast (by positivity : (0 : ℝ) ≤ _)

end MersenneTwister

namespace Sampler

variable {σ : Type} {net : BayesNet EReal} {s : Sampler σ EReal} {mode : Mode} {i : Nat}

/-! ### Two worlds of which one is possible -/

/-- One of the worlds of a variable is the current one, the other is the one where it changes. -/
theorem possible_cases (h : ⊥ < net.score s.world ∨
      ⊥ < net.score (s.world.assign i (!s.world.value i))) :
    0 < net.weight (s.world.assign i true) + net.weight (s.world.assign i false) := by
  rw [← BayesNet.weight_add_weight_flip]
  rcases h with h | h
  · exact (BayesNet.weight_pos_iff.2 h).trans_le le_self_add
  · exact (BayesNet.weight_pos_iff.2 h).trans_le le_add_self

/-- A variable that cannot be true is drawn true with probability zero. -/
theorem Tracks.chance_eq_zero (hnet : net.WellMade) (hs : s.Tracks net)
    (h : 0 < net.weight (s.world.assign i true) + net.weight (s.world.assign i false))
    (htrue : net.weight (s.world.assign i true) = 0) : s.chance net i = 0 := by
  rw [hs.chance_eq_share hnet h, htrue, ENNReal.zero_div, EReal.coe_ennreal_zero]

/-- A variable that cannot be false is drawn true with probability one. -/
theorem Tracks.chance_eq_one (hnet : net.WellMade) (hweights : net.HasWeights) (hs : s.Tracks net)
    (h : 0 < net.weight (s.world.assign i true) + net.weight (s.world.assign i false))
    (hfalse : net.weight (s.world.assign i false) = 0) : s.chance net i = 1 := by
  have hshare := hs.chance_eq_share hnet h
  rw [hfalse, add_zero] at h hshare
  rw [hshare, ENNReal.div_self h.ne' (hweights.weight_ne_top _), EReal.coe_ennreal_one]

variable (hnet : net.WellMade) (hweights : net.HasWeights) (hs : s.Tracks net)
  (h : 0 < net.weight (s.world.assign i true) + net.weight (s.world.assign i false))
include hnet hweights hs h

/-- **What a number from zero to below one decides on is possible.** -/
theorem Tracks.possible_drawn {u : EReal} (hu : u ∈ Set.Ico 0 1) :
    0 < net.weight (s.world.assign i (u < s.chance net i)) := by
  rw [pos_iff_ne_zero]
  intro hzero
  by_cases hlt : u < s.chance net i
  · rw [decide_eq_true hlt] at hzero
    rw [hs.chance_eq_zero hnet h hzero] at hlt
    exact absurd hlt (not_lt.2 hu.1)
  · rw [decide_eq_false hlt] at hzero
    rw [hs.chance_eq_one hnet hweights h hzero] at hlt
    exact hlt hu.2

/-- **What a climb decides on is possible.** -/
theorem Tracks.possible_climb : 0 < net.weight (s.climb net mode i).world := by
  have hzero : (0 : EReal) < half ∧ (half : EReal) < 1 := by
    rw [half_ereal]
    norm_cast
    norm_num
  rw [climb_world, pos_iff_ne_zero]
  intro himpossible
  split at himpossible
  · -- both worlds are equally probable, so none of them is impossible
    next hhalf =>
    rw [beq_iff_eq] at hhalf
    cases hvalue : s.world.value i with
    | true =>
      rw [hvalue] at himpossible
      exact hzero.1.ne' (hhalf.symm.trans (hs.chance_eq_zero hnet h himpossible))
    | false =>
      rw [hvalue] at himpossible
      exact hzero.2.ne (hhalf.symm.trans (hs.chance_eq_one hnet hweights h himpossible))
  · by_cases hlt : half < s.chance net i
    · rw [decide_eq_true hlt] at himpossible
      rw [hs.chance_eq_zero hnet h himpossible] at hlt
      exact hzero.1.not_gt hlt
    · rw [decide_eq_false hlt] at himpossible
      rw [hs.chance_eq_one hnet hweights h himpossible] at hlt
      exact hlt hzero.2

omit h

/-! ### Runs -/

variable [RandomStream σ EReal] (hdraws : ∀ t : σ, (RandomStream.unit t).1 ∈ Set.Ico (0 : EReal) 1)
include hdraws

/-- **Without a restart a chain stays in possible worlds**, whatever its moves are. -/
theorem Tracks.possible_afterAll (hpos : ⊥ < net.score s.world) {ms : List Move}
    (hms : .restart ∉ ms) : ⊥ < net.score (s.afterAll net mode ms).world := by
  induction ms generalizing s with
  | nil => exact hpos
  | cons m ms ih =>
    rw [List.mem_cons, not_or] at hms
    refine ih (hs.after hnet mode m) ?_ hms.2
    cases m with
    | restart => exact absurd rfl hms.1
    | climb j =>
      exact BayesNet.weight_pos_iff.1 (hs.possible_climb hnet hweights (possible_cases (.inl hpos)))
    | resync => exact hpos
    | step =>
      rw [Sampler.after, advance, step_world]
      -- the variable is chosen at random, but its number is drawn after that
      exact BayesNet.weight_pos_iff.1 (Tracks.possible_drawn hnet hweights
        (s := { s with steps := s.steps + 1, stream := _ }) hs (possible_cases (.inl hpos))
        (hdraws _))
    | tally => rwa [Sampler.after, tally_world]

omit hnet hweights hs hdraws

/-! ### Steps and climbs -/

omit [RandomStream σ EReal] in
/-- A value that leads from an impossible world to a possible one is not the current one. -/
theorem eq_not_of_possible {b : Bool} (himpossible : net.score s.world = ⊥)
    (hpos : 0 < net.weight (s.world.assign i b)) : b = !s.world.value i := by
  rw [Bool.eq_not_iff]
  rintro rfl
  rw [World.assign_value, BayesNet.weight_pos_iff, himpossible] at hpos
  exact lt_irrefl _ hpos

/-- **Steps and climbs lead to possible worlds.**

The score a chain keeps is the true one, before and after.  From a possible world a step and a climb
in any variable lead to a possible one, whatever number from zero to below one is drawn.  From an
impossible world they change the variable for certain if the changed world is possible.  So a chain
with such draws can get from a possible world to an impossible one by a restart only. -/
theorem Reachable.leads_to_possible (hnet : net.WellMade) (hweights : net.HasWeights)
    (hs : s.Reachable net mode) (i : Nat)
    (hdraw : (RandomStream.unit s.stream).1 ∈ Set.Ico (0 : EReal) 1) :
    (s.logScore = net.score s.world ∧
      (s.step net mode i).logScore = net.score (s.step net mode i).world ∧
      (s.climb net mode i).logScore = net.score (s.climb net mode i).world) ∧
    (⊥ < s.logScore → ⊥ < (s.step net mode i).logScore ∧ ⊥ < (s.climb net mode i).logScore) ∧
    (s.logScore = ⊥ → ⊥ < net.score (s.world.assign i (!s.world.value i)) →
      (s.step net mode i).world = s.world.assign i (!s.world.value i) ∧
      (s.climb net mode i).world = s.world.assign i (!s.world.value i)) ∧
    ((∀ t : σ, (RandomStream.unit t).1 ∈ Set.Ico (0 : EReal) 1) → ⊥ < s.logScore →
      ∀ ms : List Move, .restart ∉ ms → ⊥ < (s.afterAll net mode ms).logScore) := by
  have htracks := hs.tracks hnet
  have hstep := htracks.step hnet mode i
  have hclimb : (s.climb net mode i).Tracks net := htracks.after hnet mode (.climb i)
  refine ⟨⟨htracks, hstep, hclimb⟩, fun hpos => ?_, fun hbot hflip => ?_,
    fun hdraws hpos ms hms => ?_⟩
  · have hweight := possible_cases (i := i) (.inl (htracks ▸ hpos))
    rw [hstep, hclimb, ← BayesNet.weight_pos_iff, ← BayesNet.weight_pos_iff, step_world]
    exact ⟨htracks.possible_drawn hnet hweights hweight hdraw,
      htracks.possible_climb hnet hweights hweight⟩
  · have hweight := possible_cases (.inr hflip)
    have himpossible : net.score s.world = ⊥ := htracks ▸ hbot
    have hdrawn := htracks.possible_drawn hnet hweights hweight hdraw
    have hclimbed : 0 < net.weight (s.climb net mode i).world :=
      htracks.possible_climb hnet hweights hweight
    rw [climb_world] at hclimbed ⊢
    rw [step_world, eq_not_of_possible himpossible hdrawn, eq_not_of_possible himpossible hclimbed]
    exact ⟨rfl, rfl⟩
  · have hafter : (s.afterAll net mode ms).Tracks net :=
      afterAll_induction (fun _ m ht => ht.after hnet mode m) htracks ms
    rw [hafter]
    exact htracks.possible_afterAll hnet hweights hdraws (htracks ▸ hpos) hms

theorem hasWeights_followNet : followNet.HasWeights := by
  refine BayesNet.hasWeights_of_ofProbs fun f hf => ?_
  obtain rfl : f = .entailment ⟨"following", 0, ⊥, 1, [0]⟩ := by simpa [followNet] using hf
  exact .entailment ⟨le_rfl, bot_le⟩

/-- Of the four worlds the one is impossible in which the first variable alone is true. -/
theorem score_followNet (w : World) : followNet.score w =
    if w.value 0 then if w.value 1 then 0 else ⊥ else LogProb.half := by
  simp [BayesNet.score, followNet, Factor.logProb, GroundedRule.holds, GroundedRule.valueOf]

theorem weight_followNet (w : World) : followNet.weight w =
    if w.value 0 then if w.value 1 then 1 else 0 else 1 / 2 := by
  rw [BayesNet.weight, score_followNet]
  split
  · split
    · exact EReal.exp_zero
    · exact EReal.exp_bot
  · rw [LogProb.half_ereal, ENNReal.exp_log]

/-- The numbers that are drawn first decide on the first world. -/
theorem world_start_followNet (u v : Set.Ico (0 : ℝ) 1) :
    (start followNet .search (Draws.mk [u, v])).world =
      #[decide ((u : ℝ) < 1 / 5), decide ((v : ℝ) < 1 / 5)] := by
  have hprior : (BayesNet.uninformedPrior : EReal) = ((1 / 5 : ℝ) : EReal) := by
    rw [BayesNet.uninformedPrior, decimal_ereal]
    norm_num
  simp only [← EReal.coe_lt_coe_iff, ← hprior]
  unfold start restart
  rw [trackBest_world]
  simp [redraw, followNet, BayesNet.fixedWorld, World.assignAll, World.allFalse, World.assign,
    RandomStream.unit]
  rfl

/-- A chain that starts in an impossible world leaves it by a step or a climb in the first variable,
and is in a possible world after more steps.  The chain of any seed stays in possible worlds, if it
starts in one. -/
theorem leads_to_possible_followNet :
    (∃ s : Sampler Draws EReal, s.Reachable followNet .search ∧ s.logScore = ⊥ ∧
      (s.step followNet .search 0).world = #[false, false] ∧
      (s.climb followNet .search 0).world = #[false, false] ∧
      ∀ n, ⊥ < ((s.step followNet .search 0).afterAll followNet .search
        (List.replicate n .step)).logScore) ∧
    ∀ seed, ⊥ < (start followNet .search (MersenneTwister.ofSeed seed)).logScore →
      ∀ n, ⊥ < ((start followNet .search (MersenneTwister.ofSeed seed)).afterAll followNet .search
        (List.replicate n .step)).logScore := by
  let u : Set.Ico (0 : ℝ) 1 := ⟨1 / 10, by norm_num, by norm_num⟩
  let v : Set.Ico (0 : ℝ) 1 := ⟨1 / 2, by norm_num, by norm_num⟩
  have hworld : (start followNet .search (Draws.mk [u, v])).world = #[true, false] := by
    rw [world_start_followNet]
    norm_num [u, v]
  have hreach : (start followNet .search (Draws.mk [u, v])).Reachable followNet .search := .start _
  generalize start followNet .search (Draws.mk [u, v]) = s at hworld hreach
  obtain ⟨⟨hscore, hstep, -⟩, -, hflip, -⟩ := Reachable.leads_to_possible wellMade_followNet
    hasWeights_followNet hreach 0 (Draws.unit_mem _)
  obtain ⟨-, -, -, hrun⟩ := Reachable.leads_to_possible wellMade_followNet hasWeights_followNet
    (hreach.step (i := 0) (by simp [followNet])) 0 (Draws.unit_mem _)
  have hbot : s.logScore = ⊥ := by
    rw [hscore, hworld, score_followNet]
    rfl
  have hchanged : s.world.assign 0 (!s.world.value 0) = #[false, false] := by
    rw [hworld]
    rfl
  have hpossible : ⊥ < followNet.score #[false, false] := by
    rw [← BayesNet.weight_pos_iff, weight_followNet]
    simp [World.value]
  -- the other world is possible, so a step and a climb both lead to it
  obtain ⟨hdrawn, hclimbed⟩ := hflip hbot (by rwa [hchanged])
  rw [hchanged] at hdrawn hclimbed
  have hmoves : ∀ n, Move.restart ∉ List.replicate n Move.step := by simp [List.mem_replicate]
  refine ⟨⟨s, hreach, hbot, hdrawn, hclimbed, fun n => hrun Draws.unit_mem ?_ _ (hmoves n)⟩,
    fun seed hpos n => ?_⟩
  · rwa [hstep, hdrawn]
  · obtain ⟨-, -, -, hseeded⟩ := Reachable.leads_to_possible wellMade_followNet
      hasWeights_followNet (.start (MersenneTwister.ofSeed seed)) 0 (MersenneTwister.unit_mem _)
    exact hseeded MersenneTwister.unit_mem hpos _ (hmoves n)

end Sampler

end FactNet
