import Mathlib
import FactNet.Proofs.Net.Possible

/-!
# Climbing

A climb compares the probability of one world with one half, not the scores of two worlds.  Over
exact numbers that is the same: the share that a world has of two weights is above one half just if
its weight is the greater one, and it is one half just if both weights are equal, be it that both
worlds are impossible.  So a climb takes the better one of the two worlds of its variable, and stays
where it is if neither is better.

What is kept after that is the greater one of two scores of which the old one was one, so no climb
makes the score smaller, and neither does a whole pass over the adjustable variables.  Chance has no
part in it.

## Main results

* `Scalar.half_lt_share_iff`, `Scalar.share_eq_half_iff` — a share compared with one half.
* `Sampler.half_lt_probTrue_iff`, `Sampler.probTrue_eq_half_iff` — **the probability of a world is
  above one half just if its score is the greater one**, and one half just if both are equal.
* `Sampler.Tracks.climb_logScore` — **a climb keeps the greater score.**
* `Sampler.Tracks.logScore_le_climb`, `Sampler.Tracks.climbs` — so a pass never makes the score
  smaller.
* `Sampler.Reachable.logScore_le_bestScore` — the best score of a search is never below the kept
  one.
* `Sampler.Reachable.climbs_up` — **climbing never makes things worse.**
-/

namespace FactNet

open Scalar

/-! ### Shares -/

namespace Scalar

variable {a b : ENNReal}

theorem half_eq_inv_two : (half : EReal) = ((2⁻¹ : ENNReal) : EReal) := by
  have htwo : ENNReal.ofReal (2⁻¹ : ℝ) = (2⁻¹ : ENNReal) := by
    rw [ENNReal.ofReal_inv_of_pos two_pos, ENNReal.ofReal_ofNat]
  rw [half_ereal, ← htwo, EReal.coe_ennreal_ofReal, max_eq_left (by norm_num), one_div]

variable (ha : a ≠ ⊤) (hb : b ≠ ⊤) (h : a + b ≠ 0)
include ha hb h

theorem half_lt_share_iff : (half : EReal) < ((a / (a + b) : ENNReal) : EReal) ↔ b < a := by
  have htop : a + b ≠ ⊤ := ENNReal.add_ne_top.2 ⟨ha, hb⟩
  rw [half_eq_inv_two, EReal.coe_ennreal_lt_coe_ennreal_iff,
    ENNReal.lt_div_iff_mul_lt (.inl h) (.inl htop), ← ENNReal.div_eq_inv_mul,
    ENNReal.div_lt_iff (.inl two_ne_zero) (.inl ENNReal.ofNat_ne_top), mul_two,
    ENNReal.add_lt_add_iff_left ha]

theorem share_lt_half_iff : ((a / (a + b) : ENNReal) : EReal) < half ↔ a < b := by
  have htop : a + b ≠ ⊤ := ENNReal.add_ne_top.2 ⟨ha, hb⟩
  rw [half_eq_inv_two, EReal.coe_ennreal_lt_coe_ennreal_iff,
    ENNReal.div_lt_iff (.inl h) (.inl htop), ← ENNReal.div_eq_inv_mul,
    ENNReal.lt_div_iff_mul_lt (.inl two_ne_zero) (.inl ENNReal.ofNat_ne_top), mul_two,
    ENNReal.add_lt_add_iff_left ha]

theorem share_eq_half_iff : ((a / (a + b) : ENNReal) : EReal) = half ↔ a = b := by
  rw [eq_iff_le_not_lt, ← not_lt, half_lt_share_iff ha hb h, share_lt_half_iff ha hb h,
    eq_iff_le_not_lt, not_lt]

end Scalar

/-! ### The better one of two worlds -/

namespace Sampler

section Two

variable {x y : EReal}

/-- Neither of two impossible worlds is more probable. -/
theorem probTrue_bot : probTrue (⊥ : EReal) ⊥ = half := by
  have hzero : (0 : EReal) ≤ half := half_eq_inv_two ▸ EReal.coe_ennreal_nonneg _
  have hone : (half : EReal) ≤ 1 := by
    rw [half_eq_inv_two]
    exact_mod_cast ENNReal.inv_le_one.2 one_le_two
  rw [probTrue, if_pos (by simp), clampUnit_ereal hzero hone]

theorem exp_add_exp_ne_zero (h : x ≠ ⊥ ∨ y ≠ ⊥) : EReal.exp x + EReal.exp y ≠ 0 := by
  rw [ne_eq, add_eq_zero, EReal.exp_eq_zero_iff, EReal.exp_eq_zero_iff]
  exact fun hboth => h.elim (absurd hboth.1) (absurd hboth.2)

variable (hx : x ≠ ⊤) (hy : y ≠ ⊤)
include hx hy

/-- **The probability of a world is above one half just if its score is the greater one.** -/
theorem half_lt_probTrue_iff : half < probTrue x y ↔ y < x := by
  by_cases h : x ≠ ⊥ ∨ y ≠ ⊥
  · rw [probTrue_ereal h, half_lt_share_iff (by simpa using hx) (by simpa using hy)
      (exp_add_exp_ne_zero h), EReal.exp_lt_exp_iff]
  · obtain ⟨rfl, rfl⟩ : x = ⊥ ∧ y = ⊥ := by simpa [not_or] using h
    rw [probTrue_bot]
    simp

/-- **It is one half just if both scores are equal.** -/
theorem probTrue_eq_half_iff : probTrue x y = half ↔ x = y := by
  by_cases h : x ≠ ⊥ ∨ y ≠ ⊥
  · rw [probTrue_ereal h, share_eq_half_iff (by simpa using hx) (by simpa using hy)
      (exp_add_exp_ne_zero h), EReal.exp_strictMono.injective.eq_iff]
  · obtain ⟨rfl, rfl⟩ : x = ⊥ ∧ y = ⊥ := by simpa [not_or] using h
    exact iff_of_true probTrue_bot rfl

end Two

end Sampler

/-- Where weights are numbers no score is above all of them. -/
theorem BayesNet.HasWeights.score_ne_top {net : BayesNet EReal} (h : net.HasWeights) (w : World) :
    net.score w ≠ ⊤ := by
  simpa [BayesNet.weight] using h.weight_ne_top w

namespace Sampler

variable {σ : Type} {net : BayesNet EReal} {s : Sampler σ EReal} {mode : Mode}

/-- A climb keeps the kept score true. -/
theorem Tracks.climb (hnet : net.WellMade) (hs : s.Tracks net) (mode : Mode) (i : Nat) :
    (s.climb net mode i).Tracks net := by
  obtain ⟨b, hb⟩ := s.climb_eq_setVariable mode i net
  rw [hb, hs.conditional_eq hnet]
  exact tracks_setVariable mode i b

variable (hnet : net.WellMade) (hweights : net.HasWeights) (hs : s.Tracks net)
include hnet hweights hs

/-- A climb makes a variable true if that is better, and leaves it alone if neither value is. -/
theorem Tracks.climb_world_eq (i : Nat) : (s.climb net mode i).world = s.world.assign i
    (if net.score (s.world.assign i true) = net.score (s.world.assign i false) then s.world.value i
      else net.score (s.world.assign i false) < net.score (s.world.assign i true)) := by
  have htrue := hweights.score_ne_top (s.world.assign i true)
  have hfalse := hweights.score_ne_top (s.world.assign i false)
  rw [climb_world, chance, hs.conditional_eq hnet]
  simp only [beq_iff_eq, probTrue_eq_half_iff htrue hfalse, half_lt_probTrue_iff htrue hfalse]

/-- **A climb keeps the greater score.** -/
theorem Tracks.climb_logScore (i : Nat) : (s.climb net mode i).logScore =
    max (net.score (s.world.assign i true)) (net.score (s.world.assign i false)) := by
  rw [hs.climb hnet mode i, hs.climb_world_eq hnet hweights]
  split
  · next htie => cases s.world.value i <;> simp [htie]
  · by_cases hlt : net.score (s.world.assign i false) < net.score (s.world.assign i true)
    · rw [decide_eq_true hlt, max_eq_left hlt.le]
    · rw [decide_eq_false hlt, max_eq_right (not_lt.1 hlt)]

/-- The score that was kept before is one of the two. -/
theorem Tracks.logScore_le_climb (i : Nat) : s.logScore ≤ (s.climb net mode i).logScore := by
  have hcurrent : s.logScore = net.score (s.world.assign i (s.world.value i)) := by
    rw [World.assign_value]
    exact hs
  rw [hs.climb_logScore hnet hweights, hcurrent]
  cases s.world.value i
  · exact le_max_right _ _
  · exact le_max_left _ _

/-! ### A pass -/

/-- **Climbing in several variables never makes the score smaller**, and draws nothing. -/
theorem Tracks.climbs (mode : Mode) (is : List Nat) :
    s.logScore ≤ (is.foldl (Sampler.climb net mode) s).logScore ∧
      (is.foldl (Sampler.climb net mode) s).Tracks net ∧
      (is.foldl (Sampler.climb net mode) s).stream = s.stream := by
  induction is generalizing s with
  | nil => exact ⟨le_rfl, hs, rfl⟩
  | cons i is ih =>
    obtain ⟨hle, htracks, hstream⟩ := ih (hs.climb hnet mode i)
    exact ⟨(hs.logScore_le_climb hnet hweights i).trans hle, htracks,
      hstream.trans (climb_stream s mode i net)⟩

/-! ### The best score -/

omit hnet hweights hs

/-- What is kept if it is better is never above the best. -/
theorem logScore_le_trackBest (t : Sampler σ EReal) :
    (trackBest .search t).logScore ≤ (trackBest .search t).bestScore := by
  by_cases hlt : t.bestScore < t.logScore
  · rw [trackBest_of_lt t hlt]
  · rw [trackBest_of_not_lt t .search hlt]
    exact not_lt.1 hlt

variable [RandomStream σ EReal]

/-- **The best score of a search is never below the kept one.** -/
theorem Reachable.logScore_le_bestScore (hnet : net.WellMade) (hs : s.Reachable net .search) :
    s.logScore ≤ s.bestScore := by
  induction hs with
  | start stream => exact logScore_le_trackBest _
  | @after s hreach m hm ih =>
    rcases s.after_cases net .search m with ⟨hworld, hscore, -⟩ | ⟨t, ht, -⟩
    · -- the world is the same, and the score that is kept is always its own
      rw [(hreach.after hm).tracks hnet, hworld, hscore, ← hreach.tracks hnet]
      exact ih
    · rw [ht]
      exact logScore_le_trackBest t
  | step _ _ _ => exact logScore_le_trackBest _

/-- **Climbing never makes things worse.**

Whatever a chain has got to, a climb in any variable keeps the greater one of the scores of the two
worlds that differ in it at most, stays in the world it is in if these are equal, and draws no
random number.  So a check that climbs in all adjustable variables does not fail, and ends with a
score that is at least as great as before, the true score of the world it ends in.  The best score
of a search is never below the one that is kept, neither before nor after a climb nor after such a
check.

Scores are real numbers or `⊥`, as no factor gives a world `⊤`. -/
theorem Reachable.climbs_up (hnet : net.WellMade) (hweights : net.HasWeights)
    (hs : s.Reachable net mode) :
    (∀ i, (s.climb net mode i).logScore =
        max (net.score (s.world.assign i true)) (net.score (s.world.assign i false)) ∧
      (s.climb net mode i).logScore = net.score (s.climb net mode i).world ∧
      (net.score (s.world.assign i true) = net.score (s.world.assign i false) →
        (s.climb net mode i).world = s.world) ∧
      (s.climb net mode i).stream = s.stream) ∧
    (net.hillClimb = true → ∃ s', s.checkDrift net mode = .ok s' ∧
      s'.world = (s.climbAll net mode).world ∧ s'.stream = s.stream ∧
      s'.logScore = net.score s'.world ∧ s.logScore ≤ s'.logScore ∧
      (mode = .search → s'.logScore ≤ s'.bestScore)) ∧
    (mode = .search → s.logScore ≤ s.bestScore ∧
      ∀ i, (s.climb net mode i).logScore ≤ (s.climb net mode i).bestScore) := by
  have htracks := hs.tracks hnet
  refine ⟨fun i => ⟨htracks.climb_logScore hnet hweights i, htracks.climb hnet mode i,
    fun htie => ?_, climb_stream s mode i net⟩, fun hclimb => ?_, fun hmode => ⟨?_, fun i => ?_⟩⟩
  · rw [htracks.climb_world_eq hnet hweights, if_pos htie, World.assign_value]
  · -- a check climbs in every variable, and the score that it then compares is true
    have hpass : s.beforeResync net mode = s.climbAll net mode := by
      rw [beforeResync, if_pos hclimb, climbAll_eq]
    obtain ⟨hle, hkept, hstream⟩ := htracks.climbs hnet hweights mode net.adjustable.toList
    rw [Array.foldl_toList, ← climbAll] at hle hkept hstream
    refine ⟨(s.climbAll net mode).resync net, ?_, rfl, hstream, rfl,
      hle.trans (le_of_eq hkept), fun hmode => ?_⟩
    · rw [checkDrift_eq (by rw [hpass]; exact hkept.agrees), hpass]
    · subst hmode
      -- the climbs of a check are moves, and these keep the best score up
      have hreach : (s.climbAll net .search).Reachable net .search := by
        rw [climbAll_eq]
        refine reachable_afterAll hs fun m hm => ?_
        obtain ⟨i, hi, rfl⟩ := List.mem_map.1 hm
        exact Array.mem_toList_iff.1 hi
      exact (hreach.after (m := .resync) trivial).logScore_le_bestScore hnet
  · subst hmode
    exact hs.logScore_le_bestScore hnet
  · subst hmode
    exact logScore_le_trackBest _

/-- A chain that starts in the impossible world leaves it by a check.  The climb in the second
variable finds two equal scores and changes nothing, so the check ends in a possible world that is
not the best one. -/
theorem climbs_up_followNet : ∃ s s' : Sampler Draws EReal, s.Reachable followNet .search ∧
    s.logScore = ⊥ ∧ s.checkDrift followNet .search = .ok s' ∧ s'.world = #[false, false] ∧
      s'.stream = s.stream ∧ s'.logScore = LogProb.half ∧ s'.logScore ≤ s'.bestScore := by
  let u : Set.Ico (0 : ℝ) 1 := ⟨1 / 10, by norm_num, by norm_num⟩
  let v : Set.Ico (0 : ℝ) 1 := ⟨1 / 2, by norm_num, by norm_num⟩
  have hworld : (start followNet .search (Draws.mk [u, v])).world = #[true, false] := by
    rw [world_start_followNet]
    norm_num [u, v]
  have hreach : (start followNet .search (Draws.mk [u, v])).Reachable followNet .search := .start _
  generalize start followNet .search (Draws.mk [u, v]) = s at hworld hreach
  have hbot : s.logScore = ⊥ := by
    rw [hreach.tracks wellMade_followNet, hworld, score_followNet]
    rfl
  -- the climb in the first variable leaves the impossible world
  have hfirst : (s.climb followNet .search 0).world = #[false, false] := by
    have htrue : followNet.score (s.world.assign 0 true) = ⊥ := by
      rw [hworld, score_followNet]
      rfl
    have hfalse : followNet.score (s.world.assign 0 false) = LogProb.half := by
      rw [hworld, score_followNet]
      rfl
    have hpossible : (⊥ : EReal) < LogProb.half := by
      rw [LogProb.half_ereal, bot_lt_iff_ne_bot, ne_eq, ENNReal.log_eq_bot_iff]
      simp
    rw [(hreach.tracks wellMade_followNet).climb_world_eq wellMade_followNet hasWeights_followNet,
      htrue, hfalse, if_neg hpossible.ne, hworld, decide_eq_false hpossible.not_gt]
    rfl
  -- the climb in the second one finds a tie
  have hsecond : ((s.climb followNet .search 0).climb followNet .search 1).world =
      #[false, false] := by
    have hreach' : (s.climb followNet .search 0).Reachable followNet .search :=
      hreach.after (m := .climb 0) (by simp [Move.Allowed, followNet])
    obtain ⟨hclimb, -⟩ := Reachable.climbs_up wellMade_followNet hasWeights_followNet hreach'
    obtain ⟨-, -, htie, -⟩ := hclimb 1
    rw [htie, hfirst]
    rw [hfirst, score_followNet, score_followNet]
    rfl
  obtain ⟨-, hcheck, -⟩ := Reachable.climbs_up wellMade_followNet hasWeights_followNet hreach
  obtain ⟨s', hs', hworld', hstream, hscore, -, hbest⟩ := hcheck rfl
  have hlast : s'.world = #[false, false] := hworld'.trans hsecond
  refine ⟨s, s', hreach, hbot, hs', hlast, hstream, ?_, hbest rfl⟩
  rw [hscore, hlast, score_followNet]
  rfl

end Sampler

end FactNet
