import Mathlib
import FactNet.Proofs.Net.Moves
import FactNet.Proofs.Net.Touching
import FactNet.Random.MersenneTwister

/-!
# The score a chain keeps

A chain keeps the score of its world up to date by taking out what the factors of one variable
gave the old world and putting in what they give the new one.  Over exact numbers nothing is
lost that way: what the other factors give is the difference of the score and the part taken
out, whenever that part is a real number, and it does not depend on the variable.

So the score a chain keeps is the score of its world after every move, and no check of it can
fail.

## Main definitions

* `Sampler.Tracks` — the score a chain keeps is that of its world.

## Main results

* `Sampler.Tracks.conditional_eq` — the two scores taken from the kept one are the true ones.
* `Sampler.Tracks.after` — every move keeps the kept score true.
* `Sampler.logScore_exact` — **the kept score is true at every point of every run**, and no
  check fails.
-/

namespace FactNet

open Scalar

namespace Sampler

variable {σ : Type} {net : BayesNet EReal} {s : Sampler σ EReal}

/-- The score a chain keeps is that of its world. -/
def Tracks (net : BayesNet EReal) (s : Sampler σ EReal) : Prop :=
  s.logScore = net.score s.world

/-- **The scores taken from the kept one are the true ones**, though only the factors of the
variable are read to find them. -/
theorem Tracks.conditional_eq (hnet : net.WellMade) (hs : s.Tracks net) (i : Nat) :
    s.conditional net i =
      (net.score (s.world.assign i true), net.score (s.world.assign i false)) := by
  have hpart : (if s.world.value i then net.partScore i (s.world.assign i true)
      else net.partScore i (s.world.assign i false)) = net.partScore i s.world := by
    rw [← apply_ite (fun b => net.partScore i (s.world.assign i b))]
    have hvalue : (if s.world.value i = true then true else false) = s.world.value i := by simp
    rw [hvalue, World.assign_value]
  unfold conditional
  simp only [zero_ereal, hnet.scoreOf_touching, hpart]
  split
  · rfl
  · next hfinite =>
    rw [Bool.not_eq_true, Bool.or_eq_false_iff] at hfinite
    obtain ⟨htop, hbot⟩ := isInfinite_eq_false_iff.mp hfinite.2
    -- a real part can be taken out of the score again
    have hrest : s.logScore - net.partScore i s.world = net.restScore i s.world := by
      rw [hs, net.score_eq_part_add_rest i, ← EReal.coe_toReal htop hbot,
        EReal.add_sub_cancel_left]
    rw [hrest, hnet.score_assign, hnet.score_assign, add_comm (net.restScore i s.world),
      add_comm (net.restScore i s.world)]

/-- Giving a variable a value keeps the kept score true, if it gets one of the true scores. -/
theorem tracks_setVariable (mode : Mode) (i : Nat) (b : Bool) :
    (setVariable mode s i b
      (net.score (s.world.assign i true), net.score (s.world.assign i false))).Tracks net := by
  rw [Tracks, setVariable_logScore, setVariable_world]
  cases b <;> rfl

/-- A score that is kept true is as good as the true one. -/
theorem Tracks.agrees (hs : s.Tracks net) : agrees s.logScore (net.score s.world) = true := by
  rw [hs, Sampler.agrees]
  by_cases hinf : isInfinite (net.score s.world) = true
  · simp [hinf]
  · obtain ⟨htop, hbot⟩ := isInfinite_eq_false_iff.mp (Bool.not_eq_true _ ▸ hinf)
    have hdiff : magnitude (net.score s.world - net.score s.world) < (driftTolerance : EReal) := by
      rw [EReal.sub_self htop hbot, magnitude, driftTolerance, zero_ereal, if_neg (lt_irrefl _)]
      simp
    simp [hdiff]

variable [RandomStream σ EReal]

/-- Every move keeps the kept score true. -/
theorem Tracks.after (hnet : net.WellMade) (hs : s.Tracks net) (mode : Mode) (m : Move) :
    (s.after net mode m).Tracks net := by
  cases m with
  | restart => exact restart_logScore s mode net
  | climb i =>
    obtain ⟨b, hb⟩ := s.climb_eq_setVariable mode i net
    rw [Sampler.after, hb, hs.conditional_eq hnet]
    exact tracks_setVariable mode i b
  | resync => rfl
  | step =>
    obtain ⟨stream, i, b, hb⟩ := s.advance_eq_setVariable mode net
    rw [Sampler.after, hb, hs.conditional_eq hnet]
    exact tracks_setVariable mode i b
  | tally =>
    rw [Sampler.after, Tracks, tally_logScore, tally_world]
    exact hs

variable (net) in
theorem tracks_start (mode : Mode) (stream : σ) : (start net mode stream).Tracks net :=
  restart_logScore _ mode net

/-- After any moves the kept score is true. -/
theorem tracks_afterAll (hnet : net.WellMade) (mode : Mode) (stream : σ) (ms : List Move) :
    ((start net mode stream).afterAll net mode ms).Tracks net :=
  afterAll_induction (fun _ m hs => hs.after hnet mode m) (tracks_start net mode stream) ms

/-- **The kept score is true at every point of every run.**  After any moves of a chain, those of a
run among them, the score it keeps is the score of its world, the scores it takes from it for
a variable are those of the two worlds, and a check does not fail.  So a run makes all of its
moves, and what it can end with before is that there is no variable to choose. -/
theorem logScore_exact (hnet : net.WellMade) (mode : Mode) (stream : σ) :
    (∀ ms : List Move,
      let s := (start net mode stream).afterAll net mode ms
      s.logScore = net.score s.world ∧
      (∀ i, s.conditional net i =
        (net.score (s.world.assign i true), net.score (s.world.assign i false))) ∧
      s.checkDrift net mode = .ok ((s.beforeResync net mode).resync net)) ∧
    (∀ n, net.adjustable.isEmpty = false → (start net mode stream).run net mode n =
      .ok ((start net mode stream).afterAll net mode (runMoves net mode 0 n))) ∧
    ∀ n e, (start net mode stream).run net mode n = .error e → e.1 = .nothingAdjustable := by
  have hagrees : ∀ ms, Sampler.agrees ((start net mode stream).afterAll net mode ms).logScore
      (net.score ((start net mode stream).afterAll net mode ms).world) = true := fun ms =>
    (tracks_afterAll hnet mode stream ms).agrees
  have hrun : ∀ n, net.adjustable.isEmpty = false → (start net mode stream).run net mode n =
      .ok ((start net mode stream).afterAll net mode (runMoves net mode 0 n)) := by
    intro n hadj
    rw [run_eq hadj (fun _ => hagrees), start_steps]
  refine ⟨fun ms => ?_, hrun, fun n e he => ?_⟩
  · have htracks := tracks_afterAll hnet mode stream ms
    refine ⟨htracks, htracks.conditional_eq hnet, checkDrift_eq ?_⟩
    unfold beforeResync
    rw [← afterAll_append]
    exact hagrees _
  · cases hadj : net.adjustable.isEmpty with
    | false => rw [hrun n hadj] at he; cases he
    | true =>
      -- the first step finds no variable to choose
      cases n with
      | zero => cases he
      | succ n =>
        rw [run, runSteps, prepare, start_steps, if_pos rfl] at he
        simp only [hadj, if_true, Except.error.injEq] at he
        rw [← he]

/-- A network of two variables.  Its factor makes the worlds impossible in which the first variable
is true and the second is not. -/
noncomputable def followNet : BayesNet EReal where
  literals := #[⟨"leads", "A", "B", true⟩, ⟨"follows", "B", "A", true⟩]
  factors := #[.entailment ⟨"following", 0, ⊥, 1, [0]⟩]
  priorProbs := #[BayesNet.uninformedPrior, BayesNet.uninformedPrior]
  fixed := []
  adjustable := #[0, 1]
  touching := #[[0], [0]]
  hillClimb := true
  threads := 1

theorem wellMade_followNet : followNet.WellMade where
  ofParts := by
    refine ⟨[⟨"leads", "A", "B", true⟩, ⟨"follows", "B", "A", true⟩],
      [.entailment ⟨"following", 0, ⊥, 1, [0]⟩], [], [], true, 1, ?_⟩
    have hcomponents : (GroundedRule.mk "following" (0 : EReal) ⊥ 1 [0]).components = [0, 1] := by
      simp [GroundedRule.components, List.mergeSort, List.eraseDups_cons]
    simp [BayesNet.ofParts, BayesNet.unknownVariable?, Factor.components, hcomponents, followNet,
      List.range, List.range.loop, List.zipIdx]
  made f hf := by
    obtain rfl : f = .entailment ⟨"following", 0, ⊥, 1, [0]⟩ := by simpa [followNet] using hf
    exact .entailment _

/-- A run of three steps over a network with impossible worlds. -/
theorem logScore_exact_followNet : followNet.WellMade ∧ ∃ s,
    (start followNet .search (MersenneTwister.ofSeed 7)).run followNet .search 3 = .ok s ∧
      s.logScore = followNet.score s.world :=
  ⟨wellMade_followNet, _,
    (logScore_exact wellMade_followNet .search (MersenneTwister.ofSeed 7)).2.1 3 rfl,
    ((logScore_exact wellMade_followNet .search (MersenneTwister.ofSeed 7)).1 _).1⟩

end Sampler

end FactNet
