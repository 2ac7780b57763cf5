import Mathlib
import FactNet.Proofs.Net.Possible

/-!
# Steps are in balance with the weights

A step draws a number from zero to below one, and which of two worlds it leads to depends on that
number alone.  If the number is drawn uniformly, a world is reached with the share that it has of
the weights of both, from either of them.  So what flows from one world to the other by steps in a
variable is as much as flows back, and the distribution of worlds by their weights is one that
steps keep.

## Main definitions

* `Sampler.drawing` — the chain with the number that it draws next.
* `Sampler.stepProb` — the probability that a step leads to a world.

## Main results

* `Sampler.volume_drawn` — a variable is drawn true with the probability that the step takes.
* `Sampler.Tracks.stepProb_eq`, `Sampler.Tracks.stepProb_flip` — **a step leads to a world with its
  share of the weights.**
* `Sampler.Reachable.in_balance` — **as much flows from one world to the other as flows back.**
-/

namespace FactNet

open MeasureTheory Scalar

/-! ### Worlds of a variable -/

namespace World

/-- What a variable was before does not count once it has a value. -/
theorem assign_assign (w : World) (i : Nat) (b c : Bool) :
    (w.assign i b).assign i c = w.assign i c := by
  simp [assign]

/-- The two worlds of a variable are different. -/
theorem assign_inj {w : World} {i : Nat} (hi : i < w.size) {b c : Bool} :
    w.assign i b = w.assign i c ↔ b = c := by
  refine ⟨fun h => ?_, fun h => h ▸ rfl⟩
  have hvalue := congrArg (fun w' => value w' i) h
  rwa [value_assign_self hi, value_assign_self hi] at hvalue

/-- Changing a variable twice changes nothing. -/
theorem eq_flip_of_eq_flip {w w' : World} {i : Nat} (hi : i < w.size)
    (h : w' = w.assign i (!w.value i)) : w = w'.assign i (!w'.value i) := by
  rw [h, value_assign_self hi, assign_assign, Bool.not_not, assign_value]

end World

/-- An adjustable variable is one of the network. -/
theorem BayesNet.WellMade.lt_of_mem_adjustable {α : Type} [Scalar α] {net : BayesNet α}
    (h : net.WellMade) {i : Nat} (hi : i ∈ net.adjustable) : i < net.literals.size := by
  obtain ⟨literals, factors, priors, fixed, hillClimb, threads, hparts⟩ := h.ofParts
  unfold BayesNet.ofParts at hparts
  dsimp only at hparts
  split at hparts
  · cases hparts
  · split at hparts
    · cases hparts
    · split at hparts
      · cases hparts
      · cases hparts
        rw [List.mem_toArray, List.mem_filter, List.mem_range] at hi
        simpa using hi.1

namespace Sampler

section Steps

variable {σ α : Type} [Scalar α] [RandomStream σ α] {net : BayesNet α} {mode : Mode}
  {s : Sampler σ α}

/-- **Whatever a chain gets to, its world gives every variable a value.** -/
theorem Reachable.size_world (h : s.Reachable net mode) : s.world.size = net.literals.size := by
  induction h with
  | start stream => exact size_afterAll net mode stream []
  | after _ _ ih => exact (size_after _ _).trans ih
  | step _ _ ih => rw [step_world, World.size_assign, ih]

end Steps

/-! ### The probability of a step -/

variable {σ : Type} {net : BayesNet EReal} {mode : Mode} {s : Sampler σ EReal} {i : Nat}

/-- The chain with the number that it draws next. -/
def drawing (s : Sampler σ EReal) (u : Set.Ico (0 : ℝ) 1) : Sampler Draws EReal :=
  { s with stream := ⟨[u]⟩ }

/-- The probability that a step in a variable leads to a world, if its number is drawn uniformly:
the length of the numbers for which it does. -/
noncomputable def stepProb (net : BayesNet EReal) (mode : Mode) (s : Sampler σ EReal) (i : Nat)
    (w : World) : ENNReal :=
  volume (Subtype.val '' {u : Set.Ico (0 : ℝ) 1 | ((s.drawing u).step net mode i).world = w})

theorem step_drawing_world (u : Set.Ico (0 : ℝ) 1) :
    ((s.drawing u).step net mode i).world =
      s.world.assign i (((u : ℝ) : EReal) < s.chance net i) :=
  step_world net mode (s.drawing u) i

/-- A uniform number is below a probability with that probability, and else with the opposite
one. -/
theorem volume_drawn {p : ENNReal} (hp : p ≤ 1) (b : Bool) :
    volume (Subtype.val '' {u : Set.Ico (0 : ℝ) 1 |
      decide (((u : ℝ) : EReal) < (p : EReal)) = b}) = if b then p else 1 - p := by
  obtain ⟨q, hq0, rfl⟩ : ∃ q : ℝ, 0 ≤ q ∧ ENNReal.ofReal q = p :=
    ⟨p.toReal, ENNReal.toReal_nonneg, ENNReal.ofReal_toReal (hp.trans_lt ENNReal.one_lt_top).ne⟩
  have hq1 : q ≤ 1 := ENNReal.ofReal_le_one.1 hp
  have hbelow : ∀ u : ℝ, (u : EReal) < (ENNReal.ofReal q : ENNReal) ↔ u < q := by
    intro u
    rw [EReal.coe_ennreal_ofReal, max_eq_left hq0, EReal.coe_lt_coe_iff]
  -- what is below is an interval from zero, and what is not is one up to one
  cases b with
  | true =>
    have hset : Subtype.val '' {u : Set.Ico (0 : ℝ) 1 |
        decide (((u : ℝ) : EReal) < (ENNReal.ofReal q : ENNReal)) = true} = Set.Ico 0 q := by
      ext u
      simp only [hbelow, decide_eq_true_eq, Set.mem_image, Set.mem_ofPred_eq, Subtype.exists,
        exists_and_right, exists_eq_right, Set.mem_Ico]
      constructor
      · rintro ⟨⟨h0, -⟩, hlt⟩
        exact ⟨h0, hlt⟩
      · rintro ⟨h0, hlt⟩
        exact ⟨⟨h0, hlt.trans_le hq1⟩, hlt⟩
    rw [hset, Real.volume_Ico, sub_zero, if_pos rfl]
  | false =>
    have hset : Subtype.val '' {u : Set.Ico (0 : ℝ) 1 |
        decide (((u : ℝ) : EReal) < (ENNReal.ofReal q : ENNReal)) = false} = Set.Ico q 1 := by
      ext u
      simp only [hbelow, decide_eq_false_iff_not, not_lt, Set.mem_image, Set.mem_ofPred_eq,
        Subtype.exists, exists_and_right, exists_eq_right, Set.mem_Ico]
      constructor
      · rintro ⟨⟨-, h1⟩, hle⟩
        exact ⟨hle, h1⟩
      · rintro ⟨hle, h1⟩
        exact ⟨⟨hq0.trans hle, h1⟩, hle⟩
    rw [hset, Real.volume_Ico, if_neg (by simp), ENNReal.ofReal_sub _ hq0, ENNReal.ofReal_one]

/-- The shares of two weights that are numbers and not both zero add up to one. -/
theorem one_sub_share {x y : ENNReal} (h : 0 < x + y) (hx : x ≠ ⊤) (hy : y ≠ ⊤) :
    1 - x / (x + y) = y / (x + y) := by
  have hsum : y / (x + y) + x / (x + y) = 1 := by
    rw [add_comm, ENNReal.div_add_div_same,
      ENNReal.div_self h.ne' (ENNReal.add_ne_top.2 ⟨hx, hy⟩)]
  exact ENNReal.sub_eq_of_eq_add (ENNReal.div_ne_top hx h.ne') hsum.symm

/-- **A step leads to a world with its share of the weights.** -/
theorem Tracks.stepProb_eq (mode : Mode) (hnet : net.WellMade) (hweights : net.HasWeights)
    (hs : s.Tracks net) (hi : i < s.world.size)
    (h : 0 < net.weight (s.world.assign i true) + net.weight (s.world.assign i false)) (b : Bool) :
    s.stepProb net mode i (s.world.assign i b) = net.weight (s.world.assign i b) /
      (net.weight (s.world.assign i true) + net.weight (s.world.assign i false)) := by
  have hshare : net.weight (s.world.assign i true) /
      (net.weight (s.world.assign i true) + net.weight (s.world.assign i false)) ≤ 1 :=
    ENNReal.div_le_of_le_mul (by rw [one_mul]; exact le_self_add)
  unfold stepProb
  simp only [step_drawing_world, World.assign_inj hi, hs.chance_eq_share hnet h]
  rw [volume_drawn hshare]
  cases b with
  | true => rw [if_pos rfl]
  | false =>
    rw [if_neg (by simp), one_sub_share h (hweights.weight_ne_top _) (hweights.weight_ne_top _)]

/-- A step stays in a world or changes the variable with the shares of the two worlds. -/
theorem Tracks.stepProb_flip (mode : Mode) (hnet : net.WellMade) (hweights : net.HasWeights)
    (hs : s.Tracks net) (hi : i < s.world.size) {w : World}
    (hflip : w = s.world.assign i (!s.world.value i))
    (h : 0 < net.weight s.world + net.weight w) :
    s.stepProb net mode i s.world =
        net.weight s.world / (net.weight s.world + net.weight w) ∧
      s.stepProb net mode i w = net.weight w / (net.weight s.world + net.weight w) := by
  rw [hflip, BayesNet.weight_add_weight_flip] at h ⊢
  have hstay := hs.stepProb_eq mode hnet hweights hi h (s.world.value i)
  rw [World.assign_value] at hstay
  exact ⟨hstay, hs.stepProb_eq mode hnet hweights hi h _⟩

/-! ### Balance -/

/-- **As much flows from one world to the other as flows back.**

Of a chain in whatever it gets to and a chain in the world where one variable changes, both draw the
variable true with the share that the world where it is true has of both weights, if one of them is
possible.  A step makes the variable true exactly if the number it draws is below that.  The weight
of one world times the probability of a step to the other is then the same both ways, and the
weights of both worlds are what they were after a step in the variable. -/
theorem Reachable.in_balance [RandomStream σ EReal] (hnet : net.WellMade)
    (hweights : net.HasWeights) (hs : s.Reachable net mode) (hi : i ∈ net.adjustable)
    {σ' : Type} {s' : Sampler σ' EReal} (hs' : s'.Tracks net)
    (hflip : s'.world = s.world.assign i (!s.world.value i)) (mode' : Mode) :
    (0 < net.weight s.world + net.weight s'.world →
      s.chance net i = ((net.weight (s.world.assign i true) /
        (net.weight (s.world.assign i true) + net.weight (s.world.assign i false)) : ENNReal) :
          EReal) ∧
      s'.chance net i = s.chance net i) ∧
    (∀ b, (s.step net mode i).world = s.world.assign i b ↔
      (b = true ↔ (RandomStream.unit s.stream).1 < s.chance net i)) ∧
    net.weight s.world * s.stepProb net mode i s'.world =
      net.weight s'.world * s'.stepProb net mode' i s.world ∧
    net.weight s.world * s.stepProb net mode i s.world +
      net.weight s'.world * s'.stepProb net mode' i s.world = net.weight s.world := by
  have htracks : s.Tracks net := hs.tracks hnet
  have hsize : i < s.world.size := hs.size_world ▸ hnet.lt_of_mem_adjustable hi
  have hworlds : ∀ b, s'.world.assign i b = s.world.assign i b := by
    intro b
    rw [hflip, World.assign_assign]
  have hsum : net.weight s.world + net.weight s'.world =
      net.weight (s.world.assign i true) + net.weight (s.world.assign i false) := by
    rw [hflip, BayesNet.weight_add_weight_flip]
  refine ⟨fun hpos => ?_, fun b => ?_, ?_⟩
  · rw [hsum] at hpos
    have hshare := htracks.chance_eq_share hnet hpos
    refine ⟨hshare, ?_⟩
    rw [hshare, hs'.chance_eq_share hnet (by rwa [hworlds, hworlds]), hworlds, hworlds]
  · rw [step_world, World.assign_inj hsize, eq_comm, Bool.eq_iff_iff, decide_eq_true_iff]
  rcases eq_zero_or_pos (net.weight s.world + net.weight s'.world) with hzero | hpos
  · obtain ⟨hfrom, hto⟩ := add_eq_zero.1 hzero
    simp [hfrom, hto]
  -- each of the two worlds is the other one with the variable changed
  have hsize' : i < s'.world.size := by rwa [hflip, World.size_assign]
  obtain ⟨hstay, hgo⟩ := htracks.stepProb_flip mode hnet hweights hsize hflip hpos
  obtain ⟨-, hreturn⟩ := hs'.stepProb_flip mode' hnet hweights hsize'
    (World.eq_flip_of_eq_flip hsize hflip) (by rwa [add_comm])
  rw [hstay, hgo, hreturn, add_comm (net.weight s'.world)]
  refine ⟨?_, ?_⟩
  · rw [← mul_div_assoc, ← mul_div_assoc, mul_comm]
  · rw [← add_mul, ENNReal.mul_div_cancel hpos.ne'
      (ENNReal.add_ne_top.2 ⟨hweights.weight_ne_top _, hweights.weight_ne_top _⟩)]

/-- A chain that starts with both variables true draws the first one true with two thirds, and so
does a chain where the first one is false. -/
theorem in_balance_followNet : ∃ s s' : Sampler Draws EReal, s.Reachable followNet .search ∧
    s.world = #[true, true] ∧ s'.world = #[false, true] ∧
    s.chance followNet 0 = ((2 / 3 : ENNReal) : EReal) ∧
    s'.chance followNet 0 = s.chance followNet 0 ∧
    followNet.weight s.world * s.stepProb followNet .search 0 s'.world =
      followNet.weight s'.world * s'.stepProb followNet .search 0 s.world := by
  let u : Set.Ico (0 : ℝ) 1 := ⟨1 / 10, by norm_num, by norm_num⟩
  have hworld : (start followNet .search (Draws.mk [u, u])).world = #[true, true] := by
    rw [world_start_followNet]
    norm_num [u]
  have hreach : (start followNet .search (Draws.mk [u, u])).Reachable followNet .search := .start _
  generalize start followNet .search (Draws.mk [u, u]) = s at hworld hreach
  have hworlds : s.world.assign 0 true = #[true, true] ∧
      s.world.assign 0 false = #[false, true] := by
    rw [hworld]
    exact ⟨rfl, rfl⟩
  -- the chain in the world where the first variable is the other way round
  let s' : Sampler Draws EReal :=
    { s with world := #[false, true], logScore := followNet.score #[false, true] }
  have htracks : s'.Tracks followNet := rfl
  have hflip : s'.world = s.world.assign 0 (!s.world.value 0) := by
    rw [hworld]
    rfl
  obtain ⟨hchance, -, hflow, -⟩ := Reachable.in_balance wellMade_followNet hasWeights_followNet
    hreach (by simp [followNet]) htracks hflip .search
  have htrue : followNet.weight #[true, true] = 1 := weight_followNet _
  have hfalse : followNet.weight #[false, true] = 1 / 2 := weight_followNet _
  obtain ⟨hshare, hsame⟩ := hchance (by simp [hworld, htrue])
  rw [hworlds.1, hworlds.2, htrue, hfalse] at hshare
  have hthirds : (1 / (1 + 1 / 2) : ENNReal) = 2 / 3 := by
    rw [← ENNReal.toReal_eq_toReal_iff' (by finiteness) (by finiteness)]
    simp [ENNReal.toReal_add]
    norm_num
  exact ⟨s, s', hreach, hworld, rfl, hshare.trans (by rw [hthirds]), hsame, hflow⟩

end Sampler

end FactNet
