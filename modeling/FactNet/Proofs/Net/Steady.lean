import Mathlib
import FactNet.Proofs.Net.Fixed
import FactNet.Proofs.Whole

/-!
# Variables that never change

A variable that is not adjustable has one value in all worlds of a chain, so all its samples are the
same.  Its mean is only brought up to date at restarts and at the end of a run, and then it is that
value, even in doubles: of the first samples zero is replaced by their mean, and later ones change
nothing.  Restarts come so often that no number of samples is too large to be computed with.

## Main definitions

* `IsMeanOf` — a number is the mean of some samples that all have the same value.
* `Sampler.Steady` — a variable has one value, and so have its samples.

## Main results

* `IsMeanOf.add_samples` — **adding more samples of the value makes the mean that value.**
* `Sampler.Steady.restart`, `Sampler.Steady.advance` — what a restart and a step keep.
* `Sampler.Steady.stepMoves` — what the steps of a run keep.
* `Sampler.marginals_run` — **at the end of a run the marginal of the variable is its value.**
-/

namespace FactNet

open Scalar

/-! ### Means of equal samples -/

section Mean

variable {α : Type} [Scalar α] {b : Bool} {c upto bound : Nat} {mean : α}

theorem sample_eq (b : Bool) : (if b then one else zero : α) = nat b.toNat := by
  cases b <;> rfl

/-- The mean of some samples that all have the value `b`, or zero if there are none. -/
def IsMeanOf (b : Bool) (count : Nat) (mean : α) : Prop :=
  mean = nat b.toNat ∨ count = 0 ∧ mean = zero

/-- **Adding more samples of the value makes the mean that value.** -/
theorem IsMeanOf.add_samples (hexact : ExactBelow α bound) (h : IsMeanOf b c mean) (hlt : c < upto)
    (hnear : upto < c + bound) :
    mean + ((if b then one else zero) - mean) * nat (upto - c) / nat upto = nat b.toNat := by
  have hb := b.toNat_lt
  rw [sample_eq]
  rcases h with rfl | ⟨rfl, rfl⟩
  · -- the mean is the value already, and zero is added
    rw [hexact.sub (le_refl _) (by omega), Nat.sub_self, hexact.mul (by omega) (by omega) (by omega),
      Nat.zero_mul, hexact.zero_div (by omega), hexact.add (by omega), Nat.add_zero]
  · have hle : b.toNat * upto ≤ upto := by
      have := Nat.mul_le_mul_right upto (Nat.lt_succ_iff.1 hb)
      omega
    show nat 0 + (nat b.toNat - nat 0) * nat (upto - 0) / nat upto = (nat b.toNat : α)
    rw [hexact.sub (Nat.zero_le _) (by omega), Nat.sub_zero, Nat.sub_zero,
      hexact.mul (by omega) (by omega) (by omega), hexact.div hlt (by omega) (by omega),
      hexact.add (by omega), Nat.zero_add]

end Mean

/-! ### Chains -/

namespace Sampler

variable {σ α : Type} [Scalar α] {i : Nat} {b : Bool} {c bound : Nat} {s : Sampler σ α}

/-- A variable has a value, and its mean is that of the samples up to a step, all of which had it. -/
structure Steady (i : Nat) (b : Bool) (c : Nat) (s : Sampler σ α) : Prop where
  value : s.world.value i = b
  lt_size : i < s.world.size
  mean : ∃ mean, s.account i = (some c, some mean) ∧ IsMeanOf b c mean

namespace Steady

/-- Where the world and the mean are kept, the variable stays as it is. -/
theorem of_eq (h : Steady i b c s) {s' : Sampler σ α} (hvalue : s'.world.value i = s.world.value i)
    (hsize : s'.world.size = s.world.size) (haccount : s'.account i = s.account i) :
    Steady i b c s' where
  value := hvalue.trans h.value
  lt_size := hsize ▸ h.lt_size
  mean := haccount ▸ h.mean

/-- Adding the samples of the variable brings its mean up to date. -/
theorem flush_self (hexact : ExactBelow α bound) (h : Steady i b c s) {upto : Nat} (hle : c ≤ upto)
    (hnear : upto < c + bound) : Steady i b upto (s.flush i upto) := by
  obtain ⟨mean, haccount, hmean⟩ := h.mean
  rcases hle.lt_or_eq with hlt | rfl
  · refine ⟨by rw [flush_world, h.value], by rw [flush_world]; exact h.lt_size, _,
      flush_account_self haccount hlt, .inl ?_⟩
    rw [h.value]
    exact hmean.add_samples hexact hlt hnear
  · rwa [flush_account_of_le haccount (le_refl c)]

/-- So does adding the samples of all variables. -/
theorem flushAll (hexact : ExactBelow α bound) (h : Steady i b c s) {upto : Nat} (hle : c ≤ upto)
    (hnear : upto < c + bound) : Steady i b upto (s.flushAll upto) := by
  -- either the variable is still to come, or its mean is up to date and adding again changes nothing
  have hfold : ∀ (js : List Nat) (s : Sampler σ α), Steady i b c s ∧ i ∈ js ∨ Steady i b upto s →
      Steady i b upto (js.foldl (fun s j => s.flush j upto) s) := by
    intro js
    induction js with
    | nil => exact fun s hs => hs.resolve_left fun h => nomatch h.2
    | cons j js ih =>
      refine fun s hs => ih _ ?_
      by_cases hj : j = i
      · subst hj
        refine .inr ?_
        rcases hs with ⟨hs, -⟩ | hs
        · exact hs.flush_self hexact hle hnear
        · exact hs.flush_self hexact (le_refl _) (by omega)
      · have hkept : ∀ c, Steady i b c s → Steady i b c (s.flush j upto) := fun c hs =>
          hs.of_eq (by rw [flush_world]) (by rw [flush_world])
            (s.flush_account_of_ne upto (Ne.symm hj))
        rcases hs with ⟨hs, hmem⟩ | hs
        · exact .inl ⟨hkept c hs, (List.mem_cons.1 hmem).resolve_left (Ne.symm hj)⟩
        · exact .inr (hkept upto hs)
  exact hfold _ s (.inl ⟨h, List.mem_range.2 h.lt_size⟩)

/-- Once all samples are in, the variable has its value as its marginal. -/
theorem marginals_tally (hexact : ExactBelow α bound) (h : Steady i b c s) (hle : c ≤ s.steps)
    (hnear : s.steps < c + bound) : (s.tally .estimate).marginals[i]? = some (nat b.toNat) := by
  have htally : s.tally .estimate = s.flushAll s.steps := rfl
  have hflushed := h.flushAll hexact hle hnear
  rw [htally, marginals, flushAll_steps]
  -- without a step there are no samples, and the marginal is read off the world
  split
  · have hget : s.world[i]? = some b := by
      have hvalue := h.value
      rw [World.value, Array.getD_eq_getD_getElem?, Array.getElem?_eq_getElem h.lt_size] at hvalue
      rw [Array.getElem?_eq_getElem h.lt_size]
      exact congrArg some hvalue
    rw [flushAll_world, List.getElem?_map, Array.getElem?_toList, hget, Option.map_some, sample_eq]
  · next hsteps =>
    obtain ⟨mean, haccount, hmean⟩ := hflushed.mean
    rw [Array.getElem?_toList, (Prod.mk.inj haccount).2, hmean.resolve_right fun h => hsteps h.1]

variable [RandomStream σ α] {net : BayesNet α} (hi : i ∉ net.adjustable)
include hi

/-- A restart brings the mean up to date and leaves the value. -/
theorem restart (hexact : ExactBelow α bound) (h : Steady i b c s) (hle : c ≤ s.steps)
    (hnear : s.steps < c + bound) : Steady i b s.steps (s.restart net .estimate) := by
  refine (h.flushAll hexact hle hnear).of_eq ?_ ?_ (s.restart_account net i)
  · rw [flushAll_world]
    exact value_restart hi s .estimate
  · rw [flushAll_world]
    exact s.size_restart net .estimate

/-- A step leaves the value and the mean. -/
theorem advance [LawfulChoice σ] (hadj : net.adjustable.isEmpty = false) (h : Steady i b c s) :
    Steady i b c (s.advance net .estimate) := by
  refine h.of_eq ?_ ?_ ?_
  · exact value_after (m := .step) hi s hadj
  · exact s.size_after (m := .step)
  · obtain ⟨stream, j, hj, v, hv⟩ := s.exists_advance_eq .estimate hadj
    rw [hv]
    refine setVariable_account _ _ _ _ _ ?_
    rintro rfl
    exact hi hj

omit hi in
/-- At its start a chain has counted nothing. -/
theorem start (net : BayesNet α) (stream : σ) (hi : i ∉ net.adjustable) (hlt : i < net.literals.size)
    (hexact : ExactBelow α bound) (hbound : 0 < bound) :
    Steady i (net.fixedWorld.value i) 0 (start net .estimate stream) := by
  have hfirst : ∀ s : Sampler σ α, s.world = net.fixedWorld → s.steps = 0 →
      s.account i = (some 0, some zero) →
        Steady i (net.fixedWorld.value i) 0 (s.restart net .estimate) := by
    intro s hworld hsteps haccount
    have hsize : i < s.world.size := by
      rw [hworld, BayesNet.fixedWorld, World.size_assignAll, World.size_allFalse]
      exact hlt
    have hsteady : Steady i (net.fixedWorld.value i) 0 s :=
      ⟨by rw [hworld], hsize, zero, haccount, .inr ⟨rfl, rfl⟩⟩
    exact hsteps ▸ hsteady.restart hi hexact (Nat.zero_le _) (by omega)
  unfold Sampler.start
  exact hfirst _ rfl rfl (by simp [account, hlt])

/-- What comes before a step keeps the mean recent. -/
theorem movesBefore (hexact : ExactBelow α bound) (hbound : restartSteps < bound)
    (h : Steady i b c s) (hround : restartSteps ∣ c) (hle : c ≤ s.steps)
    (hrecent : s.steps ≤ c + restartSteps) :
    ∃ c', Steady i b c' (s.afterAll net .estimate (movesBefore net .estimate s.steps)) ∧
      restartSteps ∣ c' ∧ c' ≤ s.steps ∧ s.steps < c' + restartSteps := by
  rw [movesBefore_estimate]
  split
  · next hround' =>
    exact ⟨s.steps, h.restart hi hexact hle (by omega), Nat.dvd_of_mod_eq_zero hround'.2, le_refl _,
      by simp only [restartSteps]; omega⟩
  · next hno =>
    refine ⟨c, h, hround, hle, hrecent.lt_of_ne fun heq => hno ⟨?_, ?_⟩⟩
    · simp only [restartSteps] at heq
      omega
    · rw [heq]
      exact Nat.mod_eq_zero_of_dvd ((Nat.dvd_add_right hround).2 (Nat.dvd_refl _))

/-- **The steps of a run keep the mean recent.** -/
theorem stepMoves [LawfulChoice σ] (hadj : net.adjustable.isEmpty = false)
    (hexact : ExactBelow α bound) (hbound : restartSteps < bound) (n : Nat) (h : Steady i b c s)
    (hround : restartSteps ∣ c) (hle : c ≤ s.steps) (hrecent : s.steps ≤ c + restartSteps) :
    ∃ c', Steady i b c' (s.afterAll net .estimate (stepMoves net .estimate s.steps n)) ∧
      c' ≤ (s.afterAll net .estimate (stepMoves net .estimate s.steps n)).steps ∧
      (s.afterAll net .estimate (stepMoves net .estimate s.steps n)).steps ≤ c' + restartSteps := by
  -- samples are missing since the last restart at most, so their number can be computed with
  induction n generalizing s c with
  | zero => exact ⟨c, h, hle, hrecent⟩
  | succ n ih =>
    obtain ⟨c', h', hround', hle', hrecent'⟩ := h.movesBefore hi hexact hbound hround hle hrecent
    set t := s.afterAll net .estimate (FactNet.movesBefore net .estimate s.steps) with ht
    have hsteps : t.steps = s.steps := by
      rw [ht, afterAll_steps, List.count_eq_zero.mpr (step_notMem_movesBefore net .estimate s.steps),
        Nat.add_zero]
    have hnext := ih (h'.advance hi hadj) hround' (by rw [advance_steps]; omega)
      (by rw [advance_steps]; omega)
    rw [advance_steps, hsteps] at hnext
    rw [FactNet.stepMoves, afterAll_append, afterAll_cons]
    exact hnext

end Steady

/-- **At the end of a run the marginal of a variable that is not adjustable is its value**, however
many steps the run has. -/
theorem marginals_run [RandomStream σ α] [LawfulChoice σ] {net : BayesNet α}
    (hi : i ∉ net.adjustable) (hlt : i < net.literals.size) (hadj : net.adjustable.isEmpty = false)
    (hexact : ExactBelow α bound) (hbound : restartSteps < bound) (stream : σ) (n : Nat) :
    ((start net .estimate stream).afterAll net .estimate
      (runMoves net .estimate 0 n)).marginals[i]? = some (nat (net.fixedWorld.value i).toNat) := by
  have hstart := Steady.start net stream hi hlt hexact (by omega)
  obtain ⟨c, hsteady, hle, hnear⟩ := hstart.stepMoves hi hadj hexact hbound n (Nat.dvd_zero _)
    (Nat.zero_le _) (by rw [start_steps]; omega)
  rw [start_steps] at hsteady hle hnear
  rw [runMoves, afterAll_append]
  exact hsteady.marginals_tally hexact hle (by omega)

end Sampler

end FactNet
