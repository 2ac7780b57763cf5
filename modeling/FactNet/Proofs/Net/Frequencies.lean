import Mathlib
import FactNet.Proofs.Net.RunningScore

/-!
# The means a chain keeps

A chain that estimates adds the samples of a variable to its mean only when the value of the
variable changes, when all variables are drawn anew, and at the end.  In between the mean is
behind, but the samples it lacks are all the same: they have the current value.

So, once everything is added, the mean of a variable is the share of the worlds right after a
step in which it is true, over exact numbers, whatever the steps chose and wherever the
restarts fell.

## Main definitions

* `frequency` — the share of some worlds in which a variable is true.
* `Accounts` — a mean that is behind accounts for some worlds.
* `Sampler.broughtUp` — a chain right before a step sets its variable.
* `Sampler.Records` — the means of a chain account for its worlds so far.
* `Sampler.AreFrequencies` — marginals are frequencies.

## Main results

* `frequency_eq` — adding samples of one value to a frequency.
* `Sampler.Records.advance`, `Sampler.Records.restart` — what a step and a restart keep.
* `Sampler.marginals_eq_frequency` — **the marginals of a run are the frequencies.**
-/

namespace FactNet

open Scalar

/-! ### Frequencies -/

/-- The share of some worlds in which a variable is true. -/
def frequency (worlds : List World) (i : Nat) : ℚ :=
  worlds.countP (·.value i) / worlds.length

theorem frequency_nonneg (worlds : List World) (i : Nat) : 0 ≤ frequency worlds i :=
  div_nonneg (Nat.cast_nonneg _) (Nat.cast_nonneg _)

theorem frequency_le_one (worlds : List World) (i : Nat) : frequency worlds i ≤ 1 :=
  div_le_one_of_le₀ (Nat.cast_le.mpr List.countP_le_length) (Nat.cast_nonneg _)

/-- Samples that all have one value are counted at once. -/
theorem countP_eq_of_drop {worlds : List World} {i c : Nat} {b : Bool}
    (hrest : ∀ w ∈ worlds.drop c, w.value i = b) :
    worlds.countP (·.value i) =
      (worlds.take c).countP (·.value i) + if b then worlds.length - c else 0 := by
  have hdrop : (worlds.drop c).countP (·.value i) = if b then worlds.length - c else 0 := by
    cases b with
    | true =>
      rw [if_pos rfl, ← List.length_drop, List.countP_eq_length]
      exact hrest
    | false =>
      rw [if_neg Bool.false_ne_true, List.countP_eq_zero]
      intro w hw
      rw [hrest w hw]
      exact Bool.false_ne_true
  rw [← hdrop, ← List.countP_append, List.take_append_drop]

/-- **Adding samples of one value to a frequency.** -/
theorem frequency_eq {worlds : List World} {i c : Nat} {b : Bool} (hc : c < worlds.length)
    (hrest : ∀ w ∈ worlds.drop c, w.value i = b) :
    frequency worlds i = frequency (worlds.take c) i +
      ((if b then 1 else 0) - frequency (worlds.take c) i) * (worlds.length - c : ℕ) /
        worlds.length := by
  have hlen : (worlds.take c).length = c := List.length_take_of_le hc.le
  have hpos : (worlds.length : ℚ) ≠ 0 := Nat.cast_ne_zero.mpr (by omega)
  rw [frequency, frequency, hlen, countP_eq_of_drop hrest]
  set k := (worlds.take c).countP (·.value i) with hk
  set n := worlds.length
  have hsub : ((n - c : ℕ) : ℚ) = n - c := Nat.cast_sub hc.le
  -- before the first sample nothing is counted
  have hzero : (k : ℚ) / c * c = k := by
    rcases Nat.eq_zero_or_pos c with rfl | hcpos
    · simp [hk]
    · exact div_mul_cancel₀ _ (Nat.cast_ne_zero.mpr (by omega))
  have hcast : ((k + if b then n - c else 0 : ℕ) : ℚ) = k + (if b then 1 else 0) * (n - c) := by
    cases b <;> simp [hsub]
  rw [hcast, hsub, ← hzero]
  field_simp
  ring

/-! ### Means that are behind -/

/-- A mean that counts the samples of a variable up to some step accounts for the worlds after each
step: it is the frequency up to that step, and all later samples have the current value. -/
structure Accounts (worlds : List World) (i : Nat) (mean : EReal) (counted : Nat) (b : Bool) :
    Prop where
  counted_le : counted ≤ worlds.length
  mean_eq : mean = ((frequency (worlds.take counted) i : ℝ) : EReal)
  rest : ∀ w ∈ worlds.drop counted, w.value i = b

namespace Accounts

variable {worlds : List World} {i counted : Nat} {mean : EReal} {b : Bool}

/-- A mean that counts every sample accounts for them, whatever the current value. -/
theorem of_counted (h : counted = worlds.length)
    (hmean : mean = ((frequency worlds i : ℝ) : EReal)) : Accounts worlds i mean counted b where
  counted_le := h.le
  mean_eq := by rw [h, List.take_length, hmean]
  rest w hw := by
    rw [h, List.drop_length] at hw
    cases hw

/-- One more sample of the current value is accounted for. -/
theorem snoc (h : Accounts worlds i mean counted b) {w : World} (hw : w.value i = b) :
    Accounts (worlds ++ [w]) i mean counted b where
  counted_le := by
    have := h.counted_le
    rw [List.length_append]
    omega
  mean_eq := by rw [List.take_append_of_le_length h.counted_le, h.mean_eq]
  rest w' hw' := by
    rw [List.drop_append_of_le_length h.counted_le, List.mem_append, List.mem_singleton] at hw'
    rcases hw' with hw' | rfl
    · exact h.rest w' hw'
    · exact hw

/-- A mean that counts every sample accounts for one more sample of any value. -/
theorem snoc_of_counted (h : Accounts worlds i mean counted b) (hc : counted = worlds.length)
    (w : World) : Accounts (worlds ++ [w]) i mean counted (w.value i) := by
  refine snoc (of_counted hc ?_) rfl
  rw [h.mean_eq, hc, List.take_length]

/-- The mean after the samples that it lacks are added. -/
theorem mean_flush (h : Accounts worlds i mean counted b) (hlt : counted < worlds.length) :
    mean + ((if b then one else zero) - mean) * nat (worlds.length - counted) /
      nat worlds.length = ((frequency worlds i : ℝ) : EReal) := by
  have hvalue : (if b then one else zero : EReal) = (((if b then 1 else 0 : ℚ) : ℝ) : EReal) := by
    cases b <;> simp
  rw [hvalue, h.mean_eq, nat_ereal, nat_ereal, ← EReal.coe_sub, ← EReal.coe_mul, ← EReal.coe_div,
    ← EReal.coe_add, frequency_eq hlt h.rest]
  push_cast
  rfl

end Accounts

namespace Sampler

variable {σ : Type}

/-! ### Adding the samples of a variable -/

section Flush

variable (s : Sampler σ EReal) {i j : Nat} (upto : Nat)

@[simp] theorem flush_counted_size : (s.flush i upto).counted.size = s.counted.size := by
  unfold flush
  dsimp only
  split <;> simp

@[simp] theorem flush_means_size : (s.flush i upto).means.size = s.means.size := by
  unfold flush
  dsimp only
  split <;> simp

theorem flush_counted_self (h : i < s.counted.size) :
    (s.flush i upto).counted.getD i 0 = max (s.counted.getD i 0) upto := by
  rcases Nat.lt_or_ge (s.counted.getD i 0) upto with hlt | hge
  · rw [flush_of_lt s upto hlt, Nat.max_eq_right hlt.le]
    simp [Array.getD_eq_getD_getElem?, h]
  · rw [flush_of_le s upto hge, Nat.max_eq_left hge]

theorem flush_means_self (h : i < s.means.size) (hlt : s.counted.getD i 0 < upto) :
    (s.flush i upto).means.getD i 0 = s.means.getD i 0 +
      ((if s.world.value i then one else zero) - s.means.getD i 0) *
        nat (upto - s.counted.getD i 0) / nat upto := by
  rw [flush_of_lt s upto hlt]
  simp [Array.getD_eq_getD_getElem?, h]

theorem flush_counted_of_ne (h : j ≠ i) :
    (s.flush i upto).counted.getD j 0 = s.counted.getD j 0 := by
  rcases Nat.lt_or_ge (s.counted.getD i 0) upto with hlt | hge
  · rw [flush_of_lt s upto hlt]
    simp [Array.getD_eq_getD_getElem?, Array.getElem?_setIfInBounds_ne h.symm]
  · rw [flush_of_le s upto hge]

theorem flush_means_of_ne (h : j ≠ i) :
    (s.flush i upto).means.getD j 0 = s.means.getD j 0 := by
  rcases Nat.lt_or_ge (s.counted.getD i 0) upto with hlt | hge
  · rw [flush_of_lt s upto hlt]
    simp [Array.getD_eq_getD_getElem?, Array.getElem?_setIfInBounds_ne h.symm]
  · rw [flush_of_le s upto hge]

theorem flush_with_steps (steps : Nat) (stream : σ) :
    ({ s with steps := steps, stream := stream } : Sampler σ EReal).flush i upto =
      { s.flush i upto with steps := steps, stream := stream } := by
  rcases Nat.lt_or_ge (s.counted.getD i 0) upto with hlt | hge
  · rw [flush_of_lt s upto hlt, flush_of_lt _ upto (by exact hlt)]
  · rw [flush_of_le s upto hge, flush_of_le _ upto (by exact hge)]

end Flush

/-- The chain before a step that sets a variable: where the variable changes, the samples that its
mean lacks are added. -/
def broughtUp {α : Type} [Scalar α] (s : Sampler σ α) (i : Nat) (b : Bool) : Sampler σ α :=
  if b = s.world.value i then s else s.flush i s.steps

@[simp] theorem broughtUp_world (s : Sampler σ EReal) (i : Nat) (b : Bool) :
    (s.broughtUp i b).world = s.world := by
  unfold broughtUp
  split
  · rfl
  · exact flush_world ..

/-- A step brings the mean of its variable up to date and then sets the variable. -/
theorem setVariable_estimate (s : Sampler σ EReal) (stream : σ) (i : Nat) (b : Bool)
    (scores : EReal × EReal) :
    setVariable .estimate { s with steps := s.steps + 1, stream := stream } i b scores =
      { s.broughtUp i b with
        steps := s.steps + 1
        stream := stream
        world := s.world.assign i b
        logScore := if b then scores.1 else scores.2 } := by
  unfold setVariable broughtUp
  dsimp only
  rw [trackBest_estimate, Nat.add_sub_cancel, flush_with_steps]
  by_cases hb : b = s.world.value i <;> simp [hb]

/-! ### Chains whose means account for their worlds -/

/-- The mean of a variable in a chain accounts for the worlds after each step. -/
def AccountsFor (s : Sampler σ EReal) (worlds : List World) (i : Nat) : Prop :=
  Accounts worlds i (s.means.getD i 0) (s.counted.getD i 0) (s.world.value i)

/-- **The means of a chain account for its worlds so far**, those right after its steps. -/
structure Records (n : Nat) (s : Sampler σ EReal) (worlds : List World) : Prop where
  steps_eq : s.steps = worlds.length
  world_size : s.world.size = n
  means_size : s.means.size = n
  counted_size : s.counted.size = n
  accounts : ∀ i < n, s.AccountsFor worlds i

namespace Records

variable {n : Nat} {s : Sampler σ EReal} {worlds : List World}

/-- Adding the samples of a variable keeps the accounts, and then every sample of it is counted. -/
theorem flush (h : Records n s worlds) (i : Nat) :
    Records n (s.flush i worlds.length) worlds ∧
      ∀ j < n, j = i ∨ s.counted.getD j 0 = worlds.length →
        (s.flush i worlds.length).counted.getD j 0 = worlds.length := by
  have hself : i < n → (s.flush i worlds.length).counted.getD i 0 = worlds.length := by
    intro hi
    rw [flush_counted_self _ _ (h.counted_size ▸ hi)]
    exact Nat.max_eq_right (h.accounts i hi).counted_le
  refine ⟨⟨by simpa using h.steps_eq, by simpa using h.world_size, by simpa using h.means_size,
    by simpa using h.counted_size, fun j hj => ?_⟩, fun j hj hor => ?_⟩
  · have hacc := h.accounts j hj
    unfold AccountsFor at hacc ⊢
    rw [flush_world]
    by_cases hji : j = i
    · subst hji
      rcases hacc.counted_le.lt_or_eq with hlt | heq
      · refine Accounts.of_counted (hself hj) ?_
        rw [flush_means_self _ _ (h.means_size ▸ hj) hlt]
        exact hacc.mean_flush hlt
      · -- nothing is added
        rw [flush_of_le _ _ heq.ge]
        exact hacc
    · rw [flush_counted_of_ne _ _ hji, flush_means_of_ne _ _ hji]
      exact hacc
  · by_cases hji : j = i
    · subst hji
      exact hself hj
    · rw [flush_counted_of_ne _ _ hji]
      exact hor.resolve_left hji

/-- Adding the samples of some variables keeps the accounts, and then every sample of them is
counted. -/
theorem foldl_flush (h : Records n s worlds) (is : List Nat) :
    Records n (is.foldl (fun s i => s.flush i worlds.length) s) worlds ∧
      ∀ i < n, i ∈ is ∨ s.counted.getD i 0 = worlds.length →
        (is.foldl (fun s i => s.flush i worlds.length) s).counted.getD i 0 = worlds.length := by
  induction is generalizing s with
  | nil => exact ⟨h, fun i _ hi => by simpa using hi⟩
  | cons k is ih =>
    obtain ⟨hrec, hcounted⟩ := h.flush k
    obtain ⟨hrec', hall⟩ := ih hrec
    refine ⟨hrec', fun i hi hmem => hall i hi ?_⟩
    rcases hmem with hmem | hmem
    · rcases List.mem_cons.mp hmem with hik | hmem
      · exact .inr (hcounted i hi (.inl hik))
      · exact .inl hmem
    · exact .inr (hcounted i hi (.inr hmem))

/-- Adding the samples of all variables keeps the accounts, and then every sample is counted. -/
theorem flushAll (h : Records n s worlds) :
    Records n (s.flushAll worlds.length) worlds ∧
      ∀ i < n, (s.flushAll worlds.length).counted.getD i 0 = worlds.length := by
  obtain ⟨hrec, hall⟩ := h.foldl_flush (List.range s.world.size)
  exact ⟨hrec, fun i hi => hall i hi (.inl (List.mem_range.mpr (h.world_size ▸ hi)))⟩

/-- Where every sample is counted, the world may be any other of its size. -/
theorem with_world (h : Records n s worlds) (hall : ∀ i < n, s.counted.getD i 0 = worlds.length)
    {s' : Sampler σ EReal} (hsteps : s'.steps = s.steps) (hmeans : s'.means = s.means)
    (hcounted : s'.counted = s.counted) (hsize : s'.world.size = n) : Records n s' worlds where
  steps_eq := hsteps.trans h.steps_eq
  world_size := hsize
  means_size := hmeans ▸ h.means_size
  counted_size := hcounted ▸ h.counted_size
  accounts i hi := by
    unfold AccountsFor
    rw [hmeans, hcounted]
    refine Accounts.of_counted (hall i hi) ?_
    rw [(h.accounts i hi).mean_eq, hall i hi, List.take_length]

theorem tally_eq (h : Records n s worlds) : s.tally .estimate = s.flushAll worlds.length := by
  rw [Sampler.tally, h.steps_eq]
  rfl

theorem tally (h : Records n s worlds) : Records n (s.tally .estimate) worlds := by
  rw [h.tally_eq]
  exact h.flushAll.1

/-- The chain before a step keeps the accounts, and where the variable of the step changes, every
sample of it is counted. -/
theorem broughtUp (h : Records n s worlds) (i : Nat) (b : Bool) :
    Records n (s.broughtUp i b) worlds ∧ (b ≠ s.world.value i → i < n →
      (s.broughtUp i b).counted.getD i 0 = worlds.length) := by
  unfold Sampler.broughtUp
  rw [h.steps_eq]
  split
  · next hb => exact ⟨h, fun hne => absurd hb hne⟩
  · obtain ⟨hrec, hself⟩ := h.flush i
    exact ⟨hrec, fun _ hi => hself i hi (.inl rfl)⟩

/-- The accounts are kept with one world more, if every sample of what changes is counted. -/
theorem snoc (h : Records n s worlds) {s' : Sampler σ EReal} (hsteps : s'.steps = s.steps + 1)
    (hmeans : s'.means = s.means) (hcounted : s'.counted = s.counted) (hsize : s'.world.size = n)
    (hchange : ∀ j < n, s'.world.value j ≠ s.world.value j →
      s.counted.getD j 0 = worlds.length) : Records n s' (worlds ++ [s'.world]) where
  steps_eq := by simp [hsteps, h.steps_eq]
  world_size := hsize
  means_size := hmeans ▸ h.means_size
  counted_size := hcounted ▸ h.counted_size
  accounts j hj := by
    have hacc := h.accounts j hj
    unfold AccountsFor at hacc ⊢
    rw [hmeans, hcounted]
    by_cases hsame : s'.world.value j = s.world.value j
    · rw [hsame]
      exact hacc.snoc hsame
    · exact hacc.snoc_of_counted (hchange j hj hsame) s'.world

variable [RandomStream σ EReal]

/-- A restart adds all samples before it draws the variables anew. -/
theorem restart (h : Records n s worlds) (net : BayesNet EReal) :
    Records n (s.restart net .estimate) worlds := by
  obtain ⟨hrec, hall⟩ := h.flushAll
  obtain ⟨drawn, hdrawn⟩ : ∃ s', s' = net.adjustable.foldl (redraw net)
    (s.flushAll worlds.length) := ⟨_, rfl⟩
  have hkept : drawn.steps = (s.flushAll worlds.length).steps ∧
      drawn.means = (s.flushAll worlds.length).means ∧
      drawn.counted = (s.flushAll worlds.length).counted ∧ drawn.world.size = n := by
    rw [hdrawn]
    refine redrawAll_induction (P := fun s' => s'.steps = (s.flushAll worlds.length).steps ∧
      s'.means = (s.flushAll worlds.length).means ∧
      s'.counted = (s.flushAll worlds.length).counted ∧ s'.world.size = n)
      (fun s' i h => ⟨h.1, h.2.1, h.2.2.1, ?_⟩) ⟨rfl, rfl, rfl, hrec.world_size⟩
    rw [redraw, World.size_assign]
    exact h.2.2.2
  have hrestart : s.restart net .estimate = { drawn with logScore := net.score drawn.world } := by
    unfold Sampler.restart
    dsimp only
    rw [trackBest_estimate, h.steps_eq, hdrawn]
    rfl
  rw [hrestart]
  exact hrec.with_world hall hkept.1 hkept.2.1 hkept.2.2.1 hkept.2.2.2

/-- **A step keeps the accounts**: where its variable changes, all samples before the step have been
added. -/
theorem advance (h : Records n s worlds) (net : BayesNet EReal) :
    Records n (s.advance net .estimate) (worlds ++ [(s.advance net .estimate).world]) := by
  obtain ⟨stream, i, b, hb⟩ := s.advance_eq_setVariable .estimate net
  obtain ⟨hrec, hcounted⟩ := h.broughtUp i b
  rw [hb, setVariable_estimate]
  refine hrec.snoc ?_ rfl rfl ?_ fun j hj hne => ?_
  · simp [h.steps_eq, hrec.steps_eq]
  · simp [h.world_size]
  · dsimp only at hne
    rw [broughtUp_world] at hne
    -- only the variable of the step can change
    have hji : j = i := by
      by_contra hji
      exact hne (World.value_assign_of_ne _ hji b)
    subst hji
    refine hcounted (fun hbv => hne ?_) hj
    rw [hbv, World.assign_value]

end Records

/-! ### Whole runs -/

/-- Marginals are the frequencies of the variables in some worlds, and probabilities. -/
structure AreFrequencies (n : Nat) (worlds : List World) (marginals : List EReal) : Prop where
  eq_frequency : marginals = (List.range n).map fun v => ((frequency worlds v : ℝ) : EReal)
  nonneg : ∀ p ∈ marginals, 0 ≤ p
  le_one : ∀ p ∈ marginals, p ≤ 1

theorem areFrequencies_map (n : Nat) (worlds : List World) : AreFrequencies n worlds
    ((List.range n).map fun v => ((frequency worlds v : ℝ) : EReal)) where
  eq_frequency := rfl
  nonneg p hp := by
    obtain ⟨v, -, rfl⟩ := List.mem_map.mp hp
    exact EReal.coe_nonneg.mpr (Rat.cast_nonneg.mpr (frequency_nonneg worlds v))
  le_one p hp := by
    obtain ⟨v, -, rfl⟩ := List.mem_map.mp hp
    rw [← EReal.coe_one, EReal.coe_le_coe_iff]
    exact_mod_cast frequency_le_one worlds v

/-- The marginals after everything is added are the frequencies. -/
theorem Records.marginals {n : Nat} {s : Sampler σ EReal} {worlds : List World}
    (h : Records n s worlds) (hne : worlds ≠ []) :
    AreFrequencies n worlds (s.tally .estimate).marginals := by
  obtain ⟨hrec, hall⟩ := h.flushAll
  have hsteps : (s.flushAll worlds.length).steps ≠ 0 := by
    rw [hrec.steps_eq]
    exact fun h => hne (List.length_eq_zero_iff.mp h)
  have hmarginals : (s.tally .estimate).marginals =
      (List.range n).map fun v => ((frequency worlds v : ℝ) : EReal) := by
    rw [h.tally_eq, Sampler.marginals, if_neg hsteps]
    refine List.ext_getElem (by simp [hrec.means_size]) fun i hi hi' => ?_
    have hin : i < n := by simpa using hi'
    have hmean := (hrec.accounts i hin).mean_eq
    rw [hall i hin, List.take_length] at hmean
    have hsize : i < (s.flushAll worlds.length).means.size := hrec.means_size ▸ hin
    simpa [Array.getD_eq_getD_getElem?, hsize] using hmean
  rw [hmarginals]
  exact areFrequencies_map n worlds

section Run

variable [RandomStream σ EReal]

/-- A chain that estimates has made no step at its start. -/
theorem records_start (net : BayesNet EReal) (stream : σ) :
    Records net.literals.size (start net .estimate stream) [] := by
  refine Records.restart ⟨rfl, by simp [BayesNet.fixedWorld], by simp, by simp, fun i _ => ?_⟩ net
  refine Accounts.of_counted ?_ ?_
  · simp only [Array.getD_eq_getD_getElem?, Array.getElem?_replicate]
    split <;> rfl
  · simp only [Array.getD_eq_getD_getElem?, Array.getElem?_replicate]
    split <;> simp [frequency]

/-- Restarts, steps and tallies keep the accounts. -/
theorem Records.afterAll {n : Nat} {net : BayesNet EReal} {ms : List Move}
    (hms : ∀ m ∈ ms, m = .restart ∨ m = .step ∨ m = .tally) {s : Sampler σ EReal}
    {worlds : List World} (h : Records n s worlds) : Records n (s.afterAll net .estimate ms)
      (worlds ++ s.stepWorlds net .estimate ms) := by
  induction ms generalizing s worlds with
  | nil => simpa [stepWorlds] using h
  | cons m ms ih =>
    have hrest : ∀ m ∈ ms, m = .restart ∨ m = .step ∨ m = .tally := fun m hm =>
      hms m (List.mem_cons_of_mem _ hm)
    rw [afterAll_cons, stepWorlds, ← List.append_assoc]
    refine ih hrest ?_
    rcases hms m List.mem_cons_self with rfl | rfl | rfl
    · simpa [after] using h.restart net
    · simpa [after] using h.advance net
    · simpa [after] using h.tally

/-- **The marginals of a chain are frequencies.**  After any steps and restarts, wherever the
restarts fell and whatever the steps chose, the marginal of every variable is the share of the
worlds right after a step in which it is true, and lies between zero and one.  So it is for a
run of `n` steps, with the worlds right after its first step up to its last. -/
theorem marginals_eq_frequency (net : BayesNet EReal) (stream : σ) :
    (∀ ms : List Move, (∀ m ∈ ms, m = .restart ∨ m = .step ∨ m = .tally) → .step ∈ ms →
      AreFrequencies net.literals.size ((start net .estimate stream).stepWorlds net .estimate ms)
        (((start net .estimate stream).afterAll net .estimate ms).tally .estimate).marginals) ∧
    ∀ n, 0 < n → net.adjustable.isEmpty = false → ∃ s : Nat → Sampler σ EReal,
      (∀ t, (start net .estimate stream).runSteps net .estimate t = .ok (s t)) ∧
      (start net .estimate stream).run net .estimate n = .ok ((s n).tally .estimate) ∧
      AreFrequencies net.literals.size ((List.range n).map fun t => (s (t + 1)).world)
        ((s n).tally .estimate).marginals := by
  have hmoves : ∀ ms : List Move, (∀ m ∈ ms, m = .restart ∨ m = .step ∨ m = .tally) → .step ∈ ms →
      AreFrequencies net.literals.size ((start net .estimate stream).stepWorlds net .estimate ms)
        (((start net .estimate stream).afterAll net .estimate ms).tally .estimate).marginals := by
    intro ms hms hstep
    have hrec : Records net.literals.size ((start net .estimate stream).afterAll net .estimate ms)
        ([] ++ (start net .estimate stream).stepWorlds net .estimate ms) :=
      (records_start net stream).afterAll hms
    rw [List.nil_append] at hrec
    refine hrec.marginals fun hnil => ?_
    have hlen : ((start net .estimate stream).stepWorlds net .estimate ms).length = _ :=
      length_stepWorlds _ ms
    rw [hnil, List.length_nil, eq_comm, List.count_eq_zero] at hlen
    exact hlen hstep
  refine ⟨hmoves, fun n hn hadj => ⟨fun t => (start net .estimate stream).afterAll net .estimate
    (stepMoves net .estimate 0 t), fun t => ?_, ?_, ?_⟩⟩
  · rw [runSteps_eq hadj (fun h => by cases h), start_steps]
  · rw [run_estimate_eq hadj, start_steps, runMoves, afterAll_append]
    rfl
  · have h := hmoves (stepMoves net .estimate 0 n) (fun m hm => ?_) ?_
    · rw [stepWorlds_stepMoves] at h
      exact h
    · rcases mem_stepMoves_estimate hm with h | h
      · exact .inl h
      · exact .inr (.inl h)
    · exact step_mem_stepMoves net .estimate 0 hn

/-- A run of three steps. -/
theorem marginals_eq_frequency_followNet :
    followNet.adjustable.isEmpty = false ∧ ∃ s : Nat → Sampler MersenneTwister EReal,
      (start followNet .estimate (MersenneTwister.ofSeed 7)).run followNet .estimate 3 =
        .ok ((s 3).tally .estimate) ∧
      AreFrequencies 2 ((List.range 3).map fun t => (s (t + 1)).world)
        ((s 3).tally .estimate).marginals := by
  have hadj : followNet.adjustable.isEmpty = false := rfl
  obtain ⟨s, -, hrun, hmarginals⟩ :=
    (marginals_eq_frequency followNet (MersenneTwister.ofSeed 7)).2 3 (by decide) hadj
  exact ⟨hadj, s, hrun, hmarginals⟩

end Run

end Sampler

end FactNet
