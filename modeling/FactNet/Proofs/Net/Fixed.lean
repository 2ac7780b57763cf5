import FactNet.Proofs.Net.Moves
import FactNet.Proofs.Pairs
import FactNet.Random.MersenneTwister

/-!
# Fixed variables

A chain starts from the world in which the fixed variables have their values.  Restarts redraw
adjustable variables only, a step takes one of them as long as there is one, and so does every
climb of a run.  So in every world that a chain gets to the other variables have the values
they had at first, and the same holds of the best world it keeps.

## Main definitions

* `LawfulChoice` — a stream chooses among the numbers it is asked to choose from.
* `Move.Allowed` — a move is one that runs of a network make.
* `Sampler.Reachable` — what a chain can get to.
* `Sampler.Holds` — a variable has a value in the current world and in the best one.

## Main results

* `Sampler.allowed_runMoves` — runs make such moves only.
* `Sampler.after_cases` — **a move leaves the worlds as they are, or ends by keeping the better
  one.**
* `Sampler.size_afterAll` — the worlds of a chain give every variable a value.
* `Sampler.value_after` — **a move leaves the variables alone that are not adjustable.**
* `Sampler.reachable_afterAll` — runs get to such states only.
* `Sampler.Reachable.holds` — **in all of them those variables have the values of the first world.**
-/

namespace FactNet

/-! ### Choosing -/

/-- A stream that is asked for one of the first numbers chooses one of them. -/
class LawfulChoice (σ : Type) [RandomChoice σ] : Prop where
  below_lt : ∀ {n : Nat} (s : σ), 0 < n → (RandomChoice.below n s).1 < n

namespace MersenneTwister

theorem choose_lt {n : Nat} (hn : 0 < n) (k fuel : Nat) (s : MersenneTwister) :
    (choose n k fuel s).1 < n := by
  induction fuel generalizing s with
  | zero => exact hn
  | succ fuel ih =>
    rw [choose]
    dsimp only
    split
    · next h => exact h
    · exact ih _

instance : LawfulChoice MersenneTwister where
  below_lt s hn := choose_lt hn _ _ s

end MersenneTwister

/-! ### The moves of runs -/

variable {σ α : Type}

/-- A climb is in an adjustable variable, and there is one to choose for a step. -/
def Move.Allowed (net : BayesNet α) : Move → Prop
  | .climb i => i ∈ net.adjustable
  | .step => net.adjustable.isEmpty = false
  | _ => True

namespace Sampler

variable {net : BayesNet α} {mode : Mode}

theorem allowed_movesBefore (t : Nat) : ∀ m ∈ movesBefore net mode t, m.Allowed net := by
  intro m hm
  unfold movesBefore at hm
  split at hm
  · cases hm
  · rcases List.mem_append.1 hm with hm | hm
    · split at hm
      · obtain rfl := List.mem_singleton.1 hm
        trivial
      · cases hm
    · split at hm
      · rcases List.mem_append.1 hm with hm | hm
        · split at hm
          · obtain ⟨i, hi, rfl⟩ := List.mem_map.1 hm
            exact Array.mem_toList_iff.1 hi
          · cases hm
        · obtain rfl := List.mem_singleton.1 hm
          trivial
      · cases hm

theorem allowed_stepMoves (hadj : net.adjustable.isEmpty = false) (t n : Nat) :
    ∀ m ∈ stepMoves net mode t n, m.Allowed net := by
  induction n generalizing t with
  | zero =>
    intro m hm
    cases hm
  | succ n ih =>
    intro m hm
    rw [stepMoves, List.mem_append, List.mem_cons] at hm
    rcases hm with hm | rfl | hm
    · exact allowed_movesBefore t m hm
    · exact hadj
    · exact ih (t + 1) m hm

/-- **Runs make such moves only.** -/
theorem allowed_runMoves (hadj : net.adjustable.isEmpty = false) (t n : Nat) :
    ∀ m ∈ runMoves net mode t n, m.Allowed net := by
  intro m hm
  rcases List.mem_append.1 hm with hm | hm
  · exact allowed_stepMoves hadj t n m hm
  · obtain rfl := List.mem_singleton.1 hm
    trivial

variable [Scalar α] [RandomStream σ α] {s : Sampler σ α}

/-- **A move leaves the worlds as they are, or ends by keeping the better one.** -/
theorem after_cases (net : BayesNet α) (mode : Mode) (s : Sampler σ α) (m : Move) :
    ((s.after net mode m).world = s.world ∧ (s.after net mode m).bestScore = s.bestScore ∧
      (s.after net mode m).best = s.best) ∨
    ∃ t : Sampler σ α, s.after net mode m = trackBest mode t ∧ t.bestScore = s.bestScore ∧
      t.best = s.best := by
  cases m with
  | restart => exact .inr (s.restart_eq_trackBest mode net)
  | climb i =>
    obtain ⟨b, hb⟩ := s.climb_eq_setVariable mode i net
    rw [after, hb]
    exact .inr (s.setVariable_eq_trackBest ..)
  | resync => exact .inl ⟨rfl, rfl, rfl⟩
  | step =>
    obtain ⟨stream, i, b, hb⟩ := s.advance_eq_setVariable mode net
    rw [after, hb]
    exact .inr (setVariable_eq_trackBest ..)
  | tally => exact .inl ⟨s.tally_world mode, s.tally_bestScore mode, s.tally_best mode⟩

/-- Redrawing variables keeps their number. -/
theorem size_restart (s : Sampler σ α) (net : BayesNet α) (mode : Mode) :
    (s.restart net mode).world.size = s.world.size := by
  unfold restart
  rw [trackBest_world]
  refine redrawAll_induction (P := fun s' => s'.world.size = s.world.size) (fun s' i h => ?_) ?_
  · rw [redraw, World.size_assign, h]
  · split <;> simp

/-- Every move keeps the number of variables. -/
theorem size_after (s : Sampler σ α) (m : Move) :
    (s.after net mode m).world.size = s.world.size := by
  cases m with
  | restart => exact s.size_restart net mode
  | climb i =>
    obtain ⟨b, hb⟩ := s.climb_eq_setVariable mode i net
    rw [after, hb, setVariable_world, World.size_assign]
  | resync => rfl
  | step =>
    obtain ⟨stream, i, b, hb⟩ := s.advance_eq_setVariable mode net
    rw [after, hb, setVariable_world, World.size_assign]
  | tally => rw [after, tally_world]

/-- **The worlds of a chain give every variable a value.** -/
theorem size_afterAll (net : BayesNet α) (mode : Mode) (stream : σ) (ms : List Move) :
    ((start net mode stream).afterAll net mode ms).world.size = net.literals.size := by
  refine afterAll_induction (P := fun s => s.world.size = net.literals.size)
    (fun s m hs => (s.size_after m).trans hs) ?_ ms
  unfold start
  rw [size_restart, BayesNet.fixedWorld, World.size_assignAll, World.size_allFalse]

/-! ### Variables that are not adjustable -/

/-- A step gives some value to an adjustable variable. -/
theorem exists_advance_eq [LawfulChoice σ] (s : Sampler σ α) (mode : Mode)
    (hadj : net.adjustable.isEmpty = false) :
    ∃ stream, ∃ i ∈ net.adjustable, ∃ b, s.advance net mode =
      setVariable mode { s with steps := s.steps + 1, stream := stream } i b
        (s.conditional net i) := by
  have hsize : 0 < net.adjustable.size := Array.size_pos_iff.2 fun h => by simp [h] at hadj
  have hmem : ∀ k < net.adjustable.size, net.adjustable.getD k 0 ∈ net.adjustable := by
    intro k hk
    rw [Array.getD_eq_getD_getElem?, Array.getElem?_eq_getElem hk]
    exact Array.getElem_mem hk
  exact ⟨_, _, hmem _ (LawfulChoice.below_lt s.stream hsize), _, rfl⟩

variable {i : Nat} (hi : i ∉ net.adjustable)
include hi

omit [RandomStream σ α] in
theorem value_setVariable {j : Nat} (hj : j ∈ net.adjustable) (b : Bool) (scores : α × α) :
    (setVariable mode s j b scores).world.value i = s.world.value i := by
  rw [setVariable_world]
  refine World.value_assign_of_ne _ ?_ b
  rintro rfl
  exact hi hj

/-- Redrawing the adjustable variables leaves the others alone. -/
theorem value_redrawAll (s : Sampler σ α) :
    (net.adjustable.foldl (redraw net) s).world.value i = s.world.value i := by
  rw [← Array.foldl_toList]
  have hall : ∀ j ∈ net.adjustable.toList, j ≠ i := by
    rintro j hj rfl
    exact hi (Array.mem_toList_iff.1 hj)
  generalize net.adjustable.toList = js at hall
  induction js generalizing s with
  | nil => rfl
  | cons j js ih =>
    obtain ⟨hj, hjs⟩ := List.forall_mem_cons.1 hall
    rw [List.foldl_cons, ih _ hjs]
    exact World.value_assign_of_ne _ hj.symm _

theorem value_restart (s : Sampler σ α) (mode : Mode) :
    (s.restart net mode).world.value i = s.world.value i := by
  unfold restart
  rw [trackBest_world]
  refine (value_redrawAll hi _).trans ?_
  split <;> simp

variable [LawfulChoice σ]

/-- **A move leaves the variables alone that are not adjustable.** -/
theorem value_after (s : Sampler σ α) {m : Move} (hm : m.Allowed net) :
    (s.after net mode m).world.value i = s.world.value i := by
  cases m with
  | restart => exact value_restart hi s mode
  | climb j =>
    obtain ⟨b, hb⟩ := s.climb_eq_setVariable mode j net
    rw [after, hb]
    exact value_setVariable hi hm b _
  | resync => rfl
  | step =>
    obtain ⟨stream, j, hj, b, hb⟩ := s.exists_advance_eq mode hm
    rw [after, hb]
    exact value_setVariable hi hj b _
  | tally => rw [after, tally_world]

omit hi [LawfulChoice σ]

/-! ### What a chain can get to -/

/-- What a chain can get to, starting anywhere in its stream: by the moves of runs in any order, and
by steps in adjustable variables that are not chosen at random. -/
inductive Reachable (net : BayesNet α) (mode : Mode) : Sampler σ α → Prop
  | start (stream : σ) : Reachable net mode (start net mode stream)
  | after {s : Sampler σ α} (h : Reachable net mode s) {m : Move} (hm : m.Allowed net) :
      Reachable net mode (s.after net mode m)
  | step {s : Sampler σ α} (h : Reachable net mode s) {i : Nat} (hi : i ∈ net.adjustable) :
      Reachable net mode (s.step net mode i)

/-- **Runs get to such states only.** -/
theorem reachable_afterAll (h : Reachable net mode s) {ms : List Move}
    (hms : ∀ m ∈ ms, m.Allowed net) : Reachable net mode (s.afterAll net mode ms) := by
  induction ms generalizing s with
  | nil => exact h
  | cons m ms ih =>
    obtain ⟨hm, hms⟩ := List.forall_mem_cons.1 hms
    exact ih (h.after hm) hms

/-- A variable has a value in the current world and in the best one. -/
structure Holds (i : Nat) (b : Bool) (s : Sampler σ α) : Prop where
  world : s.world.value i = b
  best : s.best.value i = b

namespace Holds

variable {b : Bool}

omit [RandomStream σ α] in
/-- Keeping the better world leaves a value that both have. -/
theorem trackBest (h : Holds i b s) (mode : Mode) : Holds i b (trackBest mode s) := by
  unfold Sampler.trackBest
  split
  · exact ⟨h.world, h.world⟩
  · exact h

omit [RandomStream σ α] in
/-- What ends by keeping the better world leaves the value if it leaves the current one. -/
theorem of_trackBest (h : Holds i b s) {s' t : Sampler σ α} {mode : Mode}
    (heq : s' = Sampler.trackBest mode t) (hbest : t.best = s.best)
    (hvalue : s'.world.value i = s.world.value i) : Holds i b s' := by
  have hworld := hvalue.trans h.world
  rw [heq, trackBest_world] at hworld
  rw [heq]
  exact trackBest ⟨hworld, hbest ▸ h.best⟩ mode

/-- A restart leaves the values of variables that are not adjustable. -/
theorem restart (hi : i ∉ net.adjustable) (h : Holds i b s) (mode : Mode) :
    Holds i b (s.restart net mode) := by
  obtain ⟨t, ht, -, hbest⟩ := s.restart_eq_trackBest mode net
  exact h.of_trackBest ht hbest (value_restart hi s mode)

variable [LawfulChoice σ]

/-- So does every move of a run. -/
theorem after (hi : i ∉ net.adjustable) (h : Holds i b s) {m : Move} (hm : m.Allowed net) :
    Holds i b (s.after net mode m) := by
  have hvalue : (s.after net mode m).world.value i = s.world.value i := value_after hi s hm
  -- either the best world is left as well, or it becomes one that has the value
  rcases s.after_cases net mode m with ⟨-, -, hbest⟩ | ⟨t, ht, -, hbest⟩
  · exact ⟨hvalue.trans h.world, hbest ▸ h.best⟩
  · exact h.of_trackBest ht hbest hvalue

omit [LawfulChoice σ] in
/-- So does a step in an adjustable variable. -/
theorem step (hi : i ∉ net.adjustable) (h : Holds i b s) {j : Nat} (hj : j ∈ net.adjustable)
    (mode : Mode) : Holds i b (s.step net mode j) := by
  obtain ⟨stream, v, hv⟩ : ∃ stream v, s.step net mode j =
    setVariable mode { s with stream := stream } j v (s.conditional net j) := ⟨_, _, rfl⟩
  obtain ⟨t, ht, -, hbest⟩ := setVariable_eq_trackBest { s with stream := stream } mode j v
    (s.conditional net j)
  rw [hv]
  exact h.of_trackBest ht hbest (value_setVariable hi hj v _)

end Holds

/-- A chain starts with the values of the first world. -/
theorem holds_start (hi : i ∉ net.adjustable) (mode : Mode) (stream : σ) :
    Holds i (net.fixedWorld.value i) (start net mode stream) := by
  unfold start
  refine Holds.restart hi ?_ mode
  exact ⟨rfl, rfl⟩

/-- **Variables that are not adjustable always have the values of the first world.** -/
theorem Reachable.holds [LawfulChoice σ] (hi : i ∉ net.adjustable) (h : Reachable net mode s) :
    Holds i (net.fixedWorld.value i) s := by
  induction h with
  | start stream => exact holds_start hi mode stream
  | after _ hm ih => exact ih.after hi hm
  | step _ hj ih => exact ih.step hi hj mode

end Sampler

/-! ### The first world -/

namespace World

theorem value_assign_self {w : World} {i : Nat} (hi : i < w.size) (b : Bool) :
    (w.assign i b).value i = b := by
  simp [assign, value, Array.getD_eq_getD_getElem?, hi]

/-- Of the values given to a variable the last one counts. -/
theorem value_assignAll (w : World) (values : List (Nat × Bool)) {i : Nat} (hi : i < w.size) :
    (w.assignAll values).value i = (Pairs.last? values i).getD (w.value i) := by
  induction values using List.reverseRecOn with
  | nil => rfl
  | append_singleton values e ih =>
    obtain ⟨j, b⟩ := e
    have hstep : w.assignAll (values ++ [(j, b)]) = (w.assignAll values).assign j b := by
      rw [assignAll, List.foldl_append]
      rfl
    rw [hstep, Pairs.last?_concat]
    by_cases hj : j = i
    · subst hj
      rw [value_assign_self (by rwa [size_assignAll]), beq_self_eq_true, if_pos rfl,
        Option.getD_some]
    · rw [value_assign_of_ne _ (Ne.symm hj), ih, if_neg (by simpa using hj)]

end World

namespace BayesNet

/-- In the first world a fixed variable has its value, and any other is false. -/
theorem value_fixedWorld (net : BayesNet α) {i : Nat} (hi : i < net.literals.size) :
    net.fixedWorld.value i = (Pairs.last? net.fixed i).getD false := by
  have hsize : i < (World.allFalse net.literals.size).size := by rwa [World.size_allFalse]
  have hfalse : (World.allFalse net.literals.size).value i = false := by
    simp [World.allFalse, World.value, Array.getD_eq_getD_getElem?, hi]
  rw [fixedWorld, World.value_assignAll _ _ hsize, hfalse]

end BayesNet

end FactNet
