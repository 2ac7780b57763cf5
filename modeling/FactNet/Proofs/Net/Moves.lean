import FactNet.Net.Sampler

/-!
# Runs as lists of moves

Between two points of a run a chain makes a move: it restarts, climbs in one variable, puts the
true score in the place of the one it keeps, makes a step, or adds what it has seen to its
means.  Which moves a run makes depends on the network, the mode and the number of steps
alone, so a run is a list of moves made one after another, and the points of a run are the
states after the first moves of that list.

What holds after any list of moves holds at every point of every run.

## Main definitions

* `Move`, `Sampler.after` — a move, and the chain after it.
* `Sampler.afterAll` — the chain after several moves.
* `Sampler.account` — what a chain keeps of the samples of a variable.
* `movesBefore`, `stepMoves`, `runMoves` — the moves of a run.
* `Sampler.stepWorlds` — the worlds right after the steps among some moves.

## Main results

* `Sampler.run_eq` — a run makes its moves, as long as no check fails.
* `Sampler.run_estimate_eq` — a run that estimates makes no check.
-/

namespace FactNet

open Scalar

/-- What a chain does between two points of a run. -/
inductive Move where
  /-- It draws all adjustable variables anew. -/
  | restart
  /-- It gives a variable its more probable value. -/
  | climb (i : Nat)
  /-- It puts the true score in the place of the one it keeps. -/
  | resync
  /-- It makes a step with a variable chosen at random. -/
  | step
  /-- It adds the samples so far to its means, if it keeps them. -/
  | tally
  deriving DecidableEq, Repr

namespace Sampler

variable {σ α : Type} [Scalar α]

/-- The chain with the true score in the place of the one it keeps. -/
def resync (net : BayesNet α) (s : Sampler σ α) : Sampler σ α :=
  { s with logScore := net.score s.world }

/-- The chain with the samples so far in its means, if it keeps them. -/
def tally (mode : Mode) (s : Sampler σ α) : Sampler σ α :=
  if mode == .estimate then s.flushAll s.steps else s

variable [RandomStream σ α]

/-- The chain one step on, with the variable of the step chosen at random. -/
def advance (net : BayesNet α) (mode : Mode) (s : Sampler σ α) : Sampler σ α :=
  let (k, stream) := RandomChoice.below net.adjustable.size s.stream
  step net mode { s with steps := s.steps + 1, stream := stream } (net.adjustable.getD k 0)

/-- The chain after a move. -/
def after (net : BayesNet α) (mode : Mode) (s : Sampler σ α) : Move → Sampler σ α
  | .restart => s.restart net mode
  | .climb i => s.climb net mode i
  | .resync => s.resync net
  | .step => s.advance net mode
  | .tally => s.tally mode

/-- The chain after several moves. -/
def afterAll (net : BayesNet α) (mode : Mode) (s : Sampler σ α) (ms : List Move) : Sampler σ α :=
  ms.foldl (after net mode) s

@[simp] theorem afterAll_nil (net : BayesNet α) (mode : Mode) (s : Sampler σ α) :
    s.afterAll net mode [] = s := rfl

@[simp] theorem afterAll_cons (net : BayesNet α) (mode : Mode) (s : Sampler σ α) (m : Move)
    (ms : List Move) :
    s.afterAll net mode (m :: ms) = (s.after net mode m).afterAll net mode ms := rfl

@[simp] theorem afterAll_append (net : BayesNet α) (mode : Mode) (s : Sampler σ α)
    (ms ms' : List Move) :
    s.afterAll net mode (ms ++ ms') = (s.afterAll net mode ms).afterAll net mode ms' :=
  List.foldl_append

/-- What every move keeps, every list of moves keeps. -/
theorem afterAll_induction {net : BayesNet α} {mode : Mode} {P : Sampler σ α → Prop}
    (hmove : ∀ s m, P s → P (s.after net mode m)) {s : Sampler σ α} (hs : P s) (ms : List Move) :
    P (s.afterAll net mode ms) := by
  induction ms generalizing s with
  | nil => exact hs
  | cons m ms ih => exact ih (hmove s m hs)

end Sampler

/-! ### The moves of a run -/

variable {α : Type}

/-- The moves before a step, `t` steps having been made. -/
def movesBefore (net : BayesNet α) (mode : Mode) (t : Nat) : List Move :=
  if t = 0 then []
  else
    (if t % Sampler.restartSteps = 0 then [.restart] else []) ++
      if mode == .search && t % Sampler.checkSteps = 0 then
        (if net.hillClimb then net.adjustable.toList.map .climb else []) ++ [.resync]
      else []

/-- Before a step a chain that estimates does nothing but restart. -/
theorem movesBefore_estimate (net : BayesNet α) (t : Nat) : movesBefore net .estimate t =
    if t ≠ 0 ∧ t % Sampler.restartSteps = 0 then [.restart] else [] := by
  have hsearch : (Mode.estimate == .search) = false := rfl
  unfold movesBefore
  by_cases h0 : t = 0 <;> by_cases hround : t % Sampler.restartSteps = 0 <;>
    simp [h0, hround, hsearch]

/-- No step is made before a step. -/
theorem step_notMem_movesBefore (net : BayesNet α) (mode : Mode) (t : Nat) :
    .step ∉ movesBefore net mode t := by
  unfold movesBefore
  split
  · simp
  · rw [List.mem_append]
    rintro (h | h)
    · split at h <;> simp at h
    · split at h
      · rw [List.mem_append] at h
        rcases h with h | h
        · split at h <;> simp at h
        · simp at h
      · simp at h

/-- The moves of some steps, `t` steps having been made. -/
def stepMoves (net : BayesNet α) (mode : Mode) : (t n : Nat) → List Move
  | _, 0 => []
  | t, n + 1 => movesBefore net mode t ++ .step :: stepMoves net mode (t + 1) n

theorem step_mem_stepMoves (net : BayesNet α) (mode : Mode) (t : Nat) {n : Nat} (hn : 0 < n) :
    .step ∈ stepMoves net mode t n := by
  cases n with
  | zero => cases hn
  | succ n => exact List.mem_append_right _ List.mem_cons_self

/-- A longer run begins with the steps of a shorter one. -/
theorem stepMoves_prefix_of_le (net : BayesNet α) (mode : Mode) (t : Nat) {n n' : Nat} (h : n ≤ n') :
    stepMoves net mode t n <+: stepMoves net mode t n' := by
  induction n generalizing t n' with
  | zero => exact List.nil_prefix
  | succ n ih =>
    obtain ⟨k, rfl⟩ : ∃ k, n' = k + 1 := ⟨n' - 1, by omega⟩
    rw [stepMoves, stepMoves, List.prefix_append_right_inj, List.cons_prefix_cons]
    exact ⟨rfl, ih (t + 1) (by omega)⟩

/-- A chain that estimates neither climbs nor checks its score. -/
theorem mem_stepMoves_estimate {net : BayesNet α} {t n : Nat} {m : Move}
    (hm : m ∈ stepMoves net .estimate t n) : m = .restart ∨ m = .step := by
  induction n generalizing t with
  | zero => cases hm
  | succ n ih =>
    rw [stepMoves, List.mem_append, List.mem_cons] at hm
    rcases hm with hm | hm | hm
    · refine .inl ?_
      rw [movesBefore_estimate] at hm
      split at hm
      · simpa using hm
      · cases hm
    · exact .inr hm
    · exact ih hm

/-- The moves of a run of some steps, `t` steps having been made. -/
def runMoves (net : BayesNet α) (mode : Mode) (t n : Nat) : List Move :=
  stepMoves net mode t n ++ [.tally]

namespace Sampler

variable {σ : Type} [Scalar α]

/-! ### Adding the samples of a variable -/

theorem flush_of_le (s : Sampler σ α) {i : Nat} (upto : Nat) (h : upto ≤ s.counted.getD i 0) :
    s.flush i upto = s :=
  if_pos h

theorem flush_of_lt (s : Sampler σ α) {i : Nat} (upto : Nat) (h : s.counted.getD i 0 < upto) :
    s.flush i upto = { s with
      means := s.means.setIfInBounds i (s.means.getD i zero +
        ((if s.world.value i then one else zero) - s.means.getD i zero) *
          nat (upto - s.counted.getD i 0) / nat upto)
      counted := s.counted.setIfInBounds i upto } :=
  if_neg (Nat.not_le.mpr h)

/-- What a chain has of the mean of a variable: the step up to which its samples are counted, and
their mean. -/
def account (s : Sampler σ α) (i : Nat) : Option Nat × Option α :=
  (s.counted[i]?, s.means[i]?)

/-- Adding the samples of a variable leaves the means of the others. -/
theorem flush_account_of_ne (s : Sampler σ α) {i j : Nat} (upto : Nat) (h : j ≠ i) :
    (s.flush i upto).account j = s.account j := by
  rcases Nat.lt_or_ge (s.counted.getD i 0) upto with hlt | hge
  · rw [flush_of_lt s upto hlt]
    simp [account, Array.getElem?_setIfInBounds_ne h.symm]
  · rw [flush_of_le s upto hge]

/-- Samples that are lacking are added to the mean at once. -/
theorem flush_account_self {s : Sampler σ α} {i upto c : Nat} {mean : α}
    (h : s.account i = (some c, some mean)) (hlt : c < upto) :
    (s.flush i upto).account i = (some upto, some (mean +
      ((if s.world.value i then one else zero) - mean) * nat (upto - c) / nat upto)) := by
  obtain ⟨hcounted, hmean⟩ := Prod.mk.inj h
  have hc : s.counted.getD i 0 = c := by rw [Array.getD_eq_getD_getElem?, hcounted, Option.getD_some]
  have hm : s.means.getD i zero = mean := by rw [Array.getD_eq_getD_getElem?, hmean, Option.getD_some]
  rw [flush_of_lt s upto (hc ▸ hlt), hc, hm]
  obtain ⟨hlt', -⟩ := Array.getElem?_eq_some_iff.1 hcounted
  obtain ⟨hlt'', -⟩ := Array.getElem?_eq_some_iff.1 hmean
  simp [account, hlt', hlt'']

/-- Where no samples are lacking, nothing is added. -/
theorem flush_account_of_le {s : Sampler σ α} {i upto c : Nat} {mean : α}
    (h : s.account i = (some c, some mean)) (hle : upto ≤ c) : s.flush i upto = s := by
  refine flush_of_le s upto ?_
  rw [Array.getD_eq_getD_getElem?, (Prod.mk.inj h).1, Option.getD_some]
  exact hle

/-! ### What moves leave alone -/

section Frame

variable (s : Sampler σ α)

@[simp] theorem flush_steps (i upto : Nat) : (s.flush i upto).steps = s.steps := by
  unfold flush
  dsimp only
  split <;> rfl

@[simp] theorem flush_world (i upto : Nat) : (s.flush i upto).world = s.world := by
  unfold flush
  dsimp only
  split <;> rfl

@[simp] theorem flush_logScore (i upto : Nat) : (s.flush i upto).logScore = s.logScore := by
  unfold flush
  dsimp only
  split <;> rfl

@[simp] theorem flush_stream (i upto : Nat) : (s.flush i upto).stream = s.stream := by
  unfold flush
  dsimp only
  split <;> rfl

@[simp] theorem flush_bestScore (i upto : Nat) : (s.flush i upto).bestScore = s.bestScore := by
  unfold flush
  dsimp only
  split <;> rfl

@[simp] theorem flush_best (i upto : Nat) : (s.flush i upto).best = s.best := by
  unfold flush
  dsimp only
  split <;> rfl

/-- What adding one variable's samples keeps, adding those of all keeps. -/
theorem flushAll_induction {P : Sampler σ α → Prop} (upto : Nat)
    (hflush : ∀ s i, P s → P (s.flush i upto)) {s : Sampler σ α} (hs : P s) :
    P (s.flushAll upto) := by
  unfold flushAll
  generalize List.range s.world.size = is
  induction is generalizing s with
  | nil => exact hs
  | cons i is ih => exact ih (hflush s i hs)

@[simp] theorem flushAll_steps (upto : Nat) : (s.flushAll upto).steps = s.steps :=
  flushAll_induction (P := fun s' => s'.steps = s.steps) upto (by simp) rfl

@[simp] theorem flushAll_world (upto : Nat) : (s.flushAll upto).world = s.world :=
  flushAll_induction (P := fun s' => s'.world = s.world) upto (by simp) rfl

@[simp] theorem flushAll_logScore (upto : Nat) : (s.flushAll upto).logScore = s.logScore :=
  flushAll_induction (P := fun s' => s'.logScore = s.logScore) upto (by simp) rfl

@[simp] theorem flushAll_bestScore (upto : Nat) : (s.flushAll upto).bestScore = s.bestScore :=
  flushAll_induction (P := fun s' => s'.bestScore = s.bestScore) upto (by simp) rfl

@[simp] theorem flushAll_best (upto : Nat) : (s.flushAll upto).best = s.best :=
  flushAll_induction (P := fun s' => s'.best = s.best) upto (by simp) rfl

variable (mode : Mode)

@[simp] theorem tally_steps : (s.tally mode).steps = s.steps := by
  unfold tally
  split <;> simp

@[simp] theorem tally_world : (s.tally mode).world = s.world := by
  unfold tally
  split <;> simp

@[simp] theorem tally_logScore : (s.tally mode).logScore = s.logScore := by
  unfold tally
  split <;> simp

@[simp] theorem tally_bestScore : (s.tally mode).bestScore = s.bestScore := by
  unfold tally
  split <;> simp

@[simp] theorem tally_best : (s.tally mode).best = s.best := by
  unfold tally
  split <;> simp

@[simp] theorem trackBest_steps : (trackBest mode s).steps = s.steps := by
  unfold trackBest
  split <;> rfl

@[simp] theorem trackBest_world : (trackBest mode s).world = s.world := by
  unfold trackBest
  split <;> rfl

@[simp] theorem trackBest_logScore : (trackBest mode s).logScore = s.logScore := by
  unfold trackBest
  split <;> rfl

@[simp] theorem trackBest_stream : (trackBest mode s).stream = s.stream := by
  unfold trackBest
  split <;> rfl

@[simp] theorem trackBest_account (j : Nat) : (trackBest mode s).account j = s.account j := by
  unfold trackBest
  split <;> rfl

theorem trackBest_estimate : trackBest .estimate s = s := by
  simp [trackBest]

theorem trackBest_of_lt (h : s.bestScore < s.logScore) :
    trackBest .search s = { s with bestScore := s.logScore, best := s.world } := by
  simp [trackBest, h]

theorem trackBest_of_not_lt (h : ¬s.bestScore < s.logScore) : trackBest mode s = s := by
  simp [trackBest, h]

variable (i : Nat) (b : Bool) (scores : α × α)

@[simp] theorem setVariable_steps : (setVariable mode s i b scores).steps = s.steps := by
  unfold setVariable
  dsimp only
  split <;> simp

@[simp] theorem setVariable_world :
    (setVariable mode s i b scores).world = s.world.assign i b := by
  unfold setVariable
  dsimp only
  split <;> simp

@[simp] theorem setVariable_logScore :
    (setVariable mode s i b scores).logScore = if b then scores.1 else scores.2 := by
  unfold setVariable
  dsimp only
  split <;> simp

@[simp] theorem setVariable_stream : (setVariable mode s i b scores).stream = s.stream := by
  unfold setVariable
  dsimp only
  split <;> simp

/-- Giving a variable a value leaves the means of the others. -/
theorem setVariable_account {j : Nat} (h : j ≠ i) :
    (setVariable mode s i b scores).account j = s.account j := by
  unfold setVariable
  dsimp only
  rw [trackBest_account]
  split
  · exact s.flush_account_of_ne _ h
  · rfl

/-- Once a variable has its value, the world is kept if it is the best one. -/
theorem setVariable_eq_trackBest : ∃ t : Sampler σ α, setVariable mode s i b scores =
    trackBest mode t ∧ t.bestScore = s.bestScore ∧ t.best = s.best := by
  unfold setVariable
  refine ⟨_, rfl, ?_, ?_⟩
  · dsimp only
    split <;> simp
  · dsimp only
    split <;> simp

variable (net : BayesNet α)

/-- Climbing gives the variable some value. -/
theorem climb_eq_setVariable : ∃ b, s.climb net mode i =
    setVariable mode s i b (s.conditional net i) := ⟨_, rfl⟩

@[simp] theorem climb_steps : (s.climb net mode i).steps = s.steps := by
  obtain ⟨b, hb⟩ := s.climb_eq_setVariable mode i net
  rw [hb, setVariable_steps]

@[simp] theorem climb_stream : (s.climb net mode i).stream = s.stream := by
  obtain ⟨b, hb⟩ := s.climb_eq_setVariable mode i net
  rw [hb, setVariable_stream]

variable [RandomStream σ α]

/-- A step of a run chooses a variable and gives it some value; the scores are taken before. -/
theorem advance_eq_setVariable : ∃ stream i b, s.advance net mode =
    setVariable mode { s with steps := s.steps + 1, stream := stream } i b
      (s.conditional net i) := ⟨_, _, _, rfl⟩

@[simp] theorem advance_steps : (s.advance net mode).steps = s.steps + 1 := by
  obtain ⟨stream, i, b, hb⟩ := s.advance_eq_setVariable mode net
  rw [hb, setVariable_steps]

/-- What redrawing one variable keeps, redrawing all keeps. -/
theorem redrawAll_induction {net : BayesNet α} {P : Sampler σ α → Prop}
    (hdraw : ∀ s i, P s → P (redraw net s i)) {s : Sampler σ α} (hs : P s) :
    P (net.adjustable.foldl (redraw net) s) := by
  rw [← Array.foldl_toList]
  induction net.adjustable.toList generalizing s with
  | nil => exact hs
  | cons i is ih => exact ih (hdraw s i hs)

@[simp] theorem restart_steps : (s.restart net mode).steps = s.steps := by
  unfold restart
  dsimp only
  rw [trackBest_steps]
  refine redrawAll_induction (P := fun s' => s'.steps = s.steps) (fun _ _ h => h) ?_
  split <;> simp

/-- Once all variables are drawn, the world is kept if it is the best one. -/
theorem restart_eq_trackBest : ∃ t : Sampler σ α, s.restart net mode = trackBest mode t ∧
    t.bestScore = s.bestScore ∧ t.best = s.best := by
  refine ⟨_, rfl, ?_⟩
  refine redrawAll_induction (P := fun s' => s'.bestScore = s.bestScore ∧ s'.best = s.best)
    (fun _ _ h => h) ?_
  split <;> simp

/-- A restart of a chain that estimates adds all samples, and draws after that. -/
theorem restart_account (j : Nat) :
    (s.restart net .estimate).account j = (s.flushAll s.steps).account j := by
  unfold restart
  rw [trackBest_account]
  exact redrawAll_induction (P := fun s' => s'.account j = (s.flushAll s.steps).account j)
    (fun _ _ h => h) rfl

/-- After a restart a chain keeps the true score. -/
theorem restart_logScore : (s.restart net mode).logScore =
    net.score (s.restart net mode).world := by
  simp [restart]

end Frame

/-! ### Runs -/

section Run

variable [RandomStream σ α] {net : BayesNet α} {mode : Mode}

theorem after_steps (s : Sampler σ α) (m : Move) :
    (s.after net mode m).steps = s.steps + if m = .step then 1 else 0 := by
  cases m <;> simp [after, resync]

theorem afterAll_steps (s : Sampler σ α) (ms : List Move) :
    (s.afterAll net mode ms).steps = s.steps + ms.count .step := by
  induction ms generalizing s with
  | nil => simp
  | cons m ms ih =>
    rw [afterAll_cons, ih, after_steps, List.count_cons]
    simp only [beq_iff_eq]
    omega

@[simp] theorem start_steps (stream : σ) : (start net mode stream).steps = 0 :=
  restart_steps _ mode net

/-! ### The worlds of a run -/

/-- The worlds right after the steps among some moves. -/
def stepWorlds (net : BayesNet α) (mode : Mode) : Sampler σ α → List Move → List World
  | _, [] => []
  | s, m :: ms =>
    (if m = .step then [(s.after net mode m).world] else []) ++
      stepWorlds net mode (s.after net mode m) ms

theorem stepWorlds_append (s : Sampler σ α) (ms ms' : List Move) :
    s.stepWorlds net mode (ms ++ ms') =
      s.stepWorlds net mode ms ++ (s.afterAll net mode ms).stepWorlds net mode ms' := by
  induction ms generalizing s with
  | nil => rfl
  | cons m ms ih =>
    rw [List.cons_append, stepWorlds, stepWorlds, ih, List.append_assoc, afterAll_cons]

theorem length_stepWorlds (s : Sampler σ α) (ms : List Move) :
    (s.stepWorlds net mode ms).length = ms.count .step := by
  induction ms generalizing s with
  | nil => rfl
  | cons m ms ih =>
    rw [stepWorlds, List.length_append, ih, List.count_cons, Nat.add_comm]
    by_cases hm : m = .step <;> simp [hm]

/-- The worlds right after the steps of a run are those after its first steps. -/
theorem stepWorlds_stepMoves (s : Sampler σ α) (t n : Nat) :
    s.stepWorlds net mode (stepMoves net mode t n) =
      (List.range n).map fun k => (s.afterAll net mode (stepMoves net mode t (k + 1))).world := by
  induction n generalizing s t with
  | zero => rfl
  | succ n ih =>
    have hbefore : s.stepWorlds net mode (movesBefore net mode t) = [] := by
      rw [← List.length_eq_zero_iff, length_stepWorlds, List.count_eq_zero]
      exact step_notMem_movesBefore net mode t
    rw [stepMoves, stepWorlds_append, hbefore, List.nil_append, stepWorlds, if_pos rfl, ih,
      List.range_succ_eq_map, List.map_cons, List.map_map, List.singleton_append]
    refine congr (congrArg List.cons ?_) (List.map_congr_left fun k _ => ?_)
    · simp [stepMoves]
    · rw [Function.comp_apply, stepMoves.eq_2 net mode t, afterAll_append, afterAll_cons]

/-! ### Runs and moves -/

/-- Climbing in all variables is a list of moves. -/
theorem climbAll_eq (s : Sampler σ α) :
    s.climbAll net mode = s.afterAll net mode (net.adjustable.toList.map .climb) := by
  rw [climbAll, ← Array.foldl_toList, afterAll, List.foldl_map]
  rfl

/-- The chain that a check compares scores in. -/
def beforeResync (net : BayesNet α) (mode : Mode) (s : Sampler σ α) : Sampler σ α :=
  s.afterAll net mode (if net.hillClimb then net.adjustable.toList.map .climb else [])

/-- A check climbs, if the network asks for it, and puts the true score in, or fails. -/
theorem checkDrift_eq_ite (s : Sampler σ α) : s.checkDrift net mode =
    if agrees (s.beforeResync net mode).logScore (net.score (s.beforeResync net mode).world) then
      .ok ((s.beforeResync net mode).resync net)
    else .error (.drifted, s.beforeResync net mode) := by
  have hclimb : (if net.hillClimb then s.climbAll net mode else s) = s.beforeResync net mode := by
    unfold beforeResync
    split
    · rw [climbAll_eq]
    · rfl
  unfold checkDrift
  dsimp only
  rw [hclimb]
  rfl

theorem checkDrift_eq {s : Sampler σ α}
    (h : agrees (s.beforeResync net mode).logScore (net.score (s.beforeResync net mode).world)) :
    s.checkDrift net mode = .ok ((s.beforeResync net mode).resync net) := by
  rw [checkDrift_eq_ite, if_pos h]

/-- **What comes before a step is a list of moves**, or a check of a search fails after some. -/
theorem prepare_cases (net : BayesNet α) (mode : Mode) (s : Sampler σ α) :
    s.prepare net mode = .ok (s.afterAll net mode (movesBefore net mode s.steps)) ∨
      mode = .search ∧ ∃ ms,
        agrees (s.afterAll net mode ms).logScore (net.score (s.afterAll net mode ms).world) = false ∧
        s.prepare net mode = .error (.drifted, s.afterAll net mode ms) := by
  unfold prepare movesBefore
  by_cases h0 : s.steps = 0
  · rw [if_pos h0, if_pos h0, afterAll_nil]
    exact .inl rfl
  · rw [if_neg h0, if_neg h0, afterAll_append]
    have hrestart : (if s.steps % restartSteps = 0 then s.restart net mode else s) =
        s.afterAll net mode (if s.steps % restartSteps = 0 then [.restart] else []) := by
      split <;> rfl
    -- a restart leaves the number of steps, by which the rest is decided
    have hsteps : (s.afterAll net mode (if s.steps % restartSteps = 0 then [.restart] else [])).steps
        = s.steps := by
      split
      · exact s.restart_steps mode net
      · rfl
    dsimp only
    rw [hrestart, hsteps]
    generalize (if s.steps % restartSteps = 0 then [Move.restart] else []) = first
    split
    · next hsearch =>
      rw [Bool.and_eq_true, beq_iff_eq] at hsearch
      rw [checkDrift_eq_ite, afterAll_append]
      by_cases hagrees : agrees ((s.afterAll net mode first).beforeResync net mode).logScore
          (net.score ((s.afterAll net mode first).beforeResync net mode).world)
      · exact .inl (if_pos hagrees)
      · have hchecked : (s.afterAll net mode first).beforeResync net mode = s.afterAll net mode
            (first ++ if net.hillClimb then net.adjustable.toList.map .climb else []) := by
          rw [afterAll_append]
          rfl
        refine .inr ⟨hsearch.1, _, ?_, (if_neg hagrees).trans (by rw [hchecked])⟩
        rw [← hchecked]
        exact Bool.eq_false_iff.2 hagrees
    · exact .inl rfl

/-- What comes before a step is a list of moves, if no check fails. -/
theorem prepare_eq {s : Sampler σ α} (hcheck : mode = .search → ∀ ms,
      agrees (s.afterAll net mode ms).logScore (net.score (s.afterAll net mode ms).world)) :
    s.prepare net mode = .ok (s.afterAll net mode (movesBefore net mode s.steps)) := by
  rcases s.prepare_cases net mode with h | ⟨hmode, ms, hno, -⟩
  · exact h
  · rw [hcheck hmode ms] at hno
    cases hno

/-- **Some steps are a list of moves**, if no check fails and there is a variable to choose. -/
theorem runSteps_eq (hadj : net.adjustable.isEmpty = false) {s : Sampler σ α}
    (hcheck : mode = .search → ∀ ms,
      agrees (s.afterAll net mode ms).logScore (net.score (s.afterAll net mode ms).world))
    (n : Nat) : s.runSteps net mode n = .ok (s.afterAll net mode (stepMoves net mode s.steps n)) := by
  induction n generalizing s with
  | zero => rfl
  | succ n ih =>
    have hsteps : (s.afterAll net mode (movesBefore net mode s.steps)).steps = s.steps := by
      rw [afterAll_steps, List.count_eq_zero.mpr (step_notMem_movesBefore net mode s.steps),
        Nat.add_zero]
    rw [runSteps, prepare_eq hcheck, stepMoves, afterAll_append, afterAll_cons]
    simp only [hadj, Bool.false_eq_true, if_false]
    have hnext := ih (s := (s.afterAll net mode (movesBefore net mode s.steps)).advance net mode)
      fun hmode ms => by
        have h := hcheck hmode (movesBefore net mode s.steps ++ .step :: ms)
        rwa [afterAll_append, afterAll_cons] at h
    rw [advance_steps, hsteps] at hnext
    exact hnext

/-- **A run makes its moves**, if no check fails and there is a variable to choose. -/
theorem run_eq (hadj : net.adjustable.isEmpty = false) {s : Sampler σ α}
    (hcheck : mode = .search → ∀ ms,
      agrees (s.afterAll net mode ms).logScore (net.score (s.afterAll net mode ms).world))
    (n : Nat) : s.run net mode n = .ok (s.afterAll net mode (runMoves net mode s.steps n)) := by
  rw [run, runSteps_eq hadj hcheck, runMoves, afterAll_append]
  rfl

/-- What does not fail is a list of moves. -/
theorem runSteps_ok {n : Nat} {s s' : Sampler σ α} (h : s.runSteps net mode n = .ok s') :
    s' = s.afterAll net mode (stepMoves net mode s.steps n) := by
  induction n generalizing s with
  | zero =>
    cases h
    rfl
  | succ n ih =>
    rw [runSteps] at h
    rcases s.prepare_cases net mode with hprepare | ⟨-, ms, -, hprepare⟩
    · rw [hprepare] at h
      dsimp only at h
      split at h
      · cases h
      · have hsteps : (s.afterAll net mode (movesBefore net mode s.steps)).steps = s.steps := by
          rw [afterAll_steps, List.count_eq_zero.mpr (step_notMem_movesBefore net mode s.steps),
            Nat.add_zero]
        have hrest := ih (s := (s.afterAll net mode (movesBefore net mode s.steps)).advance net mode) h
        rw [hrest, stepMoves, afterAll_append, afterAll_cons, advance_steps, hsteps]
        rfl
    · rw [hprepare] at h
      cases h

/-- **A run that does not fail has made its moves.** -/
theorem run_ok {n : Nat} {s s' : Sampler σ α} (h : s.run net mode n = .ok s') :
    s' = s.afterAll net mode (runMoves net mode s.steps n) := by
  unfold run at h
  cases hsteps : s.runSteps net mode n with
  | error e =>
    rw [hsteps] at h
    cases h
  | ok t =>
    rw [hsteps] at h
    cases h
    rw [runMoves, afterAll_append, ← runSteps_ok hsteps]
    rfl

/-- A run that estimates makes no check. -/
theorem run_estimate_eq (hadj : net.adjustable.isEmpty = false) (s : Sampler σ α) (n : Nat) :
    s.run net .estimate n = .ok (s.afterAll net .estimate (runMoves net .estimate s.steps n)) :=
  run_eq hadj (fun h => by cases h) n

end Run

end Sampler

end FactNet
