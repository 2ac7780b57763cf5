import FactNet.Factor.Cache
import FactNet.Proofs.Factor.Pattern

/-!
# Tables that are shared

Several askers may use one table that remembers its entries, and their steps may be mixed in any
way: between looking an entry up and remembering it, another asker may have remembered one.  What
is remembered for a pattern is the entry of every valuation with that pattern, so it does not
matter who remembered it, and every asker gets the answer that the table gives without a memory.

## Main definitions

* `Asker`, `Asker.step` — an asker and its two steps.
* `Sharing`, `Sharing.run` — askers of one table taking steps as a schedule says.
* `RuleTable.answer` — the answer of a table that remembers nothing.

## Main results

* `TableCache.logProb?_eq_steps` — asking alone is taking the two steps one after the other.
* `Sharing.step_sound`, `Sharing.run_sound` — **every answer is that of a table that remembers
  nothing**, after a step and after a run.
* `Sharing.answered_of_count` — an asker that takes two steps has its answer.
-/

namespace FactNet

variable {α : Type} [Scalar α]

/-! ### Answers -/

/-- The log-probability of the value of the consequent, by the entry for the antecedents. -/
def RuleTable.reply (t : RuleTable α) (w : World) (x : α) : Except EvalFault α :=
  match w.value? t.consequent with
  | .error e => .error e
  | .ok b => .ok (if b then x else LogProb.complement x)

/-- The answer of a table that remembers nothing. -/
def RuleTable.answer (t : RuleTable α) (w : World) : Except EvalFault α :=
  match t.readKey w with
  | .error e => .error e
  | .ok _ =>
    if t.entryOverflows w.value then .error .overflow else t.reply w (t.entry w.value)

/-- What an asker of a shared table has come to. -/
inductive Asker (α : Type) where
  /-- It has a world to ask for. -/
  | waiting (w : World)
  /-- It found no entry and has computed one, which it did not yet have remembered. -/
  | missed (w : World) (bits : Nat) (x : α)
  /-- It has its answer. -/
  | answered (w : World) (answer : Except EvalFault α)

namespace Asker

/-- The world that is asked for. -/
def world : Asker α → World
  | waiting w => w
  | missed w _ _ => w
  | answered w _ => w

/-- How many steps are left at most. -/
def stepsLeft : Asker α → Nat
  | waiting _ => 2
  | missed _ _ _ => 1
  | answered _ _ => 0

/-- The next step of an asker: to look the entry up and to compute it if there is none, and then to
have it remembered. -/
def step (c : TableCache α) : Asker α → Asker α × TableCache α
  | waiting w =>
    match c.table.readKey w with
    | .error e => (answered w (.error e), c)
    | .ok bits =>
      match c.lookup? bits with
      | some x => (answered w (c.table.reply w x), c)
      | none =>
        if c.table.entryOverflows w.value then (answered w (.error .overflow), c)
        else (missed w bits (c.table.entry w.value), c)
  | missed w bits x =>
    let (y, c) := c.remember bits x
    (answered w (c.table.reply w y), c)
  | answered w answer => (answered w answer, c)

end Asker

omit [Scalar α] in
theorem TableCache.table_remember (c : TableCache α) (bits : Nat) (x : α) :
    (c.remember bits x).2.table = c.table := by
  unfold remember
  split <;> rfl

/-- **What the first step of an asker comes to**: a fault, an entry that is remembered, or one that
it computed. -/
theorem Asker.step_waiting (c : TableCache α) (w : World) :
    (∃ e, c.table.readKey w = .error e ∧ (waiting w).step c = (answered w (.error e), c)) ∨
    ∃ bits, c.table.readKey w = .ok bits ∧
      ((∃ x, c.lookup? bits = some x ∧
          (waiting w).step c = (answered w (c.table.reply w x), c)) ∨
        c.lookup? bits = none ∧
          ((c.table.entryOverflows w.value = true ∧
              (waiting w).step c = (answered w (.error .overflow), c)) ∨
            c.table.entryOverflows w.value = false ∧
              (waiting w).step c = (missed w bits (c.table.entry w.value), c))) := by
  cases hkey : c.table.readKey w with
  | error e => exact .inl ⟨e, rfl, by simp [step, hkey]⟩
  | ok bits =>
    refine .inr ⟨bits, rfl, ?_⟩
    cases hfound : c.lookup? bits with
    | some x => exact .inl ⟨x, rfl, by simp [step, hkey, hfound]⟩
    | none =>
      refine .inr ⟨rfl, ?_⟩
      cases hover : c.table.entryOverflows w.value with
      | true => exact .inl ⟨rfl, by simp [step, hkey, hfound, hover]⟩
      | false => exact .inr ⟨rfl, by simp [step, hkey, hfound, hover]⟩

theorem Asker.step_missed (c : TableCache α) (w : World) (bits : Nat) (x : α) :
    (missed w bits x).step c =
      (answered w (c.table.reply w (c.remember bits x).1), (c.remember bits x).2) := by
  rw [step, ← c.table_remember bits x]

/-- **Asking alone is taking the two steps one after the other.** -/
theorem TableCache.logProb?_eq_steps (c : TableCache α) (w : World) :
    ((Asker.waiting w).step c).1.step ((Asker.waiting w).step c).2 =
      (.answered w (c.logProb? w).1, (c.logProb? w).2) := by
  obtain ⟨e, hkey, hstep⟩ | ⟨bits, hkey, h⟩ := Asker.step_waiting c w
  · rw [hstep]
    simp [Asker.step, logProb?, entry?, hkey]
  · obtain ⟨x, hfound, hstep⟩ | ⟨hnone, ⟨hover, hstep⟩ | ⟨hover, hstep⟩⟩ := h
    · rw [hstep]
      cases hb : w.value? c.table.consequent <;>
        simp [Asker.step, logProb?, entry?, hkey, hfound, RuleTable.reply, hb]
    · rw [hstep]
      simp [Asker.step, logProb?, entry?, hkey, hnone, hover]
    · rw [hstep, Asker.step_missed]
      have htable := c.table_remember bits (c.table.entry w.value)
      cases hb : w.value? c.table.consequent <;>
        simp [logProb?, entry?, hkey, hnone, hover, RuleTable.reply, hb, htable]

/-! ### What is remembered -/

/-- A cache is sound for its table when every remembered entry is that of all valuations with its
pattern. -/
def TableCache.Sound (c : TableCache α) : Prop :=
  ∀ bits x, (bits, x) ∈ c.entries → ∀ v, c.table.key v = bits →
    c.table.entryOverflows v = false ∧ c.table.entry v = x

/-- The patterns of valuations of a table tell its entries. -/
def RuleTable.KeyTells (t : RuleTable α) : Prop :=
  ∀ v v', t.key v = t.key v' →
    t.entry v = t.entry v' ∧ t.entryOverflows v = t.entryOverflows v'

theorem RuleTable.keyTells_of_ofRules {rules : List (GroundedRule α)} {m : MergeMethod} {d : α}
    {t : RuleTable α} (h : ofRules rules m d = .ok t) : t.KeyTells := by
  intro v v' hkey
  have hactive := active_eq_of_key_eq h hkey
  exact ⟨by rw [entry, entry, hactive], by rw [entryOverflows, entryOverflows, hactive]⟩

omit [Scalar α] in
theorem RuleTable.readKey_eq_ok {t : RuleTable α} {w : World} {bits : Nat}
    (h : t.readKey w = .ok bits) : bits = t.key w.value := by
  unfold readKey at h
  split at h
  · exact (Except.ok.inj h).symm
  · exact absurd h (by simp)

omit [Scalar α] in
theorem TableCache.mem_of_lookup? {c : TableCache α} {bits : Nat} {x : α}
    (h : c.lookup? bits = some x) : (bits, x) ∈ c.entries := by
  obtain ⟨e, he, rfl⟩ := Option.map_eq_some_iff.1 h
  have hbits : e.1 = bits := by simpa using List.find?_some he
  rw [← hbits]
  exact List.mem_of_find?_eq_some he

theorem TableCache.Sound.remember {c : TableCache α} (h : c.Sound) (htells : c.table.KeyTells)
    {v : Valuation} (hover : c.table.entryOverflows v = false) :
    (c.remember (c.table.key v) (c.table.entry v)).1 = c.table.entry v ∧
      (c.remember (c.table.key v) (c.table.entry v)).2.Sound := by
  unfold TableCache.remember
  cases hfound : c.lookup? (c.table.key v) with
  | some y => exact ⟨((h _ y (mem_of_lookup? hfound) v rfl).2).symm, h⟩
  | none =>
    refine ⟨rfl, fun bits x hmem v' hkey => ?_⟩
    rcases List.mem_cons.1 hmem with heq | hmem
    · obtain ⟨rfl, rfl⟩ := Prod.mk.inj heq
      have ⟨hentry, hsame⟩ := htells v' v hkey
      exact ⟨hsame.trans hover, hentry⟩
    · exact h bits x hmem v' hkey

/-! ### Steps -/

/-- What an asker has come to is what the table says: the entry it computed is the one for its
world, and its answer is that of a table that remembers nothing. -/
def Asker.Sound (t : RuleTable α) : Asker α → Prop
  | .waiting _ => True
  | .missed w bits x => (∃ k, t.readKey w = .ok k) ∧ bits = t.key w.value ∧
      x = t.entry w.value ∧ t.entryOverflows w.value = false
  | .answered w answer => answer = t.answer w

/-- A step asks for the same world, of the same table, and leaves one step less to take. -/
theorem Asker.step_world (c : TableCache α) (a : Asker α) :
    (a.step c).1.world = a.world ∧ (a.step c).2.table = c.table ∧
      (a.step c).1.stepsLeft ≤ a.stepsLeft - 1 := by
  cases a with
  | answered w answer => exact ⟨rfl, rfl, Nat.le_refl _⟩
  | missed w bits x =>
    rw [step_missed]
    exact ⟨rfl, c.table_remember bits x, Nat.le_refl _⟩
  | waiting w =>
    obtain ⟨e, -, hstep⟩ | ⟨bits, -, ⟨x, -, hstep⟩ | ⟨-, ⟨-, hstep⟩ | ⟨-, hstep⟩⟩⟩ :=
      step_waiting c w
    all_goals
      rw [hstep]
      exact ⟨rfl, rfl, by simp [stepsLeft]⟩

/-- **A step keeps the cache and the asker sound.** -/
theorem Asker.step_sound {c : TableCache α} (hc : c.Sound) (htells : c.table.KeyTells)
    {a : Asker α} (ha : a.Sound c.table) :
    (a.step c).1.Sound c.table ∧ (a.step c).2.Sound := by
  cases a with
  | answered w answer => exact ⟨ha, hc⟩
  | missed w bits x =>
    obtain ⟨⟨k, hk⟩, rfl, rfl, hover⟩ := ha
    obtain ⟨hfirst, hsound⟩ := hc.remember htells hover
    rw [step_missed, hfirst]
    refine ⟨?_, hsound⟩
    show _ = c.table.answer w
    rw [RuleTable.answer, hk]
    simp [hover]
  | waiting w =>
    -- the key is refused; or it is found, overflows, or has its entry computed
    obtain ⟨e, hkey, hstep⟩ | ⟨bits, hkey, h⟩ := step_waiting c w
    · rw [hstep]
      refine ⟨?_, hc⟩
      show _ = c.table.answer w
      rw [RuleTable.answer, hkey]
    · have hbits := RuleTable.readKey_eq_ok hkey
      obtain ⟨x, hfound, hstep⟩ | ⟨hnone, ⟨hover, hstep⟩ | ⟨hover, hstep⟩⟩ := h
      · obtain ⟨hover, rfl⟩ := hc bits x (TableCache.mem_of_lookup? hfound) w.value hbits.symm
        rw [hstep]
        refine ⟨?_, hc⟩
        show _ = c.table.answer w
        rw [RuleTable.answer, hkey]
        simp [hover]
      · rw [hstep]
        refine ⟨?_, hc⟩
        show _ = c.table.answer w
        rw [RuleTable.answer, hkey]
        simp [hover]
      · rw [hstep]
        exact ⟨⟨⟨bits, hkey⟩, hbits, rfl, hover⟩, hc⟩

/-! ### Runs -/

/-- A table that is shared by some askers. -/
structure Sharing (α : Type) where
  /-- The table with what it remembers. -/
  cache : TableCache α
  /-- The askers. -/
  askers : List (Asker α)

namespace Sharing

/-- Askers of a table that remembers nothing yet. -/
def start (t : RuleTable α) (worlds : List World) : Sharing α :=
  ⟨⟨t, []⟩, worlds.map .waiting⟩

/-- One asker takes its next step. -/
def step (s : Sharing α) (i : Nat) : Sharing α :=
  match s.askers[i]? with
  | none => s
  | some a => ⟨(a.step s.cache).2, s.askers.set i (a.step s.cache).1⟩

/-- The askers take steps in the order of a schedule. -/
def run (s : Sharing α) (schedule : List Nat) : Sharing α := schedule.foldl step s

/-- The cache and all askers are sound for a table. -/
structure Sound (s : Sharing α) (t : RuleTable α) (worlds : List World) : Prop where
  /-- It is the table that is shared. -/
  table : s.cache.table = t
  /-- What is remembered is right. -/
  cache : s.cache.Sound
  /-- What each asker has come to is right. -/
  askers : ∀ a ∈ s.askers, a.Sound t
  /-- Each asker asks for its own world. -/
  worlds : s.askers.map Asker.world = worlds

omit [Scalar α] in
theorem start_sound [Scalar α] (t : RuleTable α) (worlds : List World) :
    (start t worlds).Sound t worlds where
  table := rfl
  cache := fun _ _ hmem => absurd hmem (by simp [start])
  askers := by
    intro a ha
    obtain ⟨w, -, rfl⟩ := List.mem_map.1 ha
    trivial
  worlds := by
    rw [start, List.map_map]
    exact List.map_id _

/-- **A step keeps the whole sound.** -/
theorem Sound.step {s : Sharing α} {t : RuleTable α} {worlds : List World}
    (h : s.Sound t worlds) (htells : t.KeyTells) (i : Nat) : (s.step i).Sound t worlds := by
  unfold Sharing.step
  cases ha : s.askers[i]? with
  | none => exact h
  | some a =>
    have htable := h.table
    subst htable
    have hmem := List.mem_of_getElem? ha
    obtain ⟨hasker, hcache⟩ := Asker.step_sound h.cache htells (h.askers a hmem)
    obtain ⟨hworld, htable, -⟩ := a.step_world s.cache
    refine ⟨htable, hcache, fun b hb => ?_, ?_⟩
    · rcases List.mem_or_eq_of_mem_set hb with hb | rfl
      · exact h.askers b hb
      · exact hasker
    · have hplace : worlds[i]? = some a.world := by
        rw [← h.worlds, List.getElem?_map, ha]
        rfl
      obtain ⟨hi, hget⟩ := List.getElem?_eq_some_iff.1 hplace
      rw [List.map_set, hworld, h.worlds, ← hget, List.set_getElem_self]

/-- **A run keeps the whole sound.** -/
theorem Sound.run {s : Sharing α} {t : RuleTable α} {worlds : List World}
    (h : s.Sound t worlds) (htells : t.KeyTells) (schedule : List Nat) :
    (s.run schedule).Sound t worlds := by
  induction schedule generalizing s with
  | nil => exact h
  | cons i schedule ih => exact ih (h.step htells i)

/-- An asker that has come up `n` times in a schedule has taken `n` of the steps it had left. -/
theorem stepsLeft_run (s : Sharing α) (schedule : List Nat) {i : Nat} {a : Asker α}
    (ha : s.askers[i]? = some a) : ∃ a', (s.run schedule).askers[i]? = some a' ∧
      a'.stepsLeft ≤ a.stepsLeft - schedule.count i := by
  induction schedule generalizing s a with
  | nil => exact ⟨a, ha, Nat.le_refl _⟩
  | cons j schedule ih =>
    obtain ⟨hi, -⟩ := List.getElem?_eq_some_iff.1 ha
    by_cases hj : j = i
    · subst hj
      have hstep : (s.step j).askers[j]? = some (a.step s.cache).1 := by
        unfold step
        rw [ha]
        exact List.getElem?_set_self hi
      obtain ⟨a', ha', hleft⟩ := ih _ hstep
      have := (a.step_world s.cache).2.2
      refine ⟨a', ha', ?_⟩
      rw [List.count_cons_self]
      omega
    · have hstep : (s.step j).askers[i]? = some a := by
        unfold step
        split
        · exact ha
        · rw [List.getElem?_set_ne hj, ha]
      obtain ⟨a', ha', hleft⟩ := ih _ hstep
      exact ⟨a', ha', by rwa [List.count_cons_of_ne hj]⟩

/-- **Every asker that takes two steps has its answer, and every answer is that of a table that
remembers nothing**, in whatever order the askers of a new table take their steps. -/
theorem answers_of_run {t : RuleTable α} (htells : t.KeyTells) (worlds : List World)
    (schedule : List Nat) :
    (∀ (i : Nat) w answer, ((start t worlds).run schedule).askers[i]? = some (Asker.answered w answer) →
      worlds[i]? = some w ∧ answer = t.answer w) ∧
    ∀ (i : Nat) w, worlds[i]? = some w → 2 ≤ schedule.count i →
      ((start t worlds).run schedule).askers[i]? = some (.answered w (t.answer w)) := by
  have hsound := (start_sound t worlds).run htells schedule
  have hanswer : ∀ (i : Nat) w answer,
      ((start t worlds).run schedule).askers[i]? = some (Asker.answered w answer) →
      worlds[i]? = some w ∧ answer = t.answer w := by
    intro i w answer hi
    refine ⟨?_, hsound.askers _ (List.mem_of_getElem? hi)⟩
    rw [← hsound.worlds, List.getElem?_map, hi]
    rfl
  refine ⟨hanswer, fun i w hi hcount => ?_⟩
  have hstart : (start t worlds).askers[i]? = some (.waiting w) := by
    rw [start, List.getElem?_map, hi]
    rfl
  -- after two steps of its own an asker has none left
  obtain ⟨a, ha, hleft⟩ := stepsLeft_run _ schedule hstart
  have hzero : a.stepsLeft = 0 := by
    have : (Asker.waiting w : Asker α).stepsLeft = 2 := rfl
    omega
  cases a with
  | waiting w' => exact absurd hzero (by simp [Asker.stepsLeft])
  | missed w' bits x => exact absurd hzero (by simp [Asker.stepsLeft])
  | answered w' answer =>
    obtain ⟨hworld, rfl⟩ := hanswer i w' answer ha
    obtain rfl : w = w' := Option.some.inj (hi.symm.trans hworld)
    exact ha

end Sharing

end FactNet
