import Mathlib.Data.List.Nodup
import FactNet.Grounding.Build

/-!
# The variables of a network and their numbers

Grounding gives a number to every ground literal that it meets.  Numbers are places in a list
that only grows, and no literal is in it twice, so a literal keeps its number and two literals
never share one.  What a clause is registered as can therefore be read off the state that
grounding ends in.

## Main definitions

* `GroundState.numberOf` — the number of a literal.
* `GroundState.groundingOf` — what a clause is registered as.
* `GroundState.Grows` — the numbers that have been given stay.
* `GroundState.registerEach` — several clauses registered, each with its weight.

## Main results

* `GroundState.numberAll_spec` — literals are given their numbers.
* `GroundState.register_spec` — a clause is registered as what it should be.
* `GroundState.registerEach_spec` — **so are several clauses, by the numbers of the state they
  lead to.**
* `Registry.groundAll_eq` — everything is grounded by registering clauses.
-/

namespace FactNet

namespace GroundState

variable {α : Type} {s s' : GroundState α} {l : Literal}

/-- The number of a literal, negated or not. -/
def numberOf (s : GroundState α) (l : Literal) : Nat :=
  s.literals.toList.idxOf l.asTrue

/-- A literal has been given a number. -/
def Knows (s : GroundState α) (l : Literal) : Prop :=
  l.asTrue ∈ s.literals.toList

/-- No literal has two numbers. -/
def Distinct (s : GroundState α) : Prop :=
  s.literals.toList.Nodup

/-- The numbers that have been given stay. -/
def Grows (s s' : GroundState α) : Prop :=
  s.literals.toList <+: s'.literals.toList

theorem Grows.refl (s : GroundState α) : s.Grows s :=
  List.prefix_rfl

theorem Grows.trans {s'' : GroundState α} (h : s.Grows s') (h' : s'.Grows s'') : s.Grows s'' :=
  List.IsPrefix.trans h h'

theorem Grows.knows (h : s.Grows s') (hl : s.Knows l) : s'.Knows l :=
  List.IsPrefix.subset h hl

/-- A literal keeps its number. -/
theorem Grows.numberOf_eq (h : s.Grows s') (hl : s.Knows l) : s'.numberOf l = s.numberOf l := by
  obtain ⟨rest, hrest⟩ := h
  unfold numberOf
  rw [← hrest, List.idxOf_append_of_mem hl]

/-- The number of a literal is its place. -/
theorem getElem?_numberOf (hl : s.Knows l) : s.literals[s.numberOf l]? = some l.asTrue := by
  rw [← Array.getElem?_toList]
  exact List.getElem?_idxOf hl

/-- The number of a literal is found. -/
theorem idxOf?_asTrue (hs : s.Distinct) (hl : s.Knows l) :
    s.literals.idxOf? l.asTrue = some (s.numberOf l) := by
  have hlist : s.literals.idxOf? l.asTrue = s.literals.toList.idxOf? l.asTrue := by
    rw [← List.idxOf?_toArray, Array.toArray_toList]
  rw [hlist]
  cases hfound : s.literals.toList.idxOf? l.asTrue with
  | none => exact absurd hl (List.idxOf?_eq_none_iff.1 hfound)
  | some i =>
    obtain ⟨hi, hget, -⟩ := List.idxOf?_eq_some_iff.1 hfound
    rw [numberOf, ← hget, List.Nodup.idxOf_getElem hs i hi]

/-! ### Giving numbers -/

/-- What giving a number leaves. -/
theorem number_spec (hs : s.Distinct) (l : Literal) :
    s.Grows (s.number l).2 ∧ (s.number l).2.Distinct ∧ (s.number l).2.Knows l ∧
      (s.number l).1 = (s.number l).2.numberOf l ∧ (s.number l).2.groundings = s.groundings := by
  have hlist : s.literals.idxOf? l.asTrue = s.literals.toList.idxOf? l.asTrue := by
    rw [← List.idxOf?_toArray, Array.toArray_toList]
  unfold number
  rw [hlist]
  split
  · next i hi =>
    obtain ⟨hlt, hget, -⟩ := List.idxOf?_eq_some_iff.mp hi
    refine ⟨Grows.refl s, hs, ?_, ?_, rfl⟩
    · unfold Knows
      rw [← hget]
      exact List.getElem_mem hlt
    · unfold numberOf
      rw [← hget]
      exact (List.Nodup.idxOf_getElem hs i hlt).symm
  · next hnone =>
    have hnew : l.asTrue ∉ s.literals.toList := List.idxOf?_eq_none_iff.mp hnone
    refine ⟨?_, ?_, ?_, ?_, rfl⟩
    · unfold Grows
      rw [Array.toList_push]
      exact List.prefix_append _ _
    · unfold Distinct
      rw [Array.toList_push]
      exact List.nodup_append.mpr ⟨hs, List.nodup_singleton _, by
        rintro a ha b hb rfl
        exact hnew (List.mem_singleton.mp hb ▸ ha)⟩
    · unfold Knows
      rw [Array.toList_push]
      exact List.mem_append_right _ (List.mem_singleton_self _)
    · unfold numberOf
      rw [Array.toList_push, List.idxOf_append_of_notMem hnew]
      simp

/-- **Literals are given their numbers.** -/
theorem numberAll_spec (hs : s.Distinct) (ls : List Literal) :
    s.Grows (s.numberAll ls).2 ∧ (s.numberAll ls).2.Distinct ∧
      (∀ l ∈ ls, (s.numberAll ls).2.Knows l) ∧
      (s.numberAll ls).1 = ls.map (s.numberAll ls).2.numberOf ∧
      (s.numberAll ls).2.groundings = s.groundings := by
  induction ls generalizing s with
  | nil => exact ⟨Grows.refl s, hs, List.forall_mem_nil _, rfl, rfl⟩
  | cons l ls ih =>
    obtain ⟨hgrows, hdistinct, hknows, hnumber, hsame⟩ := number_spec hs l
    obtain ⟨hgrows', hdistinct', hknows', hnumbers, hsame'⟩ := ih hdistinct
    refine ⟨hgrows.trans hgrows', hdistinct', ?_, ?_, hsame'.trans hsame⟩
    · exact List.forall_mem_cons.mpr ⟨hgrows'.knows hknows, hknows'⟩
    · have hfirst : (s.number l).1 = ((s.number l).2.numberAll ls).2.numberOf l := by
        rw [hnumber, hgrows'.numberOf_eq hknows]
      exact congr (congrArg List.cons hfirst) hnumbers

/-- Literals beside their numbers. -/
theorem zip_map_numberOf (s : GroundState α) (ls : List Literal) :
    ls.zip (ls.map s.numberOf) = ls.map fun l => (l, s.numberOf l) := by
  have h : (ls.map id).zip (ls.map s.numberOf) = _ := List.zip_map'
  rwa [List.map_id] at h

/-! ### Registering clauses -/

section Register

variable [Scalar α] [Numeral α]

/-- What a clause is registered as: an implication between the variables of its literals, with its
weight as two log-probabilities.  A clause without positive literal is not registered. -/
def groundingOf (s : GroundState α) (ifTrue ifFalse : α) (clause : List Literal) :
    Option (GroundedRule α) :=
  (clause.filter (·.truth)).getLast?.map fun head =>
    { name := (Rule.mk (ifTrue - ifFalse) clause).text
      ifTrue := LogProb.clip ifTrue
      ifFalse := LogProb.clip ifFalse
      consequent := s.numberOf head
      antecedents := (clause.filter fun l => !l.truth).map s.numberOf }

/-- What a clause is registered as stays the same. -/
theorem Grows.groundingOf_eq (h : s.Grows s') {ifTrue ifFalse : α} {clause : List Literal}
    (hclause : ∀ l ∈ clause, s.Knows l) :
    s'.groundingOf ifTrue ifFalse clause = s.groundingOf ifTrue ifFalse clause := by
  have hbody : (clause.filter fun l => !l.truth).map s'.numberOf =
      (clause.filter fun l => !l.truth).map s.numberOf :=
    List.map_congr_left fun l hl => h.numberOf_eq (hclause l (List.mem_of_mem_filter hl))
  unfold groundingOf
  rw [hbody]
  refine Option.map_congr fun head hhead => ?_
  have hmem : head ∈ clause := List.mem_of_mem_filter (List.mem_of_getLast? hhead)
  rw [h.numberOf_eq (hclause head hmem)]

/-- Registering a clause numbers its literals and then adds what it is registered as. -/
theorem register_eq (hs : s.Distinct) (ifTrue ifFalse : α) (clause : List Literal) :
    (s.register ifTrue ifFalse clause).literals = (s.numberAll clause).2.literals ∧
      (s.register ifTrue ifFalse clause).groundings.toList = s.groundings.toList ++
        ((s.numberAll clause).2.groundingOf ifTrue ifFalse clause).toList := by
  obtain ⟨-, -, -, hnumbers, hsame⟩ := numberAll_spec hs clause
  have hpairs := zip_map_numberOf (s.numberAll clause).2 clause
  rw [← hnumbers] at hpairs
  unfold register groundingOf
  dsimp only
  rw [hpairs, List.filter_map, List.filter_map, List.getLast?_map, List.map_map]
  have hheads : clause.filter ((fun e : Literal × Nat => e.1.truth) ∘ fun l =>
      (l, (s.numberAll clause).2.numberOf l)) = clause.filter (·.truth) := rfl
  have hbody : clause.filter ((fun e : Literal × Nat => !e.1.truth) ∘ fun l =>
      (l, (s.numberAll clause).2.numberOf l)) = clause.filter fun l => !l.truth := rfl
  rw [hheads, hbody]
  cases (clause.filter (·.truth)).getLast? with
  | none => exact ⟨rfl, by simp [hsame]⟩
  | some head => exact ⟨rfl, by simp [hsame, Function.comp_def]⟩

/-- **A clause is registered as what it should be.** -/
theorem register_spec (hs : s.Distinct) (ifTrue ifFalse : α) (clause : List Literal) :
    s.Grows (s.register ifTrue ifFalse clause) ∧ (s.register ifTrue ifFalse clause).Distinct ∧
      (∀ l ∈ clause, (s.register ifTrue ifFalse clause).Knows l) ∧
      (s.register ifTrue ifFalse clause).groundings.toList = s.groundings.toList ++
        ((s.register ifTrue ifFalse clause).groundingOf ifTrue ifFalse clause).toList := by
  obtain ⟨hgrows, hdistinct, hknows, -⟩ := numberAll_spec hs clause
  obtain ⟨hliterals, hgroundings⟩ := register_eq hs ifTrue ifFalse clause
  have hsame : (s.numberAll clause).2.Grows (s.register ifTrue ifFalse clause) := by
    unfold Grows
    exact hliterals ▸ List.prefix_rfl
  refine ⟨hgrows.trans hsame, ?_, fun l hl => hsame.knows (hknows l hl), ?_⟩
  · unfold Distinct
    rwa [hliterals]
  · rw [hgroundings, hsame.groundingOf_eq hknows]

/-- A clause with its weight. -/
abbrev Weighted (α : Type) := α × List Literal

/-- Several clauses registered, each with its weight. -/
def registerEach (s : GroundState α) (clauses : List (Weighted α)) : GroundState α :=
  clauses.foldl (fun s c => s.register (LogProb.logSigmoid c.1) (LogProb.logSigmoid (-c.1)) c.2) s

/-- What a clause is registered as, given its weight. -/
def weightedGroundingOf (s : GroundState α) (c : Weighted α) : Option (GroundedRule α) :=
  s.groundingOf (LogProb.logSigmoid c.1) (LogProb.logSigmoid (-c.1)) c.2

theorem registerEach_cons (s : GroundState α) (c : Weighted α) (cs : List (Weighted α)) :
    s.registerEach (c :: cs) =
      (s.register (LogProb.logSigmoid c.1) (LogProb.logSigmoid (-c.1)) c.2).registerEach cs := rfl

theorem registerEach_append (s : GroundState α) (cs ds : List (Weighted α)) :
    s.registerEach (cs ++ ds) = (s.registerEach cs).registerEach ds :=
  List.foldl_append

theorem registerAll_eq (s : GroundState α) (weight : α) (clauses : List (List Literal)) :
    s.registerAll weight clauses = s.registerEach (clauses.map fun clause => (weight, clause)) := by
  unfold registerAll registerEach
  rw [List.foldl_map]

/-- **Clauses are registered as what they should be**, by the numbers of the state they lead to. -/
theorem registerEach_spec (hs : s.Distinct) (cs : List (Weighted α)) :
    s.Grows (s.registerEach cs) ∧ (s.registerEach cs).Distinct ∧
      (∀ c ∈ cs, ∀ l ∈ c.2, (s.registerEach cs).Knows l) ∧
      (s.registerEach cs).groundings.toList =
        s.groundings.toList ++ cs.filterMap (s.registerEach cs).weightedGroundingOf := by
  induction cs generalizing s with
  | nil => exact ⟨Grows.refl s, hs, List.forall_mem_nil _, (List.append_nil _).symm⟩
  | cons c cs ih =>
    obtain ⟨hgrows, hdistinct, hknows, hgroundings⟩ :=
      register_spec hs (LogProb.logSigmoid c.1) (LogProb.logSigmoid (-c.1)) c.2
    obtain ⟨hgrows', hdistinct', hknows', hgroundings'⟩ := ih hdistinct
    rw [registerEach_cons]
    refine ⟨hgrows.trans hgrows', hdistinct', ?_, ?_⟩
    · exact List.forall_mem_cons.mpr ⟨fun l hl => hgrows'.knows (hknows l hl), hknows'⟩
    · rw [hgroundings', hgroundings, ← hgrows'.groundingOf_eq hknows, List.append_assoc,
        List.filterMap_cons]
      refine congrArg (s.groundings.toList ++ ·) ?_
      unfold weightedGroundingOf
      split
      · next hnone => rw [hnone, Option.toList_none, List.nil_append]
      · next hsome => rw [hsome, Option.toList_some, List.singleton_append]

end Register

end GroundState

namespace Registry

variable {α : Type} [Scalar α] [Numeral α]

open GroundState

/-- The ground clauses of one literal. -/
def groundUnits (r : Registry α) : List (Weighted α) :=
  (r.units.filter fun u => u.1.isGround).map fun u => (u.2, [u.1])

/-- The instances of a rule with its weight. -/
def weightedInstances (r : Registry α) (rule : Rule α) : List (Weighted α) :=
  (instances r rule).1.map fun clause => (rule.weight, clause)

/-- The ground clauses of one literal are registered. -/
theorem foldl_units (r : Registry α) (s : GroundState α) :
    (r.units.filter fun u => u.1.isGround).foldl (fun s u => s.registerAll u.2 [[u.1]]) s =
      s.registerEach r.groundUnits := by
  unfold groundUnits registerEach
  rw [List.foldl_map]
  rfl

/-- The instances of rules are registered. -/
theorem foldl_groundRule (r : Registry α) (rules : List (Rule α)) (s : GroundState α)
    (notes : List GroundNote) :
    (rules.foldl (groundRule r) (s, notes)).1 =
      s.registerEach (rules.flatMap r.weightedInstances) := by
  induction rules generalizing s notes with
  | nil => rfl
  | cons rule rules ih =>
    rw [List.foldl_cons, List.flatMap_cons, registerEach_append, weightedInstances,
      ← registerAll_eq]
    exact ih _ _

/-- Clauses of one literal with variables are registered as clauses of one literal. -/
theorem exists_foldl_groundDeferred (units : List (Literal × α)) (s : GroundState α) :
    ∃ deferred : List (Weighted α), (∀ c ∈ deferred, c.2.length = 1) ∧
      units.foldl groundDeferred s = s.registerEach deferred := by
  induction units generalizing s with
  | nil => exact ⟨[], List.forall_mem_nil _, rfl⟩
  | cons u units ih =>
    obtain ⟨deferred, hunit, heq⟩ := ih (groundDeferred s u)
    refine ⟨((s.literals.toList.filter u.1.covers).map fun v => (u.2, [v])) ++ deferred,
      fun c hc => ?_, ?_⟩
    · rcases List.mem_append.mp hc with hc | hc
      · obtain ⟨v, -, rfl⟩ := List.mem_map.mp hc
        rfl
      · exact hunit c hc
    · rw [List.foldl_cons, heq, registerEach_append, groundDeferred, registerAll_eq, List.map_map]
      rfl

/-- **Everything is grounded by registering clauses**: the ground clauses of one literal, the
instances of the longer rules, and last clauses of one literal again. -/
theorem groundAll_eq (r : Registry α) : ∃ deferred : List (Weighted α),
    (∀ c ∈ deferred, c.2.length = 1) ∧
      r.groundAll.1 = (GroundState.numberAll {} r.evidence).2.registerEach
        (r.groundUnits ++ r.longRules.flatMap r.weightedInstances ++ deferred) := by
  have hrules := foldl_groundRule r r.longRules
    ((GroundState.numberAll {} r.evidence).2.registerEach r.groundUnits) []
  obtain ⟨deferred, hunit, heq⟩ := exists_foldl_groundDeferred
    (r.units.filter fun u => !u.1.isGround)
    (((GroundState.numberAll {} r.evidence).2.registerEach r.groundUnits).registerEach
      (r.longRules.flatMap r.weightedInstances))
  refine ⟨deferred, hunit, ?_⟩
  rw [registerEach_append, registerEach_append, ← heq, ← hrules, ← foldl_units]
  rfl

end Registry

end FactNet
