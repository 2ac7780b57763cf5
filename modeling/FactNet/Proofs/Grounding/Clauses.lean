import FactNet.Proofs.Distinct
import FactNet.Proofs.Grounding.Numbering

/-!
# The clauses of a registry

What grounding registers can be written out beforehand: the ground clauses of one literal, the
instances of the longer rules, and last the clauses of one literal with variables, one for each
variable of the network that they cover.  The last ones meet no literal that has not been met
before, so the variables of the network are the literals that the evidence and the other
clauses mention, each at the place where it is mentioned first.

## Main definitions

* `Registry.mentioned` — the literals of the evidence and of the clauses.
* `Registry.clauses` — all clauses in the order in which they are registered.

## Main results

* `Registry.literals_groundAll` — **the variables are the literals that are mentioned.**
* `Registry.groundings_groundAll` — **what is registered are the clauses.**
-/

namespace FactNet

namespace GroundState

variable {α : Type} {s : GroundState α}

/-- A literal is numbered by its place among those that have been met. -/
theorem literals_number (hs : s.Distinct) (l : Literal) :
    (s.number l).2.literals.toList = (s.literals.toList ++ [l.asTrue]).eraseDups := by
  have hlist : s.literals.idxOf? l.asTrue = s.literals.toList.idxOf? l.asTrue := by
    rw [← List.idxOf?_toArray, Array.toArray_toList]
  unfold number
  rw [hlist, eraseDups_concat, eraseDups_eq_self hs]
  cases hplace : s.literals.toList.idxOf? l.asTrue with
  | none => rw [if_neg (List.idxOf?_eq_none_iff.1 hplace), Array.toList_push]
  | some i =>
    obtain ⟨hi, hget, -⟩ := List.idxOf?_eq_some_iff.1 hplace
    rw [if_pos (hget ▸ List.getElem_mem hi)]

theorem literals_numberAll (hs : s.Distinct) (ls : List Literal) :
    (s.numberAll ls).2.literals.toList =
      (s.literals.toList ++ ls.map Literal.asTrue).eraseDups := by
  induction ls generalizing s with
  | nil =>
    rw [List.map_nil, List.append_nil, eraseDups_eq_self hs]
    rfl
  | cons l ls ih =>
    have hstep := ih (number_spec hs l).2.1
    rw [literals_number hs l, eraseDups_append_left, List.append_assoc] at hstep
    exact hstep

variable [Scalar α] [Numeral α]

/-- Registering clauses meets their literals. -/
theorem literals_registerEach (hs : s.Distinct) (cs : List (Weighted α)) :
    (s.registerEach cs).literals.toList =
      (s.literals.toList ++ cs.flatMap fun c => c.2.map Literal.asTrue).eraseDups := by
  induction cs generalizing s with
  | nil =>
    rw [List.flatMap_nil, List.append_nil, eraseDups_eq_self hs]
    rfl
  | cons c cs ih =>
    have hregister := (register_eq hs (LogProb.logSigmoid c.1) (LogProb.logSigmoid (-c.1)) c.2).1
    rw [registerEach_cons, ih (register_spec hs _ _ c.2).2.1, hregister, literals_numberAll hs c.2,
      eraseDups_append_left, List.append_assoc, List.flatMap_cons]

end GroundState

namespace Registry

variable {α : Type}

/-- The clauses that a clause of one literal stands for, given the variables there are. -/
def covered (known : List Literal) (unit : Literal × α) : List (GroundState.Weighted α) :=
  (known.filter unit.1.covers).map fun v => (unit.2, [v])

variable [Scalar α] [Numeral α]

open GroundState

/-- The clauses of one literal with variables. -/
def templates (r : Registry α) : List (Literal × α) :=
  r.units.filter fun u => !u.1.isGround

/-- The ground clauses of one literal and the instances of the longer rules. -/
def firstClauses (r : Registry α) : List (Weighted α) :=
  r.groundUnits ++ r.longRules.flatMap r.weightedInstances

/-- The literals of the evidence and of the clauses, none of them negated. -/
def mentioned (r : Registry α) : List Literal :=
  r.evidence.map Literal.asTrue ++ r.firstClauses.flatMap fun c => c.2.map Literal.asTrue

/-- All clauses in the order in which they are registered. -/
def clauses (r : Registry α) : List (Weighted α) :=
  r.firstClauses ++ r.templates.flatMap (covered r.mentioned.eraseDups)

omit [Scalar α] [Numeral α] in
/-- The clauses of one literal that stand for variables meet no other literal. -/
theorem subset_of_covered {known : List Literal} (hknown : ∀ l ∈ known, l.asTrue = l)
    (units : List (Literal × α)) :
    (units.flatMap (covered known)).flatMap (fun c => c.2.map Literal.asTrue) ⊆ known := by
  intro l hl
  obtain ⟨c, hc, hl⟩ := List.mem_flatMap.1 hl
  obtain ⟨u, -, hc⟩ := List.mem_flatMap.1 hc
  obtain ⟨v, hv, rfl⟩ := List.mem_map.1 hc
  have hmem : v ∈ known := List.mem_of_mem_filter hv
  obtain rfl : l = v := by simpa [hknown v hmem] using hl
  exact hmem

/-- Clauses of one literal with variables are applied to the variables met before them. -/
theorem foldl_groundDeferred (units : List (Literal × α)) {s : GroundState α} (hs : s.Distinct)
    (hknown : ∀ l ∈ s.literals.toList, l.asTrue = l) :
    units.foldl groundDeferred s = s.registerEach (units.flatMap (covered s.literals.toList)) := by
  induction units generalizing s with
  | nil => rfl
  | cons u units ih =>
    have hfirst : groundDeferred s u = s.registerEach (covered s.literals.toList u) := by
      rw [groundDeferred, registerAll_eq, List.map_map]
      rfl
    have hsame : (groundDeferred s u).literals.toList = s.literals.toList := by
      have hsubset := subset_of_covered hknown [u]
      rw [List.flatMap_singleton] at hsubset
      rw [hfirst, literals_registerEach hs, eraseDups_eq_firsts, firsts_append_of_subset hsubset,
        ← eraseDups_eq_firsts, eraseDups_eq_self hs]
    have hdistinct : (groundDeferred s u).Distinct := by
      rw [hfirst]
      exact (registerEach_spec hs _).2.1
    rw [List.foldl_cons, ih hdistinct (by rwa [hsame]), hsame, hfirst, List.flatMap_cons,
      registerEach_append]

theorem asTrue_of_mem_mentioned {r : Registry α} {l : Literal} (h : l ∈ r.mentioned) :
    l.asTrue = l := by
  rcases List.mem_append.1 h with h | h
  · obtain ⟨k, -, rfl⟩ := List.mem_map.1 h
    rfl
  · obtain ⟨c, -, h⟩ := List.mem_flatMap.1 h
    obtain ⟨k, -, rfl⟩ := List.mem_map.1 h
    rfl

omit [Scalar α] [Numeral α] in
/-- The literals of the evidence are numbered first. -/
theorem literals_evidence (r : Registry α) :
    (GroundState.numberAll ({} : GroundState α) r.evidence).2.Distinct ∧
      (GroundState.numberAll ({} : GroundState α) r.evidence).2.literals.toList =
        (r.evidence.map Literal.asTrue).eraseDups :=
  ⟨(numberAll_spec (s := ({} : GroundState α)) List.nodup_nil r.evidence).2.1,
    literals_numberAll (s := ({} : GroundState α)) List.nodup_nil r.evidence⟩

/-- Grounding registers the clauses. -/
theorem groundAll_eq_registerEach (r : Registry α) :
    r.groundAll.1 = (GroundState.numberAll {} r.evidence).2.registerEach r.clauses := by
  obtain ⟨hdistinct, hevidence⟩ := r.literals_evidence
  generalize hs : (GroundState.numberAll ({} : GroundState α) r.evidence).2 = s at *
  have hfirst : (s.registerEach r.firstClauses).literals.toList = r.mentioned.eraseDups := by
    rw [literals_registerEach hdistinct, hevidence, eraseDups_append_left]
    rfl
  have hknown : ∀ l ∈ (s.registerEach r.firstClauses).literals.toList, l.asTrue = l := by
    intro l hl
    rw [hfirst] at hl
    exact asTrue_of_mem_mentioned (List.mem_eraseDups.1 hl)
  have hrules := foldl_groundRule r r.longRules (s.registerEach r.groundUnits) []
  have hstep := foldl_groundDeferred r.templates (registerEach_spec hdistinct _).2.1 hknown
  rw [hfirst, ← registerEach_append, firstClauses, registerEach_append, ← hrules] at hstep
  rw [clauses, firstClauses, ← hstep, ← foldl_units, ← hs]
  rfl

/-- **The variables of a network are the literals that are mentioned**, each once. -/
theorem literals_groundAll (r : Registry α) :
    r.groundAll.1.literals.toList = r.mentioned.eraseDups := by
  obtain ⟨hdistinct, hevidence⟩ := r.literals_evidence
  have hsubset : (r.templates.flatMap (covered r.mentioned.eraseDups)).flatMap
      (fun c => c.2.map Literal.asTrue) ⊆ r.mentioned := fun l hl =>
    List.mem_eraseDups.1 <| subset_of_covered
      (fun k hk => asTrue_of_mem_mentioned (List.mem_eraseDups.1 hk)) r.templates hl
  rw [groundAll_eq_registerEach, literals_registerEach hdistinct, hevidence, eraseDups_append_left,
    clauses, List.flatMap_append, ← List.append_assoc, ← mentioned, eraseDups_eq_firsts,
    firsts_append_of_subset hsubset, eraseDups_eq_firsts]

/-- **What is registered are the clauses**, by the numbers of the literals that are mentioned. -/
theorem groundings_groundAll (r : Registry α) :
    r.groundAll.1.Distinct ∧ (∀ c ∈ r.clauses, ∀ l ∈ c.2, r.groundAll.1.Knows l) ∧
      r.groundAll.1.groundings.toList = r.clauses.filterMap r.groundAll.1.weightedGroundingOf := by
  obtain ⟨-, hdistinct, -, -, hsame⟩ :=
    numberAll_spec (s := ({} : GroundState α)) List.nodup_nil r.evidence
  obtain ⟨-, hdistinct', hknows, hgroundings⟩ := registerEach_spec hdistinct r.clauses
  rw [← groundAll_eq_registerEach] at hdistinct' hknows hgroundings
  rw [hsame] at hgroundings
  exact ⟨hdistinct', hknows, hgroundings⟩

end Registry

end FactNet
