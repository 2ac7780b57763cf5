import FactNet.Proofs.Grounding.Instances
import FactNet.Proofs.Grounding.Numbering

/-!
# What is registered for a rule

Building a network registers clauses, and those it registers for a rule of several literals are
its instances.  So for every history they are what the substitutions make of the rule that
ground it, each of them once for every way to read its closed literals in the evidence, and each
registered as the implication between the variables of its literals.

## Main definitions

* `GroundsExactly` — what is registered for a rule.

## Main results

* `Registry.groundAll_exact` — **grounding is exact, after every history.**
-/

namespace FactNet

open GroundState

variable {α : Type} [Scalar α] [Numeral α]

/-- What is registered for a rule with one head, by the numbers of a state. -/
structure GroundsExactly (r : Registry α) (s : GroundState α) (rule : Rule α) (head : Literal) :
    Prop where
  /-- The clauses are those of the substitutions that ground the rule. -/
  mem_iff : ∀ clause,
    clause ∈ (instances r rule).1 ↔ ∃ t, Grounds r rule t ∧ clause = rule.groundClause t
  /-- No two of these substitutions have the same clause. -/
  unique : ∀ t t', Grounds r rule t → rule.groundClause t = rule.groundClause t' →
    ∀ x ∈ rule.variables, t x = t' x
  /-- A clause is registered as often as the evidence that it rests on has been repeated. -/
  count_eq : ∀ t, Grounds r rule t →
    (instances r rule).1.count (rule.groundClause t) = r.timesFound rule t
  /-- That is once, if no evidence has been repeated. -/
  count_eq_one : r.evidence.Nodup → ∀ t, Grounds r rule t →
    (instances r rule).1.count (rule.groundClause t) = 1
  /-- A clause is registered as an implication from its negated literals to its head. -/
  grounding : ∀ t, Grounds r rule t →
    s.weightedGroundingOf (rule.weight, rule.groundClause t) = some {
      name := (Rule.mk (LogProb.logSigmoid rule.weight - LogProb.logSigmoid (-rule.weight))
        (rule.groundClause t)).text
      ifTrue := LogProb.clip (LogProb.logSigmoid rule.weight)
      ifFalse := LogProb.clip (LogProb.logSigmoid (-rule.weight))
      consequent := s.numberOf (head.under t)
      antecedents :=
        (rule.relational.filter fun l => !l.truth).map fun l => s.numberOf (l.under t) }
  /-- The numbers are those of the literals. -/
  numbered : ∀ t, Grounds r rule t → ∀ l ∈ rule.relational,
    s.literals[s.numberOf (l.under t)]? = some (l.under t).asTrue

/-- A clause with one head is registered as an implication. -/
theorem weightedGroundingOf_groundClause {rule : Rule α} {head : Literal}
    (hhead : rule.heads = [head]) (s : GroundState α) (t : Substitution) :
    s.weightedGroundingOf (rule.weight, rule.groundClause t) = some {
      name := (Rule.mk (LogProb.logSigmoid rule.weight - LogProb.logSigmoid (-rule.weight))
        (rule.groundClause t)).text
      ifTrue := LogProb.clip (LogProb.logSigmoid rule.weight)
      ifFalse := LogProb.clip (LogProb.logSigmoid (-rule.weight))
      consequent := s.numberOf (head.under t)
      antecedents :=
        (rule.relational.filter fun l => !l.truth).map fun l => s.numberOf (l.under t) } := by
  unfold weightedGroundingOf groundingOf
  rw [filter_groundClause, hhead]
  have hbody : ((rule.groundClause t).filter fun l => !l.truth).map s.numberOf =
      (rule.relational.filter fun l => !l.truth).map fun l => s.numberOf (l.under t) := by
    unfold Rule.groundClause
    rw [List.filter_map, List.map_map]
    rfl
  rw [hbody]
  rfl

namespace Registry

/-- **Grounding is exact**, after every history.  What building registers is the ground clauses of
one literal, the instances of the longer rules, and clauses of one literal again; and the
instances of a rule with one head are those of the substitutions that ground it. -/
theorem groundAll_exact (method : MergeMethod) (defaultPrior : α) (hillClimb : Bool)
    (threads : Int) (history : List (Registration α)) :
    let r := (fresh method defaultPrior hillClimb threads).after history
    let s := r.groundAll.1
    s.Distinct ∧
      (∃ deferred : List (Weighted α), (∀ c ∈ deferred, c.2.length = 1) ∧
        s.groundings.toList =
          (r.groundUnits ++ r.longRules.flatMap r.weightedInstances ++ deferred).filterMap
            s.weightedGroundingOf) ∧
      ∀ rule ∈ r.rules, 2 ≤ rule.literals.length → ∀ head, rule.heads = [head] →
        GroundsExactly r s rule head := by
  intro r s
  have hr : r.WellFormed :=
    (wellFormed_fresh method defaultPrior hillClimb threads).after history
  obtain ⟨deferred, hunit, hground⟩ := r.groundAll_eq
  obtain ⟨-, hdistinct, -, -, hsame⟩ :=
    numberAll_spec (s := ({} : GroundState α)) List.nodup_nil r.evidence
  obtain ⟨-, hdistinct', hknows, hgroundings⟩ := registerEach_spec hdistinct
    (r.groundUnits ++ r.longRules.flatMap r.weightedInstances ++ deferred)
  rw [← hground] at hdistinct' hknows hgroundings
  rw [hsame] at hgroundings
  refine ⟨hdistinct', ⟨deferred, hunit, hgroundings⟩, fun rule hrule hlong head hhead => ?_⟩
  have hheads : rule.heads.length = 1 := by rw [hhead]; rfl
  have hcount : ∀ t, Grounds r rule t →
      (instances r rule).1.count (rule.groundClause t) = r.timesFound rule t :=
    fun t ht => count_instances hr hrule hheads ht
  refine ⟨fun clause => mem_instances_iff hr hrule hheads, fun t t' ht heq x hx =>
    ht.eq_of_groundClause_eq heq hx, hcount, fun hnodup t ht => ?_, fun t _ =>
    weightedGroundingOf_groundClause hhead s t, fun t ht l hl => getElem?_numberOf ?_⟩
  · rw [hcount t ht, ht.timesFound_eq_one hnodup]
  · -- the literals of an instance are numbered when it is registered
    have hinstance : rule.groundClause t ∈ (instances r rule).1 :=
      (mem_instances_iff hr hrule hheads).mpr ⟨t, ht, rfl⟩
    refine hknows (rule.weight, rule.groundClause t) ?_ (l.under t) (List.mem_map_of_mem hl)
    refine List.mem_append_left _ (List.mem_append_right _ (List.mem_flatMap.mpr ⟨rule, ?_, ?_⟩))
    · exact List.mem_filter.mpr ⟨hrule, decide_eq_true hlong⟩
    · exact List.mem_map_of_mem hinstance

/-- Everybody is an ancestor of their children. -/
def parentRule : Rule Float :=
  ⟨2, [⟨"parent", "x", "y", false⟩, ⟨"ancestor", "x", "y", true⟩]⟩

/-- A closed predicate with a piece of evidence, an open one, and a rule between them. -/
def parentHistory : List (Registration Float) :=
  [.predicates [⟨"parent", "Person", "Person", true⟩],
    .predicates [⟨"ancestor", "Person", "Person", false⟩],
    .evidence [⟨"parent", "Ann", "Bob", true⟩],
    .rules [parentRule]]

/-- The registry of these. -/
def parentRegistry : Registry Float :=
  (fresh .geometricMean 0.3 false 1).after parentHistory

theorem parentRegistry_eq : parentRegistry =
    { fresh .geometricMean 0.3 false 1 with
      predicates := [⟨"parent", "Person", "Person", true⟩, ⟨"ancestor", "Person", "Person", false⟩]
      domains := ⟨[("Person", ["Ann", "Bob"])]⟩
      evidence := [⟨"parent", "Ann", "Bob", true⟩]
      rules := [parentRule] } := by
  simp [parentRegistry, parentHistory, after, register, addPredicates]
  rfl

/-- The substitution that the evidence asks for. -/
def annAndBob : Substitution := fun x => if x = "x" then "Ann" else "Bob"

theorem grounds_annAndBob : Grounds parentRegistry parentRule annAndBob := by
  have hvariables : ∀ x ∈ parentRule.variables, x = "x" ∨ x = "y" := by decide
  rw [parentRegistry_eq]
  refine ⟨fun x hx y hy hxy => ?_, by decide, by decide, fun x hx type hfind => ?_, by decide,
    by decide⟩
  · rcases hvariables x hx with rfl | rfl <;> rcases hvariables y hy with rfl | rfl
    · rfl
    · exact absurd hxy (by decide)
    · exact absurd hxy (by decide)
    · rfl
  · -- both variables come first in the closed literal
    rcases hvariables x hx with rfl | rfl <;> cases hfind

/-- The evidence gives one clause, in which both of them are related. -/
theorem groundAll_exact_parent :
    let head : Literal := ⟨"ancestor", "x", "y", true⟩
    parentRule ∈ parentRegistry.rules ∧ 2 ≤ parentRule.literals.length ∧
      parentRule.heads = [head] ∧
      GroundsExactly parentRegistry parentRegistry.groundAll.1 parentRule head ∧
      [⟨"parent", "Ann", "Bob", false⟩, ⟨"ancestor", "Ann", "Bob", true⟩] ∈
        (instances parentRegistry parentRule).1 := by
  intro head
  have hrule : parentRule ∈ parentRegistry.rules := by
    rw [parentRegistry_eq]
    exact List.mem_singleton_self _
  have hexact := (groundAll_exact .geometricMean 0.3 false 1 parentHistory).2.2 parentRule hrule
    (by decide) head rfl
  exact ⟨hrule, by decide, rfl, hexact, (hexact.mem_iff _).mpr ⟨annAndBob, grounds_annAndBob, rfl⟩⟩

end Registry

end FactNet
