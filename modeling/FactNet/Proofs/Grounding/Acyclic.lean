import FactNet.Proofs.Grounding.Evidence
import FactNet.Proofs.Grounding.Instances
import FactNet.Proofs.Grounding.Rows
import FactNet.Proofs.Program.Acyclic

/-!
# Acyclic programs make acyclic networks

A grounded rule with antecedents is an instance of a rule of several literals: an instance has the
predicates of its rule, and a clause of one literal has no antecedents, whether it is given without
variables or applied to the variables met so far.  So every step from an antecedent to a consequent
is a dependency between their predicates, and what leads a variable back to itself leads its
predicate back to itself.

The rows of the tables of a network are grounded rules, or priors without antecedents.

## Main definitions

* `Feeds`, `IsCircular` — steps between the variables of grounded rules, and their cycles.

## Main results

* `Registry.edge_of_mem_groundings` — **a step between variables is one between predicates.**
* `Registry.build_acyclic` — **an acyclic program makes an acyclic network.**
-/

namespace FactNet

open GroundState

variable {α : Type}

/-! ### Steps between variables -/

/-- Some grounded rule has the first variable among its antecedents and the second as its
consequent. -/
def Feeds (rules : List (GroundedRule α)) (a c : Nat) : Prop :=
  ∃ g ∈ rules, a ∈ g.antecedents ∧ g.consequent = c

/-- Some variable is led back to itself. -/
def IsCircular (rules : List (GroundedRule α)) : Prop :=
  ∃ i, Relation.TransGen (Feeds rules) i i

theorem IsCircular.of_mem {rules : List (GroundedRule α)} {g : GroundedRule α} (hg : g ∈ rules)
    (h : g.consequent ∈ g.antecedents) : IsCircular rules :=
  ⟨g.consequent, .single ⟨g, hg, h, rfl⟩⟩

/-- Rules without antecedents close no cycle. -/
theorem IsCircular.of_forall_mem {rules rules' : List (GroundedRule α)}
    (h : ∀ g ∈ rules, g ∈ rules' ∨ g.antecedents = []) (hcircular : IsCircular rules) :
    IsCircular rules' := by
  refine hcircular.imp fun i hi => hi.lift id ?_
  rintro a c ⟨g, hg, ha, hc⟩
  rcases h g hg with hg | hnil
  · exact ⟨g, hg, ha, hc⟩
  · rw [hnil] at ha
    cases ha

/-! ### Steps between predicates -/

section Clauses

variable [Scalar α] [Numeral α] {r : Registry α} {g : GroundedRule α}

/-- An instance is what some substitution makes of its rule. -/
theorem exists_of_mem_instances {rule : Rule α} {clause : List Literal}
    (h : clause ∈ (instances r rule).1) : ∃ t, clause = rule.groundClause t := by
  unfold instances at h
  split at h
  · obtain ⟨t, -, hclause⟩ := exists_of_mem_instancesFrom h
    exact ⟨t, hclause⟩
  · cases h

omit [Scalar α] [Numeral α] in
/-- The predicates of an instance are those of its rule. -/
theorem edge_of_mem_groundClause {rule : Rule α} {t : Substitution} {l head : Literal}
    (hl : l ∈ rule.groundClause t) (hbody : l.truth = false) (hhead : head ∈ rule.groundClause t)
    (htruth : head.truth = true) : (l.name, head.name) ∈ rule.edges := by
  obtain ⟨k, hk, rfl⟩ := List.mem_map.1 hl
  obtain ⟨k', hk', rfl⟩ := List.mem_map.1 hhead
  obtain ⟨hk, hequality⟩ := List.mem_filter.1 hk
  obtain ⟨hk', hequality'⟩ := List.mem_filter.1 hk'
  rw [Literal.under_truth] at hbody htruth
  rw [Literal.under_name, Literal.under_name, Rule.mem_edges]
  constructor
  · exact List.mem_map_of_mem (List.mem_filter.2 ⟨hk, by rw [hequality, hbody]; rfl⟩)
  · exact List.mem_map_of_mem (List.mem_filter.2 ⟨hk', by rw [hequality', htruth]; rfl⟩)

namespace Registry

/-- A clause of several literals is an instance of a rule. -/
theorem exists_of_mem_clauses {c : Weighted α} (hc : c ∈ r.clauses) :
    c.2.length = 1 ∨ ∃ rule ∈ r.longRules, ∃ t, c.2 = rule.groundClause t := by
  rcases List.mem_append.1 hc with hc | hc
  · rcases List.mem_append.1 hc with hc | hc
    · obtain ⟨u, -, rfl⟩ := List.mem_map.1 hc
      exact .inl rfl
    · obtain ⟨rule, hrule, hc⟩ := List.mem_flatMap.1 hc
      obtain ⟨clause, hclause, rfl⟩ := List.mem_map.1 hc
      exact .inr ⟨rule, hrule, exists_of_mem_instances hclause⟩
  · obtain ⟨u, -, hc⟩ := List.mem_flatMap.1 hc
    obtain ⟨v, -, rfl⟩ := List.mem_map.1 hc
    exact .inl rfl

/-- A grounded rule with an antecedent is an instance of a rule, in which its consequent stands
without negation and its antecedent with it. -/
theorem exists_groundClause_of_mem_groundings (hg : g ∈ r.groundAll.1.groundings.toList) {a : Nat}
    (ha : a ∈ g.antecedents) : ∃ rule ∈ r.longRules, ∃ t,
      (∃ l ∈ rule.groundClause t, l.truth = false ∧ r.groundAll.1.literalOf a = l.asTrue) ∧
      ∃ head ∈ rule.groundClause t, head.truth = true ∧
        r.groundAll.1.literalOf g.consequent = head.asTrue := by
  obtain ⟨-, hknows, hgroundings⟩ := r.groundings_groundAll
  rw [hgroundings] at hg
  obtain ⟨c, hc, hg⟩ := List.mem_filterMap.1 hg
  obtain ⟨head, hlast, rfl⟩ := Option.map_eq_some_iff.1 hg
  obtain ⟨hhead, htruth⟩ := List.mem_filter.1 (List.mem_of_getLast? hlast)
  obtain ⟨l, hl, rfl⟩ := List.mem_map.1 ha
  obtain ⟨hl, hbody⟩ := List.mem_filter.1 hl
  rw [Bool.not_eq_true'] at hbody
  rcases exists_of_mem_clauses hc with hunit | ⟨rule, hrule, t, hclause⟩
  · -- the one literal would be both negated and not
    obtain ⟨k, hk⟩ := List.length_eq_one_iff.1 hunit
    rw [hk, List.mem_singleton] at hl hhead
    rw [hl.trans hhead.symm, htruth] at hbody
    cases hbody
  · refine ⟨rule, hrule, t, ⟨l, hclause ▸ hl, hbody, literalOf_numberOf (hknows c hc l hl)⟩,
      head, hclause ▸ hhead, htruth, literalOf_numberOf (hknows c hc head hhead)⟩

/-- **A step between variables is one between their predicates**, by some rule. -/
theorem edge_of_mem_groundings (hg : g ∈ r.groundAll.1.groundings.toList) {a : Nat}
    (ha : a ∈ g.antecedents) : ((r.groundAll.1.literalOf a).name,
      (r.groundAll.1.literalOf g.consequent).name) ∈ r.longRules.flatMap Rule.edges := by
  obtain ⟨rule, hrule, t, ⟨l, hl, hbody, hla⟩, head, hhead, htruth, hconsequent⟩ :=
    exists_groundClause_of_mem_groundings hg ha
  rw [hla, hconsequent]
  change (l.name, head.name) ∈ _
  exact List.mem_flatMap.2 ⟨rule, hrule, edge_of_mem_groundClause hl hbody hhead htruth⟩

/-- What leads a variable back to itself leads its predicate back to itself. -/
theorem hasCycle_of_isCircular (h : IsCircular r.groundAll.1.groundings.toList) :
    HasCycle (r.longRules.flatMap Rule.edges) := by
  obtain ⟨i, hi⟩ := h
  refine ⟨(r.groundAll.1.literalOf i).name, hi.lift (fun j => (r.groundAll.1.literalOf j).name) ?_⟩
  rintro a _ ⟨g, hg, ha, rfl⟩
  exact edge_of_mem_groundings hg ha

end Registry

end Clauses

/-! ### The network that is built -/

namespace Registry

variable [Scalar α] [Numeral α]

/-- A network is acyclic if the rules of several literals are. -/
theorem not_isCircular_of_not_hasCycle {r : Registry α}
    (h : ¬HasCycle (r.longRules.flatMap Rule.edges)) :
    ¬IsCircular r.groundAll.1.groundings.toList ∧
      ∀ net notes, r.build = .ok (net, notes) →
        ¬IsCircular (net.factors.toList.flatMap Factor.rules) ∧
        ∀ f ∈ net.factors.toList, ∀ g ∈ f.rules, g.consequent ∉ g.antecedents := by
  have hground : ¬IsCircular r.groundAll.1.groundings.toList := fun hcircular =>
    h (hasCycle_of_isCircular hcircular)
  refine ⟨hground, fun net notes hbuild => ?_⟩
  have hnet : ¬IsCircular (net.factors.toList.flatMap Factor.rules) := fun hcircular => by
    refine hground (hcircular.of_forall_mem fun g hg => ?_)
    obtain ⟨f, hf, hg⟩ := List.mem_flatMap.1 hg
    exact (built_of_build hbuild).mem_groundings hf hg
  exact ⟨hnet, fun f hf g hg hself => hnet (.of_mem (List.mem_flatMap.2 ⟨f, hf, hg⟩) hself)⟩

/-- **An acyclic program makes an acyclic network.**

Whatever else a history registers, predicates, evidence, priors, constants and clauses of one
literal, in any order and accepted or not: if all rules of several literals that it gives are among
those of a program that stay when the rules that would close a cycle are left out, heavier rules
being considered first or last, then no step from an antecedent to a consequent is part of a cycle,
neither in what is grounded nor in what is behind the factors of the network. -/
theorem build_acyclic (p : Program α) (descending : Bool) (method : MergeMethod) (defaultPrior : α)
    (hillClimb : Bool) (threads : Int) (history : List (Registration α))
    (h : ∀ registration ∈ history, ∀ rule ∈ registration.given, 1 < rule.literals.length →
      rule ∈ (p.makeAcyclic descending).rules) :
    let r := (fresh method defaultPrior hillClimb threads).after history
    ¬IsCircular r.groundAll.1.groundings.toList ∧
      ∀ net notes, r.build = .ok (net, notes) →
        ¬IsCircular (net.factors.toList.flatMap Factor.rules) ∧
        ∀ f ∈ net.factors.toList, ∀ g ∈ f.rules, g.consequent ∉ g.antecedents := by
  intro r
  have hlong : r.longRules ⊆ (p.makeAcyclic descending).rules := by
    intro rule hrule
    obtain ⟨hrule, hseveral⟩ := List.mem_filter.1 hrule
    rcases mem_rules_after hrule with hnone | ⟨registration, hmem, hgiven⟩
    · cases hnone
    · exact h registration hmem rule hgiven (of_decide_eq_true hseveral)
  have hedges : r.longRules.flatMap Rule.edges ⊆ (p.makeAcyclic descending).edges := by
    intro e he
    obtain ⟨rule, hrule, he⟩ := List.mem_flatMap.1 he
    exact List.mem_flatMap.2 ⟨rule, hlong hrule, he⟩
  exact not_isCircular_of_not_hasCycle fun hcycle =>
    (p.acyclicPart_keeping (List.mergeSort_perm _ _)).not_hasCycle (hcycle.mono hedges)

/-- Parents are ancestors; and an ancestor is a parent, less certainly. -/
noncomputable def kinshipCircle : Program EReal :=
  .ofParts [⟨"parent", "Person", "Person", true⟩, ⟨"ancestor", "Person", "Person", false⟩]
    [kinshipRule, ⟨1, [⟨"ancestor", "x", "y", false⟩, ⟨"parent", "x", "y", true⟩]⟩]

theorem mem_makeAcyclic_kinshipCircle : kinshipRule ∈ (kinshipCircle.makeAcyclic true).rules := by
  have horder : Program.byWeight true kinshipCircle.rules = Program.placed kinshipCircle.rules := by
    refine List.mergeSort_of_pairwise ?_
    simp [Program.placed, kinshipCircle, Program.ofParts, kinshipRule]
  have hadmitted : admitRules {} (Program.placed kinshipCircle.rules) = [(0, kinshipRule)] := rfl
  rw [Program.makeAcyclic, Program.keeping, horder, hadmitted]
  exact List.mem_map.2 ⟨(0, kinshipRule), List.mem_filter.2 ⟨List.mem_cons_self, rfl⟩, rfl⟩

/-- The rule that stays is grounded, and the network has no cycle; the program has one. -/
theorem build_acyclic_kinship : letI := unwritten
    let r := (fresh .geometricMean ((1 / 2 : ℝ) : EReal) false 1).after kinshipHistory
    HasCycle kinshipCircle.edges ∧
      (∀ registration ∈ kinshipHistory, ∀ rule ∈ registration.given, 1 < rule.literals.length →
        rule ∈ (kinshipCircle.makeAcyclic true).rules) ∧
      (instances r kinshipRule).1 =
        [[⟨"parent", "Ann", "Bob", false⟩, ⟨"ancestor", "Ann", "Bob", true⟩]] ∧
      ∃ net notes, r.build = .ok (net, notes) ∧
        ¬IsCircular (net.factors.toList.flatMap Factor.rules) := by
  let _ := unwritten
  intro r
  have hr : r = _ := after_kinshipHistory
  have hgiven : ∀ registration ∈ kinshipHistory, ∀ rule ∈ registration.given,
      1 < rule.literals.length → rule ∈ (kinshipCircle.makeAcyclic true).rules := by
    intro registration hmem rule hrule _
    have hrules : kinshipHistory.flatMap Registration.given = [kinshipRule] := rfl
    have hrule := List.mem_flatMap.2 ⟨registration, hmem, hrule⟩
    rw [hrules, List.mem_singleton] at hrule
    rw [hrule]
    exact mem_makeAcyclic_kinshipCircle
  have hcycle : HasCycle kinshipCircle.edges := by
    refine hasCycle_iff.2 ⟨"parent", "ancestor", by decide, ?_⟩
    exact .single (by decide : ("ancestor", "parent") ∈ kinshipCircle.edges)
  refine ⟨hcycle, hgiven, ?_, ?_⟩
  · rw [hr]
    rfl
  · obtain ⟨net, notes, hbuild⟩ := exists_build_kinship
    have hacyclic := build_acyclic kinshipCircle true .geometricMean ((1 / 2 : ℝ) : EReal) false 1
      kinshipHistory hgiven
    exact ⟨net, notes, hbuild, (hacyclic.2 net notes hbuild).1⟩

end Registry

end FactNet
