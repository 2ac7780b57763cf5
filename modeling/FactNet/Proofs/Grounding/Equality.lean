import FactNet.Proofs.Grounding.Acyclic
import FactNet.Proofs.Grounding.ClosedWorld

/-!
# Equality is built in

The equalities of a rule of several literals are left out of its instances: one that is true
satisfies the instance, and one that is false adds nothing to it.  So equalities are no antecedents
of grounded rules, and a rule of several literals makes none a consequent or a variable.

A clause of one literal is registered as it stands, and so is the evidence.  Where they name an
equality of two constants, it is a variable like any other, and the clause makes it a consequent.

## Main definitions

* `Registry.Names` — the evidence or a ground clause of one literal names an atom.
* `Registry.KeepsEqualityOut` — no equality is a variable, a consequent or an antecedent.

## Main results

* `Registry.isEquality_of_mem_instances` — instances have no equalities.
* `Registry.isEquality_of_mem_antecedents` — **what has an antecedent has no equality.**
* `Registry.build_keeps_equality_out` — **equalities become variables only by name.**
-/

namespace FactNet

open Scalar GroundState

@[simp] theorem Literal.isEquality_asTrue (l : Literal) : l.asTrue.isEquality = l.isEquality := rfl

namespace Registry

variable {α : Type} [Scalar α] {r : Registry α} {a l : Literal}

/-- The evidence or a ground clause of one literal names an atom. -/
def Names (r : Registry α) (a : Literal) : Prop :=
  (∃ e ∈ r.evidence, e.asTrue = a) ∨ a.isGround = true ∧ ∃ w, (a, w) ∈ r.units

variable [Numeral α] {net : BayesNet α} {notes : List Event} {g : GroundedRule α} {i : Nat}

/-- No equality is a variable of a network, and none is the consequent or an antecedent of a
grounded rule. -/
structure KeepsEqualityOut (r : Registry α) (net : BayesNet α) : Prop where
  literals : ∀ a ∈ net.literals, a.isEquality = false
  consequents : ∀ g ∈ r.groundAll.1.groundings.toList,
    (r.groundAll.1.literalOf g.consequent).isEquality = false
  antecedents : ∀ g ∈ r.groundAll.1.groundings.toList, ∀ i ∈ g.antecedents,
    (r.groundAll.1.literalOf i).isEquality = false

/-! ### Instances -/

omit [Scalar α] [Numeral α] in
theorem isEquality_of_mem_groundClause {rule : Rule α} {t : Substitution}
    (hl : l ∈ rule.groundClause t) : l.isEquality = false := by
  obtain ⟨k, hk, rfl⟩ := List.mem_map.1 hl
  obtain ⟨-, hk⟩ := List.mem_filter.1 hk
  rwa [Bool.not_eq_true'] at hk

/-- Instances have no equalities. -/
theorem isEquality_of_mem_instances {rule : Rule α} {clause : List Literal}
    (hclause : clause ∈ (instances r rule).1) (hl : l ∈ clause) : l.isEquality = false := by
  obtain ⟨t, rfl⟩ := exists_of_mem_instances hclause
  exact isEquality_of_mem_groundClause hl

/-- **What has an antecedent has no equality**: it is an instance. -/
theorem isEquality_of_mem_antecedents (hg : g ∈ r.groundAll.1.groundings.toList)
    (hi : i ∈ g.antecedents) : (r.groundAll.1.literalOf i).isEquality = false ∧
      (r.groundAll.1.literalOf g.consequent).isEquality = false := by
  obtain ⟨rule, -, t, ⟨l, hl, -, hli⟩, head, hhead, -, hconsequent⟩ :=
    exists_groundClause_of_mem_groundings hg hi
  rw [hli, hconsequent, Literal.isEquality_asTrue, Literal.isEquality_asTrue]
  exact ⟨isEquality_of_mem_groundClause hl, isEquality_of_mem_groundClause hhead⟩

/-- An equality becomes a variable only by name. -/
theorem names_of_mem_mentioned (ha : a ∈ r.mentioned) (hequality : a.isEquality = true) :
    r.Names a := by
  rcases mem_mentioned_iff.1 ha with hevidence | hunit | ⟨rule, -, clause, hclause, l, hl, rfl⟩
  · exact .inl hevidence
  · exact .inr hunit
  · rw [Literal.isEquality_asTrue, isEquality_of_mem_instances hclause hl] at hequality
    cases hequality

theorem mem_mentioned_of_names (h : r.Names a) : a ∈ r.mentioned :=
  mem_mentioned_iff.2 (or_assoc.1 (.inl h))

/-! ### The network that is built -/

/-- The variables of grounded rules are variables of the network. -/
theorem Built.literalOf_mem (h : r.Built net) (hi : i < r.groundAll.1.literals.size) :
    r.groundAll.1.literalOf i ∈ net.literals := by
  rw [← Array.length_toList] at hi
  rw [h.literals, ← Array.mem_toList_iff, literalOf, List.getD_eq_getElem?_getD,
    List.getElem?_eq_getElem hi, Option.getD_some]
  exact List.getElem_mem hi

/-- **Equalities become variables only by name.**

An equality is a variable of the network just if the evidence or a ground clause of one literal
names it.  None is an antecedent, neither in what is grounded nor in what is behind the factors,
and a grounded rule whose consequent is one has no antecedents.  So no equality is a variable, and
none is part of a grounded rule, just if none is named. -/
theorem build_keeps_equality_out (hbuild : r.build = .ok (net, notes)) :
    (∀ a, a.isEquality = true → (a ∈ net.literals ↔ r.Names a)) ∧
    (∀ g ∈ r.groundAll.1.groundings.toList, ∀ i ∈ g.antecedents,
      (r.groundAll.1.literalOf i).isEquality = false ∧
        (r.groundAll.1.literalOf g.consequent).isEquality = false) ∧
    (∀ f ∈ net.factors.toList, ∀ g ∈ f.rules, ∀ i ∈ g.antecedents,
      (r.groundAll.1.literalOf i).isEquality = false) ∧
    (r.KeepsEqualityOut net ↔ ∀ a, r.Names a → a.isEquality = false) := by
  have hbuilt := built_of_build hbuild
  have hliterals : ∀ a, a.isEquality = true → (a ∈ net.literals ↔ r.Names a) := fun a ha =>
    ⟨fun hmem => names_of_mem_mentioned (hbuilt.mem_literals.1 hmem) ha,
      fun hnames => hbuilt.mem_literals.2 (mem_mentioned_of_names hnames)⟩
  refine ⟨hliterals, fun g hg i hi => isEquality_of_mem_antecedents hg hi, fun f hf g hg i hi => ?_,
    fun hout a ha => ?_, fun hnames => ?_⟩
  · rcases hbuilt.mem_groundings hf hg with hg | hnil
    · exact (isEquality_of_mem_antecedents hg hi).1
    · rw [hnil] at hi
      cases hi
  · exact hout.literals a (hbuilt.mem_literals.2 (mem_mentioned_of_names ha))
  · have hnone : ∀ a ∈ net.literals, a.isEquality = false := fun a ha => by
      by_contra hequality
      rw [Bool.not_eq_false] at hequality
      rw [hnames a ((hliterals a hequality).1 ha)] at hequality
      cases hequality
    refine ⟨hnone, fun g hg => ?_, fun g hg i hi => (isEquality_of_mem_antecedents hg hi).1⟩
    exact hnone _ (hbuilt.literalOf_mem (numbers_of_mem_groundings hg).1)

/-- Parents are the ancestors of others. -/
noncomputable def otherRule : Rule EReal :=
  ⟨1, [⟨"parent", "x", "y", false⟩, ⟨"=", "x", "y", true⟩, ⟨"ancestor", "x", "y", true⟩]⟩

/-- Equalities with and without negation, in a rule of several literals and in clauses of one. -/
noncomputable def othersHistory : List (Registration EReal) :=
  kinshipHistory ++
    [.rules [otherRule], .rules [⟨1, [⟨"=", "x", "y", false⟩]⟩],
      .priors [⟨1, [⟨"=", "x", "Bob", true⟩]⟩]]

theorem after_othersHistory : letI := unwritten
    (fresh .geometricMean ((1 / 2 : ℝ) : EReal) false 1).after othersHistory =
      { fresh .geometricMean ((1 / 2 : ℝ) : EReal) false 1 with
        predicates := [⟨"parent", "Person", "Person", true⟩, ⟨"ancestor", "Person", "Person", false⟩]
        domains := ⟨[("Person", ["Ann", "Bob"])]⟩
        evidence := [⟨"parent", "Ann", "Bob", true⟩]
        priors := [kinshipPrior, ⟨1, [⟨"=", "x", "Bob", true⟩]⟩]
        rules := [kinshipRule, otherRule, ⟨1, [⟨"=", "x", "y", false⟩]⟩] } := by
  let _ := unwritten
  rw [othersHistory, after_append, after_kinshipHistory]
  rfl

/-- Ann and Bob are told apart where the rule is grounded, and no equality is a variable. -/
theorem build_keeps_equality_out_others : letI := unwritten
    let r := (fresh .geometricMean ((1 / 2 : ℝ) : EReal) false 1).after othersHistory
    (instances r otherRule).1 =
      [[⟨"parent", "Ann", "Bob", false⟩, ⟨"ancestor", "Ann", "Bob", true⟩]] ∧
    ∃ net notes, r.build = .ok (net, notes) ∧ r.KeepsEqualityOut net := by
  let _ := unwritten
  intro r
  have hr : r = _ := after_othersHistory
  have hfew : r.mentioned.length < tableCeiling := by
    rw [hr]
    decide
  obtain ⟨net, notes, hbuild⟩ := exists_build_after create_kinship (by decide) hfew
  have hunits : r.units.map (·.1) =
      [⟨"ancestor", "x", "y", true⟩, ⟨"=", "x", "Bob", true⟩, ⟨"=", "x", "y", true⟩] := by
    rw [hr]
    rfl
  refine ⟨?_, net, notes, hbuild, (r.build_keeps_equality_out hbuild).2.2.2.2 ?_⟩
  · rw [hr]
    rfl
  · rintro a (⟨e, he, rfl⟩ | ⟨hground, w, hu⟩)
    · rw [hr, List.mem_singleton] at he
      rw [he]
      rfl
    · -- none of the three is ground
      have hall : ∀ l ∈ r.units.map (·.1), l.isGround = false := by
        rw [hunits]
        decide
      rw [hall a (List.mem_map.2 ⟨_, hu, rfl⟩)] at hground
      cases hground

/-- Perhaps Ann is Bob. -/
noncomputable def samenessGuess : Rule EReal := ⟨1, [⟨"=", "Ann", "Bob", true⟩]⟩

/-- Then it is a variable that nothing fixes. -/
theorem not_keepsEqualityOut_guess : letI := unwritten
    let r := (fresh .geometricMean ((1 / 2 : ℝ) : EReal) false 1).after [.priors [samenessGuess]]
    let a : Literal := ⟨"=", "Ann", "Bob", true⟩
    ∃ net notes, r.build = .ok (net, notes) ∧ a.isEquality = true ∧ a ∈ net.literals ∧
      net.fixedValue? a = none ∧ ¬r.KeepsEqualityOut net := by
  let _ := unwritten
  intro r a
  have hr : r = { fresh .geometricMean ((1 / 2 : ℝ) : EReal) false 1 with
      priors := [samenessGuess] } := rfl
  have hfew : r.mentioned.length < tableCeiling := by
    rw [hr]
    decide
  obtain ⟨net, notes, hbuild⟩ := exists_build_after create_kinship (by decide) hfew
  have hbuilt := built_of_build hbuild
  have hmentioned : a ∈ r.mentioned := by
    rw [hr]
    decide
  have ha : a ∈ net.literals := hbuilt.mem_literals.2 hmentioned
  have hunit : (a, (1 : EReal)) ∈ r.units := List.mem_cons_self
  obtain ⟨g, hg, hweight⟩ := exists_mem_rulesOf hunit (by decide)
  have hopen : net.fixedValue? a = none := by
    have hknows : r.groundAll.1.Knows a := knows_iff.2 hmentioned
    rw [hbuilt.fixedValue?_of_rules hknows rfl (List.ne_nil_of_mem hg)]
    exact fixedBy?_eq_none_of_one hg hweight
  refine ⟨net, notes, hbuild, rfl, ha, hopen, fun hout => ?_⟩
  have hnot := hout.literals a ha
  cases hnot

end Registry

end FactNet
