import FactNet.Proofs.Grounding.Evidence
import FactNet.Proofs.Grounding.Instances

/-!
# The closed world

Evidence is read twice.  Grounding reads the true literals that have been registered, and lets a
literal of a closed predicate be bound to each of them; the network fixes every literal to the value
that was registered last.  The two say the same of a literal unless it has been registered as true
and taken back later.

A literal of a closed predicate becomes a variable in two ways.  It is registered as evidence, also
where an instance of a rule mentions it, or it is named by a ground clause of one literal.  In the
first case the evidence fixes it.  In the second case nothing asks whether its predicate is closed,
and it is settled like any other.

## Main definitions

* `Registry.MayBind` — some closed literal may be bound to an atom.
* `Registry.RecordsTrue` — a network fixes an atom for which there is evidence to be true.
* `Registry.KeepsClosed` — a network fixes an atom, and to be true only with evidence.

## Main results

* `Registry.mayBind_iff` — what closed literals may be bound to is the true evidence.
* `Registry.build_records_evidence` — **grounding and the network agree on the evidence that has not
  been taken back.**
* `Registry.evidence_or_unit_of_mem_mentioned` — how a closed literal becomes a variable.
* `Registry.build_keeps_closed` — **the network fixes the closed literals that there is evidence
  for.**
-/

namespace FactNet

open Scalar GroundState

theorem Literal.asTrue_eq_self {l : Literal} (h : l.truth = true) : l.asTrue = l := by
  obtain ⟨name, arg1, arg2, truth⟩ := l
  obtain rfl : truth = true := h
  rfl

/-! ### Weights that settle nothing -/

/-- Rules fix nothing if one of them makes their consequent neither improbable nor very probable. -/
theorem fixedBy?_eq_none {α : Type} [Scalar α] {rules : List (GroundedRule α)} {g : GroundedRule α}
    (hg : g ∈ rules) (hbelow : ¬g.ifTrue < fixFalseBelow) (habove : ¬fixTrueAbove < g.ifTrue) :
    fixedBy? rules = none := by
  unfold fixedBy?
  rw [if_neg fun hall => hbelow (by simpa using List.all_eq_true.1 hall g hg),
    if_neg fun hall => habove (by simpa using List.all_eq_true.1 hall g hg)]

/-- The bounds are those of probabilities. -/
theorem log_tenths (m : Nat) :
    log (decimal m 1 : EReal) = ENNReal.log (ENNReal.ofReal (m / 10)) := by
  rw [log_ereal, decimal_ereal, EReal.real_coe_toENNReal, pow_one]

/-- A weight leaves a literal open if its probability is between three and nine tenths. -/
theorem fixedBy?_eq_none_of_weight {rules : List (GroundedRule EReal)} {g : GroundedRule EReal}
    (hg : g ∈ rules) {x : ℝ}
    (hweight : g.ifTrue = LogProb.clip (LogProb.logSigmoid (x : EReal)))
    (hbelow : 3 / 10 ≤ (1 + Real.exp (-x))⁻¹) (habove : (1 + Real.exp (-x))⁻¹ ≤ 9 / 10) :
    fixedBy? rules = none := by
  have hlog : LogProb.logSigmoid (x : EReal) =
      ENNReal.log (ENNReal.ofReal (1 + Real.exp (-x))⁻¹) := by
    rw [LogProb.logSigmoid_coe, ENNReal.log_ofReal_of_pos (by positivity), Real.log_inv]
  have hmono : ∀ {p q : ℝ}, p ≤ q →
      ENNReal.log (ENNReal.ofReal p) ≤ ENNReal.log (ENNReal.ofReal q) :=
    fun h => ENNReal.log_le_log (ENNReal.ofReal_le_ofReal h)
  rw [hlog, LogProb.clip_eq, LogProb.least_eq, LogProb.greatest_eq_ofReal] at hweight
  refine fixedBy?_eq_none hg ?_ ?_
  · rw [hweight, fixFalseBelow, log_tenths, not_lt]
    exact le_max_of_le_right (le_min (hmono (by norm_num)) (hmono (by exact_mod_cast hbelow)))
  · rw [hweight, fixTrueAbove, log_tenths, not_lt]
    exact max_le (hmono (by norm_num)) (min_le_of_right_le (hmono (by exact_mod_cast habove)))

/-- So does a weight of one. -/
theorem fixedBy?_eq_none_of_one {rules : List (GroundedRule EReal)} {g : GroundedRule EReal}
    (hg : g ∈ rules) (hweight : g.ifTrue = LogProb.clip (LogProb.logSigmoid 1)) :
    fixedBy? rules = none := by
  have hle : Real.exp (-1) ≤ 1 := Real.exp_le_one_iff.2 (by norm_num)
  have hge : 1 / 3 ≤ Real.exp (-1) := by
    rw [Real.exp_neg, one_div]
    exact inv_anti₀ (Real.exp_pos 1) Real.exp_one_lt_three.le
  refine fixedBy?_eq_none_of_weight hg (x := 1) (by rwa [EReal.coe_one]) ?_ ?_
  · rw [le_inv_comm₀ (by norm_num) (by positivity)]
    norm_num
    linarith
  · rw [inv_le_comm₀ (by positivity) (by norm_num)]
    norm_num
    linarith

namespace Registry

variable {α : Type} {r : Registry α} {a l : Literal} {b : Bool}

/-! ### What the evidence says -/

/-- The evidence says something of a literal if there is some for it. -/
theorem isSome_lastEvidence? :
    (r.lastEvidence? l).isSome = true ↔ ∃ e ∈ r.evidence, e.asTrue = l.asTrue := by
  rw [lastEvidence?, Pairs.isSome_last?]
  constructor
  · rintro ⟨b, hb⟩
    obtain ⟨e, he, heq⟩ := List.mem_map.1 hb
    exact ⟨e, he, (Prod.mk.inj heq).1⟩
  · rintro ⟨e, he, heq⟩
    exact ⟨e.truth, List.mem_map.2 ⟨e, he, by rw [heq]⟩⟩

/-- What the evidence says last of a literal has been registered. -/
theorem mem_evidence_of_lastEvidence? (h : r.lastEvidence? l = some l.truth) : l ∈ r.evidence := by
  obtain ⟨e, he, heq⟩ := List.mem_map.1 (Pairs.mem_of_last?_eq_some h)
  obtain ⟨hatom, htruth⟩ := Prod.mk.inj heq
  obtain ⟨name, arg1, arg2, truth⟩ := l
  obtain ⟨name', arg1', arg2', truth'⟩ := e
  simp only [Literal.asTrue, Literal.mk.injEq] at hatom htruth
  obtain ⟨rfl, rfl, rfl, -⟩ := hatom
  exact htruth ▸ he

/-! ### What closed literals may be bound to -/

/-- Some closed literal may be bound to an atom: it has the constants of the atom among its
candidates, under some binding. -/
def MayBind (r : Registry α) (a : Literal) : Prop :=
  ∃ l binding, r.isClosed l.name = true ∧
    ∃ c ∈ (candidates r l binding).1, (l.withArgs c.arg1 c.arg2).asTrue = a

theorem fst_candidates_of_isClosed {binding : Binding} (h : r.isClosed l.name = true) :
    (candidates r l binding).1 = closedCandidates r l binding := by
  obtain ⟨p, hp, hclosed⟩ := (Option.any_eq_true ..).1 h
  unfold candidates
  rw [hp]
  dsimp only
  rw [if_pos hclosed]

/-- An atom for which there is evidence may be bound to itself. -/
theorem exists_candidate_self (hclosed : r.isClosed a.name = true) (htruth : a.truth = true)
    (ha : a ∈ r.evidence) : ∃ binding, ⟨a.arg1, a.arg2, binding⟩ ∈ (candidates r a []).1 := by
  -- every token stands for itself
  have hvalue : ∀ token, Substitution.value id token = token := fun token => by
    unfold Substitution.value
    split <;> rfl
  have hfresh : ∀ seen token, Substitution.Fresh id seen token := by
    rintro seen token x - hnew y hy rfl
    exact hnew hy
  have hsome := (isSome_unifyBoth (Binding.follows_nil id) a.arg1 a.arg2).2
    ⟨hfresh [] a.arg1, hfresh _ a.arg2⟩
  rw [hvalue, hvalue] at hsome
  obtain ⟨binding, hbinding⟩ := Option.isSome_iff_exists.1 hsome
  refine ⟨binding, ?_⟩
  rw [fst_candidates_of_isClosed hclosed]
  refine mem_closedCandidates.2 ⟨a, List.mem_filter.2 ⟨ha, ?_⟩, rfl, rfl, hbinding⟩
  rw [beq_self_eq_true, htruth, Bool.and_self]

/-- **What closed literals may be bound to is the true evidence.** -/
theorem mayBind_iff : r.MayBind a ↔
    r.isClosed a.name = true ∧ a.truth = true ∧ a ∈ r.evidence := by
  constructor
  · rintro ⟨l, binding, hclosed, c, hc, rfl⟩
    rw [fst_candidates_of_isClosed hclosed] at hc
    obtain ⟨e, he, he₁, he₂, -⟩ := mem_closedCandidates.1 hc
    obtain ⟨he, htrue⟩ := List.mem_filter.1 he
    rw [Bool.and_eq_true, beq_iff_eq] at htrue
    have hatom : (l.withArgs c.arg1 c.arg2).asTrue = e := by
      obtain ⟨name, arg1, arg2, truth⟩ := e
      obtain ⟨rfl, rfl⟩ := htrue
      rw [← he₁, ← he₂]
      rfl
    rw [hatom]
    exact ⟨htrue.1 ▸ hclosed, htrue.2, he⟩
  · rintro ⟨hclosed, htruth, ha⟩
    obtain ⟨binding, hbinding⟩ := exists_candidate_self hclosed htruth ha
    exact ⟨a, [], hclosed, _, hbinding, Literal.asTrue_eq_self htruth⟩

/-! ### Two records of the evidence -/

/-- A network fixes a closed atom to be true, and something has been registered of it. -/
structure RecordsTrue (r : Registry α) (net : BayesNet α) (a : Literal) : Prop where
  closed : r.isClosed a.name = true
  registered : ∃ e ∈ r.evidence, e.asTrue = a
  fixed : net.fixedValue? a = some true

section Build

variable [Scalar α] [Numeral α] {net : BayesNet α} {notes : List Event}

/-- Evidence fixes its literal. -/
theorem Built.fixedValue?_of_evidence (h : r.Built net) (hb : r.lastEvidence? l = some b) :
    net.fixedValue? l = some b := by
  rw [BayesNet.fixedValue?, h.idOf?_eq_some (knows_of_lastEvidence? hb), Option.bind_some]
  exact last?_fixed_of_evidence h hb

/-- **Grounding and the network agree on the evidence that has not been taken back.**

Closed literals may be bound to the atoms that have been registered as true.  Those that the network
fixes to be true are among them.  They are all of them just if what has been registered as true is
also what was registered last of its atom. -/
theorem build_records_evidence (hbuild : r.build = .ok (net, notes)) :
    (∀ a, r.MayBind a ↔ r.isClosed a.name = true ∧ a.truth = true ∧ a ∈ r.evidence) ∧
    (∀ a, r.RecordsTrue net a → r.MayBind a) ∧
    ((∀ a, r.MayBind a ↔ r.RecordsTrue net a) ↔
      ∀ e ∈ r.evidence, r.isClosed e.name = true → e.truth = true →
        r.lastEvidence? e = some true) := by
  have hbuilt := built_of_build hbuild
  have hfound : ∀ a, r.RecordsTrue net a → r.MayBind a := by
    rintro a ⟨hclosed, ⟨e, he, rfl⟩, hfixed⟩
    obtain ⟨b, hb⟩ := Option.isSome_iff_exists.1 (isSome_lastEvidence?.2 ⟨e, he, rfl⟩)
    have hsame : some b = some true := (hbuilt.fixedValue?_of_evidence hb).symm.trans hfixed
    exact mayBind_iff.2 ⟨hclosed, rfl, mem_evidence_of_lastEvidence? (hb.trans hsame)⟩
  refine ⟨fun a => mayBind_iff, hfound, fun hagree e he hclosed htruth => ?_, fun hlast a =>
    ⟨fun ha => ?_, hfound a⟩⟩
  · have hfixed := ((hagree e).1 (mayBind_iff.2 ⟨hclosed, htruth, he⟩)).fixed
    obtain ⟨b, hb⟩ := Option.isSome_iff_exists.1 (isSome_lastEvidence?.2 ⟨e, he, rfl⟩)
    rw [hb, ← hfixed, hbuilt.fixedValue?_of_evidence hb]
  · obtain ⟨hclosed, htruth, hevidence⟩ := mayBind_iff.1 ha
    refine ⟨hclosed, ⟨a, hevidence, Literal.asTrue_eq_self htruth⟩, ?_⟩
    exact hbuilt.fixedValue?_of_evidence (hlast a hevidence hclosed htruth)

end Build

/-- Where nothing has been taken back, the two records agree. -/
theorem build_records_evidence_kinship : letI := unwritten
    let r := (fresh .geometricMean ((1 / 2 : ℝ) : EReal) false 1).after kinshipHistory
    ∃ net notes, r.build = .ok (net, notes) ∧ (∀ a, r.MayBind a ↔ r.RecordsTrue net a) ∧
      r.RecordsTrue net ⟨"parent", "Ann", "Bob", true⟩ := by
  let _ := unwritten
  intro r
  have hr : r = _ := after_kinshipHistory
  obtain ⟨net, notes, hbuild⟩ := exists_build_kinship
  obtain ⟨hbind, -, hagree⟩ := r.build_records_evidence hbuild
  have hsame : ∀ a, r.MayBind a ↔ r.RecordsTrue net a := by
    refine hagree.2 ?_
    rw [hr]
    decide
  refine ⟨net, notes, hbuild, hsame, (hsame _).1 ((hbind _).2 ?_)⟩
  rw [hr]
  decide

/-- A parenthood that is registered and then taken back, with a rule about it. -/
noncomputable def takenBackHistory : List (Registration EReal) :=
  [.predicates [⟨"parent", "Person", "Person", true⟩],
    .predicates [⟨"ancestor", "Person", "Person", false⟩],
    .evidence [⟨"parent", "Ann", "Bob", true⟩],
    .evidence [⟨"parent", "Ann", "Bob", false⟩],
    .rules [kinshipRule]]

theorem after_takenBackHistory : letI := unwritten
    (fresh .geometricMean ((1 / 2 : ℝ) : EReal) false 1).after takenBackHistory =
      { fresh .geometricMean ((1 / 2 : ℝ) : EReal) false 1 with
        predicates := [⟨"parent", "Person", "Person", true⟩,
          ⟨"ancestor", "Person", "Person", false⟩]
        domains := ⟨[("Person", ["Ann", "Bob"])]⟩
        evidence := [⟨"parent", "Ann", "Bob", true⟩, ⟨"parent", "Ann", "Bob", false⟩]
        rules := [kinshipRule] } := by
  simp [takenBackHistory, after, register, addPredicates]
  rfl

/-- What has been taken back is fixed to be false, and literals may still be bound to it: the rule
is grounded with it. -/
theorem not_recordsTrue_takenBack : letI := unwritten
    let r := (fresh .geometricMean ((1 / 2 : ℝ) : EReal) false 1).after takenBackHistory
    let a : Literal := ⟨"parent", "Ann", "Bob", true⟩
    ∃ net notes, r.build = .ok (net, notes) ∧ net.fixedValue? a = some false ∧ r.MayBind a ∧
      ¬r.RecordsTrue net a ∧ (instances r kinshipRule).1 =
        [[⟨"parent", "Ann", "Bob", false⟩, ⟨"ancestor", "Ann", "Bob", true⟩]] := by
  let _ := unwritten
  intro r a
  have hr : r = _ := after_takenBackHistory
  have hfew : r.mentioned.length < tableCeiling := by
    rw [hr]
    decide
  obtain ⟨net, notes, hbuild⟩ := exists_build_after create_kinship (by decide) hfew
  have hfalse : net.fixedValue? a = some false := by
    refine (built_of_build hbuild).fixedValue?_of_evidence ?_
    rw [after_takenBackHistory]
    rfl
  refine ⟨net, notes, hbuild, hfalse, mayBind_iff.2 ?_, fun htrue => ?_, ?_⟩
  · rw [hr]
    decide
  · rw [htrue.fixed] at hfalse
    cases hfalse
  · rw [hr]
    rfl

/-! ### Closed literals that are variables -/

/-- A network fixes an atom, and to be true only with evidence. -/
def KeepsClosed (r : Registry α) (net : BayesNet α) (a : Literal) : Prop :=
  ∃ b, net.fixedValue? a = some b ∧ (b = true → a ∈ r.evidence)

section Build

variable [Scalar α] [Numeral α] {net : BayesNet α} {notes : List Event}

omit [Numeral α] in
/-- Clauses of one literal are registered without negation. -/
theorem truth_of_mem_units {u : Literal × α} (hu : u ∈ r.units) : u.1.truth = true := by
  obtain ⟨rule, -, hrule⟩ := List.mem_filterMap.1 hu
  unfold positiveUnit? at hrule
  split at hrule
  · obtain rfl := Option.some_inj.1 hrule
    split
    · next htruth => exact htruth
    · rfl
  · cases hrule

/-- There is evidence for every closed literal of an instance. -/
theorem mem_evidence_of_mem_instances {rule : Rule α} {clause : List Literal}
    (hclause : clause ∈ (instances r rule).1) (hl : l ∈ clause)
    (hclosed : r.isClosed l.name = true) : l.asTrue ∈ r.evidence := by
  unfold instances at hclause
  split at hclause
  · obtain ⟨t, -, rfl⟩ := exists_of_mem_instancesFrom hclause
    obtain ⟨k, hk, rfl⟩ := List.mem_map.1 hl
    have hallows := (placesFit_of_mem_instancesFrom (Binding.follows_nil t) hclause).2.1 k hk
    exact (allows_iff.1 hallows).1 hclosed
  · cases hclause

/-- **How a literal becomes a variable**: there is evidence for it, a ground clause of one literal
names it, or it is in an instance of a longer rule. -/
theorem mem_mentioned_iff : a ∈ r.mentioned ↔ (∃ e ∈ r.evidence, e.asTrue = a) ∨
    (a.isGround = true ∧ ∃ w, (a, w) ∈ r.units) ∨
      ∃ rule ∈ r.longRules, ∃ clause ∈ (instances r rule).1, ∃ l ∈ clause, l.asTrue = a := by
  have hunit : (∃ c ∈ r.groundUnits, a ∈ c.2.map Literal.asTrue) ↔
      a.isGround = true ∧ ∃ w, (a, w) ∈ r.units := by
    constructor
    · rintro ⟨c, hc, ha⟩
      obtain ⟨u, hu, rfl⟩ := List.mem_map.1 hc
      obtain ⟨hu, hground⟩ := List.mem_filter.1 hu
      obtain rfl : a = u.1.asTrue := by simpa using ha
      rw [Literal.asTrue_eq_self (truth_of_mem_units hu)]
      exact ⟨hground, u.2, hu⟩
    · rintro ⟨hground, w, hu⟩
      exact ⟨(w, [a]), List.mem_map.2 ⟨(a, w), List.mem_filter.2 ⟨hu, hground⟩, rfl⟩,
        List.mem_singleton.2 (Literal.asTrue_eq_self (truth_of_mem_units hu)).symm⟩
  have hrule : (∃ c ∈ r.longRules.flatMap r.weightedInstances, a ∈ c.2.map Literal.asTrue) ↔
      ∃ rule ∈ r.longRules, ∃ clause ∈ (instances r rule).1, ∃ l ∈ clause, l.asTrue = a := by
    simp only [List.mem_flatMap, weightedInstances, List.mem_map]
    constructor
    · rintro ⟨-, ⟨rule, hrule, clause, hclause, rfl⟩, l, hl, heq⟩
      exact ⟨rule, hrule, clause, hclause, l, hl, heq⟩
    · rintro ⟨rule, hrule, clause, hclause, l, hl, heq⟩
      exact ⟨_, ⟨rule, hrule, clause, hclause, rfl⟩, l, hl, heq⟩
  rw [mentioned, firstClauses, List.flatMap_append, List.mem_append, List.mem_append, List.mem_map,
    List.mem_flatMap, List.mem_flatMap, hunit, hrule]

/-- **A closed literal becomes a variable because there is evidence for it**, or because a ground
clause of one literal names it. -/
theorem evidence_or_unit_of_mem_mentioned (ha : a ∈ r.mentioned)
    (hclosed : r.isClosed a.name = true) :
    (r.lastEvidence? a).isSome = true ∨ a.isGround = true ∧ ∃ w, (a, w) ∈ r.units := by
  rcases mem_mentioned_iff.1 ha with ⟨e, he, rfl⟩ | hunit | ⟨rule, -, clause, hclause, k, hk, rfl⟩
  · exact .inl (isSome_lastEvidence?.2 ⟨e, he, rfl⟩)
  · exact .inr hunit
  · exact .inl (isSome_lastEvidence?.2 ⟨_, mem_evidence_of_mem_instances hclause hk hclosed, rfl⟩)

/-- A ground clause of one literal is among the grounded rules of its literal. -/
theorem exists_mem_rulesOf {w : α} (hu : (l, w) ∈ r.units) (hground : l.isGround = true) :
    ∃ g ∈ r.rulesOf (r.groundAll.1.numberOf l),
      g.ifTrue = LogProb.clip (LogProb.logSigmoid w) := by
  have hclause : (w, [l]) ∈ r.clauses := List.mem_append_left _ <| List.mem_append_left _ <|
    List.mem_map.2 ⟨(l, w), List.mem_filter.2 ⟨hu, hground⟩, rfl⟩
  have htruth : l.truth = true := truth_of_mem_units hu
  obtain ⟨g, hg, hconsequent, hifTrue⟩ : ∃ g, r.groundAll.1.weightedGroundingOf (w, [l]) = some g ∧
      g.consequent = r.groundAll.1.numberOf l ∧ g.ifTrue = LogProb.clip (LogProb.logSigmoid w) := by
    simp [weightedGroundingOf, groundingOf, htruth]
  refine ⟨g, List.mem_filter.2 ⟨?_, beq_iff_eq.2 hconsequent⟩, hifTrue⟩
  rw [r.groundings_groundAll.2.2]
  exact List.mem_filterMap.2 ⟨_, hclause, hg⟩

/-- What the evidence says nothing of is fixed by its grounded rules, if it has some. -/
theorem Built.fixedValue?_of_rules (h : r.Built net) (ha : r.groundAll.1.Knows a)
    (hnone : r.lastEvidence? a = none) (hne : r.rulesOf (r.groundAll.1.numberOf a) ≠ []) :
    net.fixedValue? a = fixedBy? (r.rulesOf (r.groundAll.1.numberOf a)) := by
  have hevidence := (last?_evidenceOf_eq ha).trans hnone
  rw [h.fixedValue?_eq ha, if_pos hne, hevidence, Option.or_none, fixedAt, any_evidenceOf,
    hevidence]
  rfl

/-- **The network fixes the closed literals that there is evidence for.**

A closed literal that is a variable is fixed to what has been registered of it last.  One of which
nothing has been registered is named by a ground clause of one literal, and its grounded rules
settle it, as they do an open one.  So if the ground clauses of one literal name no closed literal
without evidence, all closed literals are fixed, and none to be true without evidence. -/
theorem build_keeps_closed (hbuild : r.build = .ok (net, notes)) :
    (∀ a ∈ net.literals, r.isClosed a.name = true →
      (∃ b, r.lastEvidence? a = some b ∧ net.fixedValue? a = some b ∧
        (b = true → a ∈ r.evidence)) ∨
      r.lastEvidence? a = none ∧ a.isGround = true ∧ (∃ w, (a, w) ∈ r.units) ∧
        net.fixedValue? a = fixedBy? (r.rulesOf (r.groundAll.1.numberOf a))) ∧
    ((∀ u ∈ r.units, u.1.isGround = true → r.isClosed u.1.name = true →
        (r.lastEvidence? u.1).isSome = true) →
      ∀ a ∈ net.literals, r.isClosed a.name = true → r.KeepsClosed net a) := by
  have hbuilt := built_of_build hbuild
  have hevidence : ∀ a ∈ net.literals, ∀ b, r.lastEvidence? a = some b →
      net.fixedValue? a = some b ∧ (b = true → a ∈ r.evidence) := by
    intro a ha b hb
    refine ⟨hbuilt.fixedValue?_of_evidence hb, fun htrue => mem_evidence_of_lastEvidence? ?_⟩
    have htruth : a.truth = true := by
      rw [← asTrue_of_mem_mentioned (hbuilt.mem_literals.1 ha)]
      rfl
    rw [hb, htrue, htruth]
  refine ⟨fun a ha hclosed => ?_, fun hunits a ha hclosed => ?_⟩
  · cases hlast : r.lastEvidence? a with
    | some b => exact .inl ⟨b, rfl, hevidence a ha b hlast⟩
    | none =>
      -- without evidence a ground clause of one literal names it, so there is a rule for it
      have hmentioned := hbuilt.mem_literals.1 ha
      obtain ⟨hground, w, hu⟩ := (evidence_or_unit_of_mem_mentioned hmentioned hclosed).resolve_left
        (by simp [hlast])
      obtain ⟨g, hg, -⟩ := exists_mem_rulesOf hu hground
      have hknows : r.groundAll.1.Knows a :=
        knows_iff.2 (asTrue_of_mem_mentioned hmentioned ▸ hmentioned)
      exact .inr ⟨rfl, hground, ⟨w, hu⟩,
        hbuilt.fixedValue?_of_rules hknows hlast (List.ne_nil_of_mem hg)⟩
  · have hsome : (r.lastEvidence? a).isSome = true := by
      rcases evidence_or_unit_of_mem_mentioned (hbuilt.mem_literals.1 ha) hclosed with
        hsome | ⟨hground, w, hu⟩
      · exact hsome
      · exact hunits _ hu hground hclosed
    obtain ⟨b, hb⟩ := Option.isSome_iff_exists.1 hsome
    exact ⟨b, hevidence a ha b hb⟩

end Build

/-- Perhaps Ann is a parent of Bob. -/
noncomputable def parenthoodGuess : Rule EReal := ⟨1, [⟨"parent", "Ann", "Bob", true⟩]⟩

/-- A closed predicate, and a prior for one of its literals. -/
noncomputable def guessHistory : List (Registration EReal) :=
  [.predicates [⟨"parent", "Person", "Person", true⟩], .priors [parenthoodGuess]]

theorem after_guessHistory : letI := unwritten
    (fresh .geometricMean ((1 / 2 : ℝ) : EReal) false 1).after guessHistory =
      { fresh .geometricMean ((1 / 2 : ℝ) : EReal) false 1 with
        predicates := [⟨"parent", "Person", "Person", true⟩]
        domains := ⟨[("Person", ["Ann", "Bob"])]⟩
        priors := [parenthoodGuess] } := by
  simp [guessHistory, after, register, addPredicates]
  rfl

/-- Evidence settles what the prior leaves open. -/
theorem build_keeps_closed_guess : letI := unwritten
    let r := (fresh .geometricMean ((1 / 2 : ℝ) : EReal) false 1).after
      (guessHistory ++ [.evidence [⟨"parent", "Ann", "Bob", false⟩]])
    let a : Literal := ⟨"parent", "Ann", "Bob", true⟩
    (∀ u ∈ r.units, u.1.isGround = true → r.isClosed u.1.name = true →
      (r.lastEvidence? u.1).isSome = true) ∧
    ∃ net notes, r.build = .ok (net, notes) ∧ a ∈ net.literals ∧ r.KeepsClosed net a := by
  let _ := unwritten
  intro r a
  have hr : r = { fresh .geometricMean ((1 / 2 : ℝ) : EReal) false 1 with
      predicates := [⟨"parent", "Person", "Person", true⟩]
      domains := ⟨[("Person", ["Ann", "Bob"])]⟩
      evidence := [⟨"parent", "Ann", "Bob", false⟩]
      priors := [parenthoodGuess] } := by
    change (fresh .geometricMean ((1 / 2 : ℝ) : EReal) false 1).after _ = _
    rw [after_append, after_guessHistory]
    rfl
  have hfew : r.mentioned.length < tableCeiling := by
    rw [hr]
    decide
  obtain ⟨net, notes, hbuild⟩ := exists_build_after create_kinship (by decide) hfew
  have hunits : ∀ u ∈ r.units, u.1.isGround = true → r.isClosed u.1.name = true →
      (r.lastEvidence? u.1).isSome = true := by
    have hlist : r.units = [(a, 1)] := by
      rw [hr]
      exact congrArg (fun w => [(a, w)]) rfl
    intro u hu _ _
    rw [hlist, List.mem_singleton] at hu
    rw [hu, hr]
    rfl
  have ha : a ∈ net.literals := by
    rw [(built_of_build hbuild).mem_literals]
    change a ∈ r.mentioned
    rw [hr]
    decide
  have hclosed : r.isClosed a.name = true := by
    rw [hr]
    decide
  exact ⟨hunits, net, notes, hbuild, ha, (r.build_keeps_closed hbuild).2 hunits a ha hclosed⟩

/-- Without evidence it is not fixed, though its predicate is closed. -/
theorem not_keepsClosed_guess : letI := unwritten
    let r := (fresh .geometricMean ((1 / 2 : ℝ) : EReal) false 1).after guessHistory
    let a : Literal := ⟨"parent", "Ann", "Bob", true⟩
    ∃ net notes, r.build = .ok (net, notes) ∧ a ∈ net.literals ∧ r.isClosed a.name = true ∧
      r.evidence = [] ∧ net.fixedValue? a = none ∧ ¬r.KeepsClosed net a := by
  let _ := unwritten
  intro r a
  have hr : r = _ := after_guessHistory
  have hfew : r.mentioned.length < tableCeiling := by
    rw [hr]
    decide
  obtain ⟨net, notes, hbuild⟩ := exists_build_after create_kinship (by decide) hfew
  have hmentioned : a ∈ r.mentioned := by
    rw [hr]
    decide
  have hunit : (a, (1 : EReal)) ∈ r.units := by
    rw [hr]
    exact List.mem_cons_self
  obtain ⟨g, hg, hweight⟩ := exists_mem_rulesOf hunit (by decide)
  have hlast : r.lastEvidence? a = none := by
    rw [hr]
    rfl
  -- a prior of weight one does not fix what it is about
  have hopen : net.fixedValue? a = none := by
    have hknows : r.groundAll.1.Knows a := knows_iff.2 hmentioned
    rw [(built_of_build hbuild).fixedValue?_of_rules hknows hlast (List.ne_nil_of_mem hg)]
    exact fixedBy?_eq_none_of_one hg hweight
  refine ⟨net, notes, hbuild, (built_of_build hbuild).mem_literals.2 hmentioned, ?_, ?_, hopen, ?_⟩
  · rw [hr]
    decide
  · rw [hr]
    rfl
  · rintro ⟨b, hb, -⟩
    rw [hopen] at hb
    cases hb

end Registry

end FactNet
