import Mathlib
import FactNet.Proofs.Grounding.Content
import FactNet.Proofs.Net.Certain

/-!
# Evidence is upheld

Evidence fixes the variable of its literal, whatever the rules say of it: grounded rules settle a
consequent only where the evidence does not.  What is fixed is never adjustable, so nothing that a
chain does touches it, and all that is told of it is its value.

Of two pieces of evidence for one literal the last one counts.

## Main definitions

* `Registry.lastEvidence?` — what the evidence says of a literal.
* `BayesNet.Upholds` — a network holds on to a value of a literal.
* `BayesNet.Estimates` — a network tells a marginal of a literal.

## Main results

* `Registry.lastEvidence?_addEvidence` — evidence that is registered last counts.
* `Registry.last?_fixed_of_evidence` — **the evidence fixes its variable, whatever the rules say.**
* `Registry.fixes_of_evidence` — so no chain adjusts it.
* `Registry.build_upholds_evidence` — **the network that is built upholds the evidence.**
-/

namespace FactNet

open Scalar GroundState

/-! ### What a network holds on to -/

namespace BayesNet

variable {α : Type} [Scalar α]

/-- A network holds on to a value of a literal: it is fixed to it, has it in the world and in the
best world of whatever a chain gets to, and is told with it, and with nothing else, by every search
that has an answer. -/
structure Upholds (net : BayesNet α) (l : Literal) (b : Bool) : Prop where
  fixedValue?_eq : net.fixedValue? l = some b
  holds : ∀ {σ : Type} [RandomStream σ α] [LawfulChoice σ] {mode : Mode} {s : Sampler σ α},
    s.Reachable net mode → ∀ i, net.idOf? l = some i → s.Holds i b
  mem_assignment : ∀ {σ : Type} [RandomStream σ α] [LawfulChoice σ] {streams : Nat → σ}
    {iters : Nat} {result : MapResult α} {notes : List Event},
    net.gibbsMapFrom streams iters = .ok (result, notes) →
      ∀ v, (l.asTrue, v) ∈ result.assignment ↔ v = b

/-- A network tells a marginal of a literal, after any number of steps. -/
def Estimates (net : BayesNet α) (l : Literal) (x : α) : Prop :=
  ∀ {σ : Type} [RandomStream σ α] [LawfulChoice σ] (streams : Nat → σ) (iters : Nat),
    ∃ marginals notes, net.gibbsMarginalsFrom streams iters = .ok (marginals, notes) ∧
      ∀ p, (l.asTrue, p) ∈ marginals ↔ p = x

end BayesNet

namespace Registry

/-! ### The last evidence -/

section Last

variable {α : Type}

/-- What the evidence says of a literal; the last piece counts. -/
def lastEvidence? (r : Registry α) (l : Literal) : Option Bool :=
  Pairs.last? (r.evidence.map fun e => (e.asTrue, e.truth)) l.asTrue

/-- Evidence that is registered last counts. -/
theorem lastEvidence?_addEvidence {r : Registry α} {e : Literal} (h : (r.addEvidence e).2 = none)
    (l : Literal) : (r.addEvidence e).1.lastEvidence? l =
      if e.asTrue = l.asTrue then some e.truth else r.lastEvidence? l := by
  have hevidence : (r.addEvidence e).1.evidence = r.evidence ++ [e] := by
    unfold addEvidence at h ⊢
    split at h
    · cases h
    · split at h
      · cases h
      · split at h
        · cases h
        · next hopen hground =>
          simp [hopen, hground]
  rw [lastEvidence?, hevidence, List.map_append, List.map_singleton, Pairs.last?_concat]
  exact if_congr beq_iff_eq rfl rfl

end Last

variable {α : Type} [Scalar α] [Numeral α] {r : Registry α} {l : Literal} {b : Bool}

/-- What the evidence says something of is a variable. -/
theorem knows_of_lastEvidence? (h : r.lastEvidence? l = some b) : r.groundAll.1.Knows l := by
  obtain ⟨e, he, heq⟩ := List.mem_map.1 (Pairs.mem_of_last?_eq_some h)
  have hknows := knows_of_mem_evidence he
  rwa [Knows, (Prod.mk.inj heq).1] at hknows

/-- The value that the evidence gives a variable is what it says of the literal. -/
theorem last?_evidenceOf_eq (hl : r.groundAll.1.Knows l) :
    Pairs.last? r.evidenceOf (r.groundAll.1.numberOf l) = r.lastEvidence? l := by
  have hnumber : (r.evidence.map fun e => (r.groundAll.1.numberOf e, e.truth)) =
      (r.evidence.map fun e => (e.asTrue, e.truth)).map
        fun p => (r.groundAll.1.numberOf p.1, p.2) := by
    rw [List.map_map]
    rfl
  rw [evidenceOf_eq, Pairs.last?_collapse, hnumber, lastEvidence?]
  refine Pairs.last?_map r.groundAll.1.numberOf _ (k := l.asTrue) fun p hp heq => ?_
  obtain ⟨e, he, rfl⟩ := List.mem_map.1 hp
  -- literals that are known are told apart by their numbers
  have hliteral := literalOf_numberOf (knows_of_mem_evidence he)
  rw [show r.groundAll.1.numberOf e = r.groundAll.1.numberOf l from heq, literalOf_numberOf hl]
    at hliteral
  exact hliteral.symm

/-! ### The variable of a piece of evidence -/

variable {net : BayesNet α} {notes : List Event}

/-- **The evidence fixes its variable, whatever the rules say.** -/
theorem last?_fixed_of_evidence (hbuilt : r.Built net) (h : r.lastEvidence? l = some b) :
    Pairs.last? net.fixed (r.groundAll.1.numberOf l) = some b := by
  have hevidence := (last?_evidenceOf_eq (knows_of_lastEvidence? h)).trans h
  have hrules : r.fixedAt (r.groundAll.1.numberOf l) = none := by
    unfold fixedAt
    rw [any_evidenceOf, hevidence]
    rfl
  rw [hbuilt.fixed, hevidence]
  split
  · next hi => rw [(outcome_spec hi (hbuilt.settled _ hi)).1, hrules, Option.none_or]
  · rfl

/-- Only variables are fixed. -/
theorem Built.fixed_lt (hbuilt : r.Built net) : ∀ e ∈ net.fixed, e.1 < net.literals.size := by
  intro e he
  rw [hbuilt.literals]
  have hsome := Pairs.isSome_last?.2 ⟨e.2, he⟩
  rw [hbuilt.fixed] at hsome
  by_cases hi : e.1 ∈ r.consequents
  · exact lt_of_mem_consequents hi
  · rw [if_neg hi, Option.none_or, evidenceOf_eq, Pairs.last?_collapse, Pairs.isSome_last?] at hsome
    obtain ⟨b, hb⟩ := hsome
    obtain ⟨e', he', heq⟩ := List.mem_map.1 hb
    rw [← (Prod.mk.inj heq).1]
    exact numberOf_lt (knows_of_mem_evidence he')

/-- No chain adjusts what a network fixes. -/
theorem fixes_of_fixed (hbuild : r.build = .ok (net, notes)) (hl : r.groundAll.1.Knows l)
    (hvalue : Pairs.last? net.fixed (r.groundAll.1.numberOf l) = some b) :
    net.Fixes (r.groundAll.1.numberOf l) l.asTrue b := by
  have hbuilt := built_of_build hbuild
  refine ⟨?_, hbuilt.fixed_lt, ?_, hvalue, fun hi => ?_⟩
  · rw [hbuilt.literals]
    exact r.groundings_groundAll.1
  · rw [hbuilt.literals]
    exact getElem?_numberOf hl
  · rw [BayesNet.last?_fixed_of_mem_adjustable (assemble_of_build hbuild).2 hi] at hvalue
    cases hvalue

/-- **So no chain adjusts it.** -/
theorem fixes_of_evidence (hbuild : r.build = .ok (net, notes)) (h : r.lastEvidence? l = some b) :
    net.Fixes (r.groundAll.1.numberOf l) l.asTrue b :=
  fixes_of_fixed hbuild (knows_of_lastEvidence? h)
    (last?_fixed_of_evidence (built_of_build hbuild) h)

omit [Numeral α] in
/-- A table is made of its rules. -/
theorem made_of_tableOf {text : String} {rules : List (GroundedRule α)} {f : Factor α}
    (h : r.tableOf text rules = .ok f) : f.Made := by
  unfold tableOf at h
  dsimp only at h
  split at h
  · cases h
  · split at h
    · next htable =>
      cases h
      exact .eager htable
    · cases h

/-- The factors of a consequent are tables that its rules make. -/
theorem made_of_settleAt {i : Nat} {o : Settled α} (h : r.settleAt i = .ok o) :
    ∀ f ∈ o.factorsOf, f.Made := by
  unfold settleAt settle at h
  split at h
  · cases h
    exact List.forall_mem_nil _
  · unfold makeFactors at h
    split at h
    · cases h
    · next prior others _ =>
      dsimp only at h
      generalize (if others.isEmpty then [[]] else batches others) = groups at h
      cases hfs : groups.mapM fun batch => r.tableOf
          (((r.groundAll.1.literals[i]?).map Literal.text).getD "") (prior :: batch) with
      | error e =>
        rw [hfs] at h
        cases h
      | ok fs =>
        rw [hfs] at h
        cases h
        intro f hf
        obtain ⟨batch, -, hbatch⟩ := exists_of_mem_of_mapM hfs hf
        exact made_of_tableOf hbatch

/-- A network that is built is made of parts, over the factors there are. -/
theorem wellMade_of_build (hbuild : r.build = .ok (net, notes)) : net.WellMade := by
  obtain ⟨hsettled, hparts⟩ := assemble_of_build hbuild
  refine ⟨⟨_, _, _, _, _, _, hparts⟩, fun f hf => ?_⟩
  rw [(built_of_build hbuild).factors] at hf
  obtain ⟨i, hi, hf⟩ := List.mem_flatMap.1 hf
  exact made_of_settleAt (hsettled i hi) f hf

/-! ### The network that is built -/

theorem upholds_of_evidence {β : Type} [LinearOrder β] {rank : α → β} {P : α → Prop}
    (hrank : Ranked rank P) (hbuild : r.build = .ok (net, notes)) (h : r.lastEvidence? l = some b) :
    net.Upholds l b := by
  have hfixes := fixes_of_evidence hbuild h
  have hid := (built_of_build hbuild).idOf?_eq_some (knows_of_lastEvidence? h)
  refine ⟨?_, fun hs i hi => ?_, fun hanswer v => ?_⟩
  · rw [BayesNet.fixedValue?, hid, Option.bind_some, hfixes.value]
  · obtain rfl := Option.some_inj.1 (hid.symm.trans hi)
    exact hfixes.holds hs
  · exact hfixes.mem_assignment hrank (wellMade_of_build hbuild).threads_pos hanswer v

theorem estimates_of_evidence {bound : Nat} (hexact : ExactBelow α bound)
    (hbound : Sampler.restartSteps < bound) (hbuild : r.build = .ok (net, notes))
    (hthreads : net.threads < bound) (h : r.lastEvidence? l = some b) :
    net.Estimates l (if b then one else zero) := fun streams iters =>
  (fixes_of_evidence hbuild h).exists_gibbsMarginalsFrom hexact hbound
    (wellMade_of_build hbuild).threads_pos hthreads streams iters

/-- **The network that is built upholds the evidence.**

Of the pieces of evidence that have been registered for a literal the last one counts, and whatever
else has been registered, the network holds on to it: it fixes the literal, so do all states that
its chains get to, and so does what is told of the best world.  Over exact numbers a search always
has an answer, and the marginal that is told is one or zero, for any number of steps and chains.
In doubles it is, too, if the number of chains can be counted in them. -/
theorem build_upholds_evidence :
    (∀ {α : Type} {r : Registry α} {e : Literal}, (r.addEvidence e).2 = none → ∀ l : Literal,
      (r.addEvidence e).1.lastEvidence? l =
        if e.asTrue = l.asTrue then some e.truth else r.lastEvidence? l) ∧
    (∀ [Numeral EReal] {r : Registry EReal} {net : BayesNet EReal} {notes : List Event},
      r.build = .ok (net, notes) →
      (∀ (l : Literal) (b : Bool), r.lastEvidence? l = some b →
        net.Upholds l b ∧ net.Estimates l (if b then one else zero)) ∧
      ∀ {σ : Type} [RandomStream σ EReal] (streams : Nat → σ) (iters : Nat),
        ∃ result notes, net.gibbsMapFrom streams iters = .ok (result, notes)) ∧
    ∀ {r : Registry Float} {net : BayesNet Float} {notes : List Event},
      r.build = .ok (net, notes) → ∀ (l : Literal) (b : Bool), r.lastEvidence? l = some b →
        net.Upholds l b ∧ (net.threads < 2 ^ 53 → net.Estimates l (if b then one else zero)) := by
  refine ⟨fun h l => lastEvidence?_addEvidence h l, fun {_ _ net _} hbuild => ⟨fun l b h => ?_,
    fun streams iters => ?_⟩, fun hbuild l b h => ?_⟩
  · refine ⟨upholds_of_evidence ranked_ereal hbuild h, ?_⟩
    exact estimates_of_evidence (exactBelow_ereal (Sampler.restartSteps + net.threads + 1))
      (by omega) hbuild (by omega) h
  · exact (wellMade_of_build hbuild).exists_gibbsMapFrom (built_of_build hbuild).fixed_lt streams
      iters
  · refine ⟨upholds_of_evidence ranked_float hbuild h, fun hthreads => ?_⟩
    exact estimates_of_evidence exactBelow_float (by decide) hbuild hthreads h

/-- A rule that makes every parenthood that is known of all but certain. -/
noncomputable def parenthoodRule : Rule EReal := ⟨9, [⟨"parent", "x", "y", true⟩]⟩

/-- Evidence for both directions of a parenthood, one of which is taken back, and a rule for it. -/
noncomputable def disputedHistory : List (Registration EReal) :=
  [.predicates [⟨"parent", "Person", "Person", true⟩],
    .predicates [⟨"ancestor", "Person", "Person", false⟩],
    .evidence [⟨"parent", "Ann", "Bob", true⟩, ⟨"parent", "Bob", "Ann", true⟩],
    .rules [parenthoodRule, kinshipRule],
    .evidence [⟨"parent", "Bob", "Ann", false⟩]]

theorem after_disputedHistory : letI := unwritten
    (fresh .geometricMean ((1 / 2 : ℝ) : EReal) false 2).after disputedHistory =
      { fresh .geometricMean ((1 / 2 : ℝ) : EReal) false 2 with
        predicates := [⟨"parent", "Person", "Person", true⟩, ⟨"ancestor", "Person", "Person", false⟩]
        domains := ⟨[("Person", ["Ann", "Bob"])]⟩
        evidence := [⟨"parent", "Ann", "Bob", true⟩, ⟨"parent", "Bob", "Ann", true⟩,
          ⟨"parent", "Bob", "Ann", false⟩]
        rules := [parenthoodRule, kinshipRule] } := by
  simp [disputedHistory, after, register, addPredicates]
  rfl

/-- Evidence in doubles, with nothing else. -/
def plainRegistry : Registry Float where
  defaultPrior := half
  threads := 3
  evidence := [⟨"parent", "Ann", "Bob", true⟩, ⟨"parent", "Bob", "Ann", false⟩]

/-- What is taken back is false, though a rule makes it all but certain; and the evidence is upheld in
doubles as well. -/
theorem build_upholds_evidence_disputed : letI := unwritten
    let r := (fresh .geometricMean ((1 / 2 : ℝ) : EReal) false 2).after disputedHistory
    (∃ net notes, r.build = .ok (net, notes) ∧ net.Upholds ⟨"parent", "Ann", "Bob", true⟩ true ∧
      net.Upholds ⟨"parent", "Bob", "Ann", true⟩ false ∧
      net.Estimates ⟨"parent", "Bob", "Ann", true⟩ zero ∧
      ∃ result notes', net.gibbsMap 1000 = .ok (result, notes')) ∧
    ∃ net notes, plainRegistry.build = .ok (net, notes) ∧ net.threads < 2 ^ 53 ∧
      net.Upholds ⟨"parent", "Bob", "Ann", true⟩ false ∧
      net.Estimates ⟨"parent", "Bob", "Ann", true⟩ zero := by
  let _ := unwritten
  intro r
  obtain ⟨-, hexact, hdouble⟩ := build_upholds_evidence
  constructor
  · -- over exact numbers the answer is told as well
    have hfew : r.mentioned.length < tableCeiling := by
      rw [show r = _ from after_disputedHistory]
      decide
    obtain ⟨h0, h1⟩ := lt_of_create create_kinship
    obtain ⟨net, notes, hbuild⟩ :=
      exists_build_after (create_eq_ok .geometricMean h0 h1 false 2) (by decide) hfew
    have hlast : r.lastEvidence? ⟨"parent", "Ann", "Bob", true⟩ = some true ∧
        r.lastEvidence? ⟨"parent", "Bob", "Ann", true⟩ = some false := by
      rw [show r = _ from after_disputedHistory]
      exact ⟨rfl, rfl⟩
    obtain ⟨hupholds, hanswer⟩ := hexact hbuild
    exact ⟨net, notes, hbuild, (hupholds _ _ hlast.1).1, (hupholds _ _ hlast.2).1,
      (hupholds _ _ hlast.2).2, hanswer _ 1000⟩
  · -- in doubles building is run
    have hthreads : plainRegistry.build.map (fun answer => answer.1.threads) = .ok 3 := by
      decide +kernel
    cases hbuild : plainRegistry.build with
    | error e =>
      rw [hbuild] at hthreads
      cases hthreads
    | ok answer =>
      rw [hbuild] at hthreads
      have hlt : answer.1.threads < 2 ^ 53 := by
        rw [show answer.1.threads = 3 from Except.ok.inj hthreads]
        decide
      obtain ⟨hupholds, hestimates⟩ := hdouble hbuild ⟨"parent", "Bob", "Ann", true⟩ false rfl
      exact ⟨answer.1, answer.2, rfl, hlt, hupholds, hestimates hlt⟩

end Registry

end FactNet
