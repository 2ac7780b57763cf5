import FactNet.Proofs.Extension
import FactNet.Proofs.Grounding.Certain
import FactNet.Proofs.Net.Weights
import FactNet.Proofs.Query.Monotone
import FactNet.Proofs.TypedNames

/-!
# Known facts under another spelling

A fact enters the network by the name of its predicate, in which several spellings of a relation
become one.  What is read off the network gets the one spelling that the name reads back as, and
before it is added the graph is asked for exactly that spelling.  So a known fact is stated again
if its literal is probable and the graph does not have the spelling that its predicate reads back
as, and only then.

## Main definitions

* `Fact.ReadsBack` — the name of the predicate of a fact reads back as the relation of the fact.
* `Fact.IsRestatedBy` — a fact that is read off the network states a known fact again.

## Main results

* `Fact.readsBack_iff_of_known` — a relation of the catalogue reads back just if it is spelled as the
  catalogue has it.
* `QueryEngine.mem_added_iff` — what is probable is added just if it is not known in the spelling
  that reads back.
* `QueryEngine.restates_only_misspelled` — **no known fact whose relation reads back is stated
  again.**
-/

namespace FactNet

open Scalar

variable {α : Type}

namespace Fact

/-- The name of the predicate of a fact reads back as the relation of the fact. -/
def ReadsBack (f : Fact α) : Prop :=
  untypedRelation f.predicateName = f.relation

/-- A fact of a relation of the catalogue reads back just if it is spelled as the catalogue has
it. -/
theorem readsBack_iff_of_known {f : Fact α} {r : KnownRelation}
    (hascii : ∀ c ∈ f.relation.toList, c.toNat < 128)
    (hr : KnownRelation.find? f.relation = some r) : f.ReadsBack ↔ f.relation = r.name := by
  obtain ⟨hmem, hfolded⟩ := KnownRelation.find?_eq_some_iff.1 hr
  have hname := (foldedChars_cleanName hascii).trans hfolded
  rw [ReadsBack, predicateName, untypedRelation_eq, toList_cleanRelation,
    (before_typeMarker_of_known hmem hname _).2, graphSpelling_of_known hmem hname, eq_comm]

/-- What is spelled as the catalogue has it reads back. -/
theorem readsBack_of_mem_catalogue {f : Fact α} {r : KnownRelation} (hr : r ∈ catalogue)
    (hname : f.relation = r.name) : f.ReadsBack := by
  have hplain : (catalogue.all fun r => r.name.toList.all fun c => c.toNat < 128) = true := by
    decide +kernel
  refine (readsBack_iff_of_known (fun c hc => ?_) ?_).2 hname
  · rw [hname] at hc
    exact of_decide_eq_true (List.all_eq_true.1 (List.all_eq_true.1 hplain r hr) c hc)
  · rw [hname]
    exact KnownRelation.find?_eq_some_iff.2 ⟨hr, rfl⟩

/-- A fact that is read off the network under the name of a predicate states a known fact again: the
two have the same head and the same tail, and the known one has that predicate. -/
structure IsRestatedBy (known : Fact α) (name : String) (f : Fact α) : Prop where
  /-- They are about the same entity. -/
  head : known.head = f.head
  /-- They lead to the same entity. -/
  tail : known.tail = f.tail
  /-- The known one has the predicate. -/
  predicate : known.predicateName = name

/-- A known fact that reads back is known under the key of a fact that states it again. -/
theorem IsRestatedBy.key_eq {known f : Fact α} {name : String} (h : known.IsRestatedBy name f)
    (hreads : known.ReadsBack) (hrelation : f.relation = untypedRelation name) :
    known.key = f.key := by
  have heq : known.relation = f.relation := by
    rw [hrelation, ← h.predicate, hreads]
  rw [key, key, h.head, h.tail, heq]

end Fact

namespace QueryEngine

variable [Scalar α] [Numeral α] {q : QueryEngine α} {g g' : FactGraph α} {pivot : Entity}
  {rules : Program α} {entities : List (String × Entity)} {added : List (Fact α)}

omit [Numeral α] in
/-- What is probable is added just if it is not known in the spelling that reads back. -/
theorem mem_added_iff (hgrown : g.GrowsBy pivot added g') {l : Literal} {p : α} {f : Fact α}
    (hfact : q.factOf? rules entities pivot l p = some f) (hthere : g'.contains f.key = true) :
    f.key ∈ added.map Fact.key ↔ ∀ known ∈ g.facts,
      known.head = pivot → known.tail = f.tail → known.relation ≠ untypedRelation l.name := by
  obtain ⟨-, -, d, e, -, -, -, hparts⟩ := factOf?_eq_some_iff.1 hfact
  have hkey : f.key = (pivot, untypedRelation l.name, f.tail) := by rw [Fact.key, hparts]
  have hadded : f.key ∈ added.map Fact.key ↔ g.contains f.key = false := by
    constructor
    · intro hmem
      obtain ⟨f', hf', heq⟩ := List.mem_map.1 hmem
      exact heq ▸ hgrown.fresh f' hf'
    · intro hfresh
      by_contra hnot
      rw [hgrown.contains_eq_false_iff.2 ⟨hfresh, hnot⟩] at hthere
      cases hthere
  rw [hadded, FactGraph.contains_eq_false_iff, hkey]
  refine forall₂_congr fun known _ => ?_
  rw [Fact.key, ne_eq, Prod.mk.injEq, Prod.mk.injEq]
  constructor
  · intro h hhead htail hrelation
    exact h ⟨hhead, hrelation, htail⟩
  · rintro h ⟨hhead, hrelation, htail⟩
    exact h hhead htail hrelation

/-- **No known fact whose relation reads back is stated again.**

What sampling adds are facts of literals of the answer that are probable enough.  Of these literals
those add a fact whose relation, as it reads back, the graph does not have between the pivot and the
other entity.  So whenever a fact is added that states a known one again, the relation of the known
one is not what the name of its predicate reads back as. -/
theorem restates_only_misspelled {ask : BayesNet α → Except SearchFault (Answer α)}
    {pairings : Option (List (String × List String))} {events : List Event} (hmade : g.Made)
    (happly : q.applyWith ask g pivot pairings = .ok (g', events)) :
    let rules := q.reduce (q.rulesFor g pivot)
    let entities := entitiesWith pivot (q.evidenceFor g rules).entities
    g' = g ∨ ∃ net answer added, ask net = .ok answer ∧ g.GrowsBy pivot added g' ∧
      (∀ f ∈ added, ∃ l p, (l, p) ∈ answer.probabilities ∧
        q.factOf? rules entities pivot l p = some f) ∧
      (∀ l p f, (l, p) ∈ answer.probabilities → q.factOf? rules entities pivot l p = some f →
        (f.key ∈ added.map Fact.key ↔ ∀ known ∈ g.facts,
          known.head = pivot → known.tail = f.tail → known.relation ≠ untypedRelation l.name)) ∧
      ∀ f ∈ added, ∀ l p, q.factOf? rules entities pivot l p = some f →
        ∀ known ∈ g.facts, known.IsRestatedBy l.name f → ¬known.ReadsBack := by
  intro rules entities
  refine (exists_growsBy_of_applyWith hmade happly).imp id ?_
  rintro ⟨net, answer, added, hask, hgrown, hsource, hthere⟩
  refine ⟨net, answer, added, hask, hgrown, hsource, fun l p f hl hfact => ?_,
    fun f hf l p hfact known hknown hrestated hreads => ?_⟩
  · exact mem_added_iff hgrown hfact (hthere l p f hl hfact)
  · obtain ⟨-, -, d, e, -, -, -, hparts⟩ := factOf?_eq_some_iff.1 hfact
    have hkey : known.key = f.key := hrestated.key_eq hreads (by rw [hparts])
    exact FactGraph.contains_eq_false_iff.1 (hgrown.fresh f hf) known hknown hkey

/-! ### A wedding -/

/-- The predicate of marriages. -/
def marriagePredicate : Predicate := ⟨"per_spouse_TYPE_PER_TO_PER", "PERSON", "PERSON", false⟩

/-- It reads back as the catalogue spells it. -/
theorem untypedRelation_marriagePredicate :
    untypedRelation marriagePredicate.name = "per:spouse" := by
  decide +kernel

/-- Ann is married to Bob, as the network has it. -/
def marriageAtom : Literal := ⟨marriagePredicate.name, "PER_Ann", "PER_Bob", true⟩

/-- Everyone is married to everyone. -/
noncomputable def marriageRule : Rule EReal := ⟨⊤, [⟨marriagePredicate.name, "x", "y", true⟩]⟩

/-- What an engine makes of that. -/
noncomputable def weddings : QueryEngine EReal where
  options := { prior := half, threads := 1 }
  mode := .oneRound
  method := .geometricMean
  candidates := .ofParts [marriagePredicate] [marriageRule]
  relations := ["per:spouse"]

/-- The bride. -/
def ann : Entity := ⟨"Ann", .person⟩

/-- The groom. -/
def bob : Entity := ⟨"Bob", .person⟩

/-- Ann is married to Bob, with a blank where the catalogue has a colon. -/
noncomputable def couple : FactGraph EReal := .ofFacts [⟨ann, "per spouse", bob, none, none⟩]

/-- What the network of Ann is built from. -/
noncomputable def weddingRegistry : Registry EReal :=
  { Registry.fresh .geometricMean half false 1 with
    predicates := [marriagePredicate]
    domains := ⟨[("PERSON", ["PER_Ann", "PER_Bob"])]⟩
    priors := [⟨⊤, [marriageAtom]⟩]
    rules := [marriageRule] }

theorem create_weddings : letI := Registry.unwritten
    Registry.create .geometricMean (half : EReal) false 1 =
      .ok (Registry.fresh .geometricMean half false 1) := by
  rw [half_ereal]
  exact Registry.create_kinship

theorem rules_weddings :
    (weddings.reduce (weddings.rulesFor couple ann)).predicates = [marriagePredicate] ∧
      (weddings.reduce (weddings.rulesFor couple ann)).rules = [marriageRule] := by
  have hadmits : (firstFrontier .oneRound couple ann).admits
      (weddings.candidates.predicates.map (·.name)) marriageRule = true := by
    decide +kernel
  refine ⟨by decide +kernel, (rules_selectRules_eq (.inl (by decide))).trans ?_⟩
  exact List.filter_eq_self.2 fun r hr => List.mem_singleton.1 hr ▸ hadmits

theorem registry_weddings {p : Program EReal} (hpredicates : p.predicates = [marriagePredicate])
    (hrules : p.rules = [marriageRule]) : letI := Registry.unwritten
    let evidence := weddings.evidenceFor couple p
    weddings.registry p evidence.program.rules (entitiesWith ann evidence.entities) none =
      .ok weddingRegistry := by
  let _ := Registry.unwritten
  obtain ⟨predicates, rules, ordered⟩ := p
  obtain rfl : predicates = _ := hpredicates
  obtain rfl : rules = _ := hrules
  intro evidence
  have hclauses : evidence.program.rules = [⟨⊤, [marriageAtom]⟩] := rfl
  have hentities : entitiesWith ann evidence.entities = [("PER_Ann", ann), ("PER_Bob", bob)] := rfl
  have hcreate : Registry.create weddings.method weddings.options.prior weddings.options.hillClimb
      weddings.options.threads = .ok (Registry.fresh .geometricMean half false 1) :=
    create_weddings
  rw [hclauses, hentities, registry, hcreate]
  simp only [Registry.addPredicates, List.mergeSort_singleton]
  rfl

theorem isCertain_weddingRegistry : weddingRegistry.IsCertain := by
  refine ⟨?_, fun rule hrule => ?_⟩
  · have hunits : weddingRegistry.units =
        [(marriageAtom, ⊤), (⟨marriagePredicate.name, "x", "y", true⟩, ⊤)] := rfl
    simp [hunits]
  · have hlong : weddingRegistry.longRules = [] := rfl
    rw [hlong] at hrule
    cases hrule

/-- Sampling answers that the marriage is certain. -/
theorem exists_estimates_wedding : letI := Registry.unwritten
    ∃ net notes, weddingRegistry.build = .ok (net, notes) ∧ net.Estimates marriageAtom one := by
  let _ := Registry.unwritten
  obtain ⟨h0, h1⟩ := Registry.lt_of_create create_weddings
  have hfew : weddingRegistry.mentioned.length < tableCeiling := by decide
  obtain ⟨net, notes, hbuild⟩ := Registry.build_ok (r := weddingRegistry) h0 h1 (by decide)
    fun i _ => Registry.not_tooWide hfew i
  have hmentioned : marriageAtom.asTrue ∈ weddingRegistry.mentioned := by decide
  have hunit : (marriageAtom, (⊤ : EReal)) ∈ weddingRegistry.units := List.mem_cons_self
  obtain ⟨g, hg, -⟩ := Registry.exists_mem_rulesOf hunit (by decide)
  exact ⟨net, notes, hbuild, Registry.estimates_of_isCertain isCertain_weddingRegistry hbuild
    (Registry.knows_iff.2 hmentioned) rfl (List.ne_nil_of_mem hg)⟩

/-- The marriage is added as the catalogue spells it. -/
theorem exists_apply_weddings : letI := Registry.unwritten
    ∃ g' events, weddings.apply couple ann none = .ok (g', events) ∧
      g'.contains (ann, "per:spouse", bob) = true := by
  let _ := Registry.unwritten
  obtain ⟨net, notes, hbuild, hestimates⟩ := exists_estimates_wedding
  obtain ⟨hpredicates, hrules⟩ := rules_weddings
  obtain ⟨marginals, notes', hmarginals, hone⟩ :=
    hestimates (fun i => MersenneTwister.ofSeed i) weddings.options.samples.toNat
  have hask : weddings.ask net = .ok ⟨marginals, [], notes'⟩ := by
    change (net.gibbsMarginals _).map _ = _
    rw [BayesNet.gibbsMarginals, hmarginals]
    rfl
  have hne : (weddings.rulesFor couple ann).rules ≠ [] := by
    change (weddings.reduce (weddings.rulesFor couple ann)).rules ≠ []
    simp [hrules]
  obtain ⟨entries, events, hperm, happly⟩ :=
    exists_applyWith_eq hne (registry_weddings hpredicates hrules) hbuild hask
  refine ⟨_, _, happly, ?_⟩
  -- a certain marriage is above the threshold, and is told of both
  have hfact : weddings.factOf? (weddings.reduce (weddings.rulesFor couple ann))
      (entitiesWith ann (weddings.evidenceFor couple
        (weddings.reduce (weddings.rulesFor couple ann))).entities) ann marriageAtom one =
        some ⟨ann, "per:spouse", bob, some one, none⟩ := by
    have hhalf : weddings.options.threshold < (one : EReal) := by
      change (half : EReal) < one
      rw [half_ereal, one_ereal, ← EReal.coe_one, EReal.coe_lt_coe_iff]
      norm_num
    refine factOf?_eq_some_iff.2 ⟨rfl, hhalf, marriagePredicate, ("PER_Bob", bob), ?_, rfl, rfl, ?_⟩
    · rw [Program.get?, hpredicates]
      rfl
    · rw [← untypedRelation_marriagePredicate]
      rfl
  exact contains_foldl_addLiteral (hperm.mem_iff.2 ((hone one).2 rfl)) hfact _

/-- The marriage is known already, with the predicate that is read off the network. -/
theorem apply_restates_couple : letI := Registry.unwritten
    ∃ g' events, weddings.apply couple ann none = .ok (g', events) ∧
      ∃ f ∈ g'.facts, couple.contains f.key = false ∧
        f.relation = untypedRelation marriagePredicate.name ∧
        ∃ known ∈ couple.facts, known.IsRestatedBy marriagePredicate.name f := by
  let _ := Registry.unwritten
  obtain ⟨g', events, happly, hmem⟩ := exists_apply_weddings
  obtain ⟨f, hf, hkey⟩ := FactGraph.contains_iff.1 hmem
  obtain ⟨hhead, hrelation, htail⟩ : f.head = ann ∧ f.relation = "per:spouse" ∧ f.tail = bob := by
    simpa [Fact.key] using hkey
  refine ⟨g', events, happly, f, hf, ?_, hrelation.trans untypedRelation_marriagePredicate.symm,
    ⟨ann, "per spouse", bob, none, none⟩, List.mem_cons_self, hhead.symm, htail.symm,
    by decide +kernel⟩
  rw [hkey]
  decide +kernel

/-- What states the marriage again is new, and the marriage does not read back. -/
theorem restates_only_misspelled_couple : letI := Registry.unwritten
    ∃ g' events added, couple.Made ∧ weddings.apply couple ann none = .ok (g', events) ∧
      couple.GrowsBy ann added g' ∧ added ≠ [] := by
  let _ := Registry.unwritten
  have hmade : couple.Made := FactGraph.made_ofFacts _
  obtain ⟨g', events, happly, hmem⟩ := exists_apply_weddings
  have hnew : couple.contains (ann, "per:spouse", bob) = false := by decide +kernel
  obtain rfl | ⟨net, answer, added, -, hgrown, -⟩ := restates_only_misspelled hmade happly
  · exact absurd hmem (by simp [hnew])
  · refine ⟨g', events, added, hmade, happly, hgrown, ?_⟩
    rintro rfl
    have hsame := hgrown.contains_eq_false_iff.2 ⟨hnew, List.not_mem_nil⟩
    exact absurd hmem (by simp [hsame])

end QueryEngine

end FactNet
