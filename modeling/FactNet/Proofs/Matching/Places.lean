import FactNet.Proofs.Adjacency
import FactNet.Proofs.Matching.Applied

/-!
# Where an inferred fact was read from

A fact that a rule of one antecedent adds is told with a place, that of the fact which the
antecedent is.  But the rule is found by what its variables are bound to, and the place by another
look at the graph: at the fact that leads from the pivot to the other entity.  The two are the same
if the variables of the antecedent can stand for the two entities in this order.  They are not if
the antecedent has the variables of the consequent the other way round: then the fact that fires the
rule leads back to the pivot, and its place is lost, or that of another fact is told.

## Main definitions

* `MatchRule.FiredBy` — a fact is what an antecedent says of a pair of entities.
* `MatchRule.ReadsForward` — the variables of an antecedent can stand for a pair in its order.
* `MatchRule.Translates` — an antecedent has the two variables of the consequent.
* `Inference.InheritsPlace` — a fact has its place from one that fires its rule.

## Main results

* `MatchRule.findProvenance_eq_some_iff` — **the place that is told is that of the fact from the
  pivot to the other entity.**
* `MatchRule.firedBy_forward_iff` — when that fact fires the rule.
* `MatchRule.Translates.exists_told` — **the one fact that fires a translation**, and when its place
  is told.
* `Inference.inheritsPlace_of_forward`, `Matcher.place_of_forward` — **places are inherited by rules
  that read forward.**
* `Matcher.not_inheritsPlace_siblings` — others tell wrong places.
-/

namespace FactNet

open Scalar Text

variable {α : Type} {r : MatchRule α} {g : FactGraph α} {b : Bindings} {c : Clause} {f : Fact α}
  {head tail e e' : Entity} {x y : String} {p : Provenance}

/-! ### The fact that fires a rule -/

/-- Two variables can stand for two entities, whatever is bound, if neither is bound to another one
and they are not the same. -/
theorem Bindings.exists_agreesWith_iff : (∃ σ, b.AgreesWith σ ∧ σ x = e ∧ σ y = e') ↔
    b.allows x e = true ∧ b.allows y e' = true ∧ (x = y → e = e') := by
  rw [allows_iff, allows_iff]
  constructor
  · rintro ⟨σ, hb, rfl, rfl⟩
    exact ⟨fun bound h => hb x bound h, fun bound h => hb y bound h, congrArg σ⟩
  · rintro ⟨hx, hy, hxy⟩
    refine ⟨fun z => if z = x then e else if z = y then e' else (b.get? z).getD e, ?_,
      if_pos rfl, ?_⟩
    · intro z bound hz
      dsimp only
      split
      · next h => exact hx bound (h ▸ hz)
      · split
        · next h => exact hy bound (h ▸ hz)
        · rw [hz, Option.getD_some]
    · dsimp only
      split
      · next h => exact hxy h.symm
      · exact if_pos rfl

namespace MatchRule

/-- A fact is what an antecedent says while the consequent is about a pair of entities: it has the
relation and the types that are asked for, and its entities are what the variables can stand for. -/
structure FiredBy (r : MatchRule α) (head tail : Entity) (c : Clause) (f : Fact α) : Prop where
  /-- The fact has the relation. -/
  relation : f.relation = c.relation
  /-- Its head has the type that is asked for. -/
  headType : fitsType c.headType f.head = true
  /-- So has its tail. -/
  tailType : fitsType c.tailType f.tail = true
  /-- The variables can stand for its entities. -/
  stands : ∃ σ, (r.bindConsequent head tail).AgreesWith σ ∧
    σ c.headVar = f.head ∧ σ c.tailVar = f.tail

/-- The variables of an antecedent can stand for two different entities in the order in which the
consequent is about them. -/
structure ReadsForward (r : MatchRule α) (c : Clause) : Prop where
  /-- The antecedent does not relate a variable to itself. -/
  two : c.headVar ≠ c.tailVar
  /-- Its head is not the second entity. -/
  head : c.headVar ≠ r.consequent.tailVar
  /-- Its tail is not the first one. -/
  tail : c.tailVar = r.consequent.headVar → c.tailVar = r.consequent.tailVar

/-- The antecedent has the two variables of the consequent, in the same order or the other way
round. -/
structure Translates (r : MatchRule α) (c : Clause) : Prop where
  /-- The consequent does not relate a variable to itself. -/
  two : r.consequent.headVar ≠ r.consequent.tailVar
  /-- The variables are the same, in one of the two orders. -/
  vars : c.vars = r.consequent.vars ∨ c.vars = r.consequent.vars.reverse

/-- A variable can stand for the first entity unless it is the one for the second. -/
theorem allows_head_iff (hne : head ≠ tail) : (r.bindConsequent head tail).allows x head = true ↔
    x ≠ r.consequent.tailVar := by
  rw [Bindings.allows_iff, get?_bindConsequent]
  split
  · next h => exact iff_of_false (fun hall => hne (hall tail rfl)) fun hx => hx h
  · next h =>
    refine iff_of_true (fun bound hbound => ?_) h
    split at hbound
    · exact Option.some.inj hbound
    · cases hbound

/-- A variable can stand for the second entity unless it is the one for the first alone. -/
theorem allows_tail_iff (hne : head ≠ tail) : (r.bindConsequent head tail).allows x tail = true ↔
    (x = r.consequent.headVar → x = r.consequent.tailVar) := by
  rw [Bindings.allows_iff, get?_bindConsequent]
  split
  · next h => exact iff_of_true (fun bound hbound => Option.some.inj hbound) fun _ => h
  · next h =>
    split
    · next h' => exact iff_of_false (fun hall => hne (hall head rfl).symm) fun hx => h (hx h')
    · next h' => exact iff_of_true (fun bound hbound => (by cases hbound)) fun hx => absurd hx h'

/-- **The fact from the first entity to the second one fires a rule** just if the antecedent reads
forward and asks for no other types. -/
theorem firedBy_forward_iff (hne : head ≠ tail) (hf : f.key = (head, c.relation, tail)) :
    r.FiredBy head tail c f ↔
      fitsType c.headType head = true ∧ fitsType c.tailType tail = true ∧ r.ReadsForward c := by
  obtain ⟨rfl, hrelation, rfl⟩ := Fact.key_eq_iff.1 hf
  have hstands : (∃ σ, (r.bindConsequent f.head f.tail).AgreesWith σ ∧ σ c.headVar = f.head ∧
      σ c.tailVar = f.tail) ↔ r.ReadsForward c := by
    rw [Bindings.exists_agreesWith_iff, allows_head_iff hne, allows_tail_iff hne]
    constructor
    · rintro ⟨hhead, htail, hsame⟩
      exact ⟨fun h => hne (hsame h), hhead, htail⟩
    · intro h
      exact ⟨h.head, h.tail, fun hsame => absurd hsame h.two⟩
  constructor
  · intro h
    exact ⟨h.headType, h.tailType, hstands.1 h.stands⟩
  · rintro ⟨hhead, htail, h⟩
    exact ⟨hrelation, hhead, htail, hstands.2 h⟩

/-- **One fact fires a rule that is found, if both variables of the antecedent are bound.** -/
theorem exists_firedBy_iff [Scalar α] (hg : g.Made) (hoccurs : r.occursIn g head tail = true)
    (hc : c ∈ r.antecedents) (hhead : c.headVar ∈ r.consequent.vars)
    (htail : c.tailVar ∈ r.consequent.vars) :
    ∃ f ∈ g.facts, (∀ f' ∈ g.facts, r.FiredBy head tail c f' ↔ f' = f) ∧
      f.key = (if c.headVar = r.consequent.tailVar then tail else head, c.relation,
        if c.tailVar = r.consequent.tailVar then tail else head) := by
  have hbound : ∀ x ∈ r.consequent.vars, (r.bindConsequent head tail).get? x =
      some (if x = r.consequent.tailVar then tail else head) := by
    intro x hx
    rw [Clause.vars, List.mem_pair] at hx
    rw [get?_bindConsequent]
    split
    · rfl
    · next hne => exact if_pos (hx.resolve_right hne)
  have he := hbound _ hhead
  have he' := hbound _ htail
  obtain ⟨hlookHead, hlookTail, -⟩ := occursIn_iff.1 hoccurs
  have hsupported := supported_bindConsequent hlookHead hlookTail
  obtain ⟨f, hf, hfhead, hrelation, hftail⟩ :=
    hsupported.fact c hc (fun hloop => hloop.2 hhead) _ _ he he'
  refine ⟨f, hf, fun f' hf' => ⟨fun h => ?_, ?_⟩, by rw [Fact.key, hfhead, hrelation, hftail]⟩
  · -- whatever fires the rule leads from one bound entity to the other
    obtain ⟨σ, hσ, hσhead, hσtail⟩ := h.stands
    refine List.inj_on_of_nodup_map hg.nodup_keys hf' hf ?_
    rw [Fact.key, Fact.key, ← hσhead, ← hσtail, hσ _ _ he, hσ _ _ he', hfhead, hftail, h.relation,
      hrelation]
  · rintro rfl
    refine ⟨hrelation, hfhead ▸ (hsupported.head c hc _ he).1,
      hftail ▸ (hsupported.tail c hc _ he').1, ?_⟩
    rw [Bindings.exists_agreesWith_iff, hfhead, hftail, Bindings.allows_iff, Bindings.allows_iff]
    refine ⟨fun bound h => ?_, fun bound h => ?_, fun hsame => by rw [hsame]⟩
    · exact Option.some.inj (he.symm.trans h)
    · exact Option.some.inj (he'.symm.trans h)

/-- **One fact fires a translation that is found**: the fact between the two entities in the order
that the antecedent has the variables in. -/
theorem Translates.exists_firedBy [Scalar α] (h : r.Translates c) (hg : g.Made)
    (hoccurs : r.occursIn g head tail = true) (hc : c ∈ r.antecedents) :
    ∃ f ∈ g.facts, (∀ f' ∈ g.facts, r.FiredBy head tail c f' ↔ f' = f) ∧
      (c.headVar = r.consequent.headVar → f.key = (head, c.relation, tail)) ∧
      (c.headVar = r.consequent.tailVar → f.key = (tail, c.relation, head)) := by
  have hvars : (c.headVar = r.consequent.headVar ∧ c.tailVar = r.consequent.tailVar) ∨
      (c.headVar = r.consequent.tailVar ∧ c.tailVar = r.consequent.headVar) := by
    simpa [Clause.vars] using h.vars
  have hbound : c.headVar ∈ r.consequent.vars ∧ c.tailVar ∈ r.consequent.vars := by
    rw [Clause.vars, List.mem_pair, List.mem_pair]
    exact hvars.elim (fun h => ⟨.inl h.1, .inr h.2⟩) fun h => ⟨.inr h.1, .inl h.2⟩
  obtain ⟨f, hf, hfired, hkey⟩ := exists_firedBy_iff hg hoccurs hc hbound.1 hbound.2
  rcases hvars with ⟨hhead, htail⟩ | ⟨hhead, htail⟩
  · rw [hhead, htail, if_neg h.two, if_pos rfl] at hkey
    exact ⟨f, hf, hfired, fun _ => hkey, fun hback => absurd (hhead.symm.trans hback) h.two⟩
  · rw [hhead, htail, if_pos rfl, if_neg h.two] at hkey
    exact ⟨f, hf, hfired, fun hfwd => absurd (hfwd.symm.trans hhead) h.two, fun _ => hkey⟩

/-! ### The place that is told -/

/-- Of places that are all the same one is told, if there is one. -/
theorem told_eq_some_iff {places : List Provenance} {p : Provenance}
    (hone : ∀ q ∈ places, ∀ q' ∈ places, q = q') :
    (places.find? (·.official) <|> places.head?) = some p ↔ p ∈ places := by
  have htold : ∀ q, (places.find? (·.official) <|> places.head?) = some q → q ∈ places := by
    intro q hq
    rw [Option.orElse_eq_some] at hq
    rcases hq with hq | ⟨-, hq⟩
    · exact List.mem_of_find?_eq_some hq
    · exact List.mem_of_mem_head? hq
  refine ⟨htold p, fun hp => ?_⟩
  cases htell : (places.find? (·.official) <|> places.head?) with
  | some q => rw [hone q (htold q htell) p hp]
  | none =>
    rw [Option.orElse_eq_none, List.head?_eq_none_iff] at htell
    rw [htell.2] at hp
    cases hp

/-- **The place that is told is that of the fact from the first entity to the second one.** -/
theorem findProvenance_eq_some_iff [Scalar α] (hg : g.Made) (hr : r.antecedents = [c]) :
    r.findProvenance g head tail = some p ↔
      ∃ f ∈ g.facts, f.key = (head, c.relation, tail) ∧ f.provenance = some p := by
  unfold findProvenance
  rw [hr]
  dsimp only
  generalize hplaces : ((g.outgoing head).filterMap fun f =>
    if f.relation == c.relation && f.tail == tail then f.provenance else none) = places
  have hmem : ∀ q, q ∈ places ↔
      ∃ f ∈ g.facts, f.key = (head, c.relation, tail) ∧ f.provenance = some q := by
    intro q
    simp only [← hplaces, List.mem_filterMap, FactGraph.mem_outgoing, Option.ite_none_right_eq_some,
      Bool.and_eq_true, beq_iff_eq, Fact.key_eq_iff]
    constructor
    · rintro ⟨f, ⟨hf, hhead⟩, ⟨hrelation, htail⟩, hq⟩
      exact ⟨f, hf, ⟨hhead, hrelation, htail⟩, hq⟩
    · rintro ⟨f, hf, ⟨hhead, hrelation, htail⟩, hq⟩
      exact ⟨f, ⟨hf, hhead⟩, ⟨hrelation, htail⟩, hq⟩
  rw [← hmem]
  -- facts are told apart by what they relate, so there is one place at most
  refine told_eq_some_iff fun q hq q' hq' => ?_
  obtain ⟨f, hf, hkey, hplace⟩ := (hmem q).1 hq
  obtain ⟨f', hf', hkey', hplace'⟩ := (hmem q').1 hq'
  obtain rfl : f = f' :=
    List.inj_on_of_nodup_map hg.nodup_keys hf hf' (hkey.trans hkey'.symm)
  exact Option.some.inj (hplace.symm.trans hplace')

/-- If there is such a fact, it has the place that is told. -/
theorem findProvenance_eq_of_mem [Scalar α] (hg : g.Made) (hr : r.antecedents = [c])
    (hf : f ∈ g.facts) (hkey : f.key = (head, c.relation, tail)) :
    r.findProvenance g head tail = f.provenance := by
  ext p
  rw [findProvenance_eq_some_iff hg hr]
  constructor
  · rintro ⟨f', hf', hkey', hp⟩
    rwa [List.inj_on_of_nodup_map hg.nodup_keys hf hf' (hkey.trans hkey'.symm)]
  · intro hp
    exact ⟨f, hf, hkey, hp⟩

/-- **A translation in the same order tells the place of the one fact that fires it.** -/
theorem Translates.exists_told [Scalar α] (h : r.Translates c) (hg : g.Made)
    (hr : r.antecedents = [c]) (hoccurs : r.occursIn g head tail = true) :
    ∃ f ∈ g.facts, (∀ f' ∈ g.facts, r.FiredBy head tail c f' ↔ f' = f) ∧
      (c.headVar = r.consequent.headVar →
        f.key = (head, c.relation, tail) ∧ r.findProvenance g head tail = f.provenance) ∧
      (c.headVar = r.consequent.tailVar → f.key = (tail, c.relation, head)) := by
  have hmem : c ∈ r.antecedents := by
    rw [hr]
    exact List.mem_singleton_self c
  obtain ⟨f, hf, hfired, hforward, hback⟩ := h.exists_firedBy hg hoccurs hmem
  refine ⟨f, hf, hfired, fun hsame => ?_, hback⟩
  exact ⟨hforward hsame, findProvenance_eq_of_mem hg hr hf (hforward hsame)⟩

end MatchRule

/-! ### Places that are inherited -/

/-- A fact that a rule of one antecedent adds has its place from the fact that fires the rule. -/
structure Inference.InheritsPlace (g : FactGraph α) (pivot : Entity) (i : Inference α) : Prop where
  /-- The place that is told is that of a fact that fires the rule. -/
  source : ∀ c, i.rule.antecedents = [c] → ∀ p, i.fact.provenance = some p →
    ∃ f ∈ g.facts, i.rule.FiredBy pivot i.fact.tail c f ∧ f.provenance = some p
  /-- If the antecedent has the variables of the consequent, the place of that fact is told. -/
  carried : ∀ c, i.rule.antecedents = [c] → i.rule.Translates c → ∀ f ∈ g.facts,
    i.rule.FiredBy pivot i.fact.tail c f → ∀ p, f.provenance = some p →
      i.fact.provenance = some p

/-- **A fact that is told with the place for its rule inherits it, if the rule reads forward** and
asks for no other types. -/
theorem Inference.inheritsPlace_of_forward [Scalar α] {pivot : Entity} {i : Inference α}
    (hg : g.Made) (hc : i.rule.antecedents = [c]) (hne : i.fact.tail ≠ pivot)
    (hoccurs : i.rule.occursIn g pivot i.fact.tail = true)
    (htold : i.fact.provenance = i.rule.findProvenance g pivot i.fact.tail)
    (hhead : fitsType c.headType pivot = true) (htail : fitsType c.tailType i.fact.tail = true)
    (hreads : i.rule.ReadsForward c) : i.InheritsPlace g pivot where
  source c' hc' p hp := by
    -- the fact whose place is told fires the rule
    obtain rfl : c' = c := by simpa using hc'.symm.trans hc
    obtain ⟨f, hf, hkey, hplace⟩ :=
      (MatchRule.findProvenance_eq_some_iff hg hc).1 (htold.symm.trans hp)
    have hfires := (MatchRule.firedBy_forward_iff hne.symm hkey).2 ⟨hhead, htail, hreads⟩
    exact ⟨f, hf, hfires, hplace⟩
  carried c' hc' htranslates f hf hfires p hp := by
    -- and no other fact does
    obtain rfl : c' = c := by simpa using hc'.symm.trans hc
    obtain ⟨f₀, -, hfired, hforward, -⟩ := htranslates.exists_told hg hc hoccurs
    obtain rfl := (hfired f hf).1 hfires
    have hsame : c'.headVar = i.rule.consequent.headVar := by
      refine htranslates.vars.elim (fun h => (List.cons.inj h).1) fun h => ?_
      exact absurd (List.cons.inj h).1 hreads.head
    exact htold.trans ((hforward hsame).2.trans hp)

namespace Matcher

variable [Scalar α] {m : Matcher α} {pivot : Entity} {i : Inference α}

/-- **Places are inherited by rules that read forward.**

A rule of one antecedent tells the place of the fact that leads from the pivot to the other entity
by the relation of the antecedent, if there is one.  That fact fires the rule just if the antecedent
reads forward and asks for no other types, and then the place is inherited.

If the antecedent has the two variables of the consequent, then exactly one fact fires the rule.  In
the same order it is the one whose place is told; the other way round it leads from the other entity
back to the pivot. -/
theorem place_of_forward [Numeral α] (hg : g.Made) (m : Matcher α) (pivot : Entity) :
    (m.apply g pivot).1.facts = g.facts ++ (m.inferred g pivot).map (·.fact) ∧
    ∀ i ∈ m.inferred g pivot, ∀ c, i.rule.antecedents = [c] →
      (∀ p, i.fact.provenance = some p ↔
        ∃ f ∈ g.facts, f.key = (pivot, c.relation, i.fact.tail) ∧ f.provenance = some p) ∧
      (∀ f ∈ g.facts, f.key = (pivot, c.relation, i.fact.tail) →
        (i.rule.FiredBy pivot i.fact.tail c f ↔ fitsType c.headType pivot = true ∧
          fitsType c.tailType i.fact.tail = true ∧ i.rule.ReadsForward c)) ∧
      (fitsType c.headType pivot = true → fitsType c.tailType i.fact.tail = true →
        i.rule.ReadsForward c → i.InheritsPlace g pivot) ∧
      (i.rule.Translates c → ∃ f ∈ g.facts,
        (∀ f' ∈ g.facts, i.rule.FiredBy pivot i.fact.tail c f' ↔ f' = f) ∧
        (c.headVar = i.rule.consequent.headVar →
          f.key = (pivot, c.relation, i.fact.tail) ∧ i.fact.provenance = f.provenance) ∧
        (c.headVar = i.rule.consequent.tailVar →
          f.key = (i.fact.tail, c.relation, pivot))) := by
  refine ⟨(m.growsBy_apply g pivot).facts, fun i hi c hc => ?_⟩
  obtain ⟨sink, hsink, hne, e, he, hby⟩ := exists_of_mem_inferred hi
  obtain ⟨-, -, r, hfirst, -, rfl⟩ := inferredBy_eq_some_iff.1 hby
  have hoccurs : r.occursIn g pivot sink = true :=
    (MatchRule.suits_iff.1 (by simpa using List.find?_some hfirst)).2.2
  refine ⟨fun p => MatchRule.findProvenance_eq_some_iff hg hc, fun f _ hkey => ?_, ?_, ?_⟩
  · exact MatchRule.firedBy_forward_iff hne.symm hkey
  · exact Inference.inheritsPlace_of_forward hg hc hne hoccurs rfl
  · intro htranslates
    exact htranslates.exists_told hg hc hoccurs

/-! ### Siblings -/

/-- Whom someone is a sibling of belongs to their family. -/
def siblingLines : List String := ["0  !per:siblings(y,x) v per:other_family(x,y)"]

@[inherit_doc siblingLines]
noncomputable def siblingBack : MatchRule EReal :=
  ⟨[⟨"y", none, "per:siblings", "x", none⟩], ⟨"x", none, "per:other_family", "y", none⟩,
    LogProb.sigmoid 0⟩

/-- What is loaded if every score is high enough. -/
noncomputable def siblingMatcher : Matcher EReal :=
  ⟨⟨[("per:other_family", [siblingBack])], ["per:siblings", "per:other_family"]⟩,
    LogProb.sigmoid ⊥⟩

/-- A sibling of Ann. -/
def ben : Entity := ⟨"Ben", .person⟩

/-- Each of the two is said to be a sibling of the other, in a document of its own. -/
noncomputable def siblings : FactGraph EReal :=
  ⟨[ben, MatchRule.ann],
    [⟨ben, "per:siblings", MatchRule.ann, none, some ⟨"doc1", some 0, false⟩⟩,
      ⟨MatchRule.ann, "per:siblings", ben, none, some ⟨"doc2", some 0, false⟩⟩]⟩

theorem ofLines_siblingLines : letI := onlyZero
    ofLines ⟨⊥, 3⟩ siblingLines = .ok siblingMatcher := by
  let _ := onlyZero
  exact ofLines_rule (c := ⟨"y", none, "per:siblings", "x", none⟩) (d := siblingBack.consequent)
    "0" "!per:siblings(y,x) v per:other_family(x,y)" "!per:siblings(y,x)"
    "per:other_family(x,y)" (by decide +kernel) (if_pos rfl) (not_lt_of_ge bot_le) (by decide)
    (by decide +kernel) (by decide +kernel) (by decide +kernel)

theorem made_siblings : siblings.Made :=
  FactGraph.made_ofFacts
    [⟨ben, "per:siblings", MatchRule.ann, none, some ⟨"doc1", some 0, false⟩⟩,
      ⟨MatchRule.ann, "per:siblings", ben, none, some ⟨"doc2", some 0, false⟩⟩]

/-- That Ben is of the family of Ann is inferred. -/
theorem siblingBack_mem_inferred :
    ⟨siblingBack.conclude siblings "per:other_family" MatchRule.ann ben, siblingBack⟩ ∈
      siblingMatcher.inferred siblings MatchRule.ann := by
  have hsuits : siblingBack.suits siblings MatchRule.ann ben = true := by decide +kernel
  have hby : siblingMatcher.inferredBy siblings MatchRule.ann ben "per:other_family" [siblingBack] =
      some ⟨siblingBack.conclude siblings "per:other_family" MatchRule.ann ben, siblingBack⟩ :=
    inferredBy_eq_some_iff.2 ⟨by decide +kernel, by decide +kernel, siblingBack,
      List.find?_cons_of_pos hsuits, LogProb.strictMono_sigmoid EReal.bot_lt_zero, rfl⟩
  exact (mem_inferred_iff (m := siblingMatcher) (List.nodup_singleton _)).2
    ⟨ben, by simp [siblings], by decide, _, .head _, hby⟩

/-- It is told where Ann is said to be a sibling of Ben. -/
theorem place_of_forward_siblings : siblings.Made ∧
    siblingBack.findProvenance siblings MatchRule.ann ben = some ⟨"doc2", some 0, false⟩ := by
  let _ := onlyZero
  obtain ⟨htold, -⟩ := (place_of_forward made_siblings siblingMatcher MatchRule.ann).2 _
    siblingBack_mem_inferred _ rfl
  exact ⟨made_siblings, (htold _).2 ⟨_, .tail _ (.head _), rfl, rfl⟩⟩

/-- **Others tell wrong places.**

A loaded rule whose antecedent has the variables of the consequent the other way round adds a fact
that is told with a place, but the only fact that fires the rule is told at another one. -/
theorem not_inheritsPlace_siblings : letI := onlyZero
    ofLines ⟨⊥, 3⟩ siblingLines = .ok siblingMatcher ∧ siblings.Made ∧
      ¬∀ i ∈ siblingMatcher.inferred siblings MatchRule.ann,
        i.InheritsPlace siblings MatchRule.ann := by
  refine ⟨ofLines_siblingLines, made_siblings, fun h => ?_⟩
  obtain ⟨f, hf, hfires, hplace⟩ := (h _ siblingBack_mem_inferred).source _ rfl
    ⟨"doc2", some 0, false⟩ (by decide +kernel)
  obtain ⟨σ, hσ, hhead, -⟩ := hfires.stands
  have hben : f.head = ben := hhead.symm.trans (hσ _ _ rfl)
  simp only [siblings, List.mem_cons, List.not_mem_nil, or_false] at hf
  rcases hf with rfl | rfl
  · exact absurd hplace (by decide)
  · exact absurd hben (by decide)

end Matcher

end FactNet
