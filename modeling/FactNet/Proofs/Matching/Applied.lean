import FactNet.Proofs.Factor.Bounds
import FactNet.Proofs.Matching.Found
import FactNet.Proofs.Matching.Inferred
import FactNet.Proofs.Matching.Loaded
import FactNet.Proofs.Odds

/-!
# Which facts matching adds

A loaded rule supports a fact if it adds the relation of the fact, asks for no other types, is found
in the graph, and is probable enough.  The rules for a relation are tried in the order of their
probabilities, so the first that suits two entities is a most probable one of these: if any rule
supports a fact, then that one does, and its probability gives the score.

## Main definitions

* `Matcher.loaded`, `Matcher.Supports` — the rules there are, and those that support a fact.

## Main results

* `Matcher.admits_iff` — what the catalogue allows.
* `exists_find?_suits` — **the first rule that suits two entities is a most probable one.**
* `Matcher.exists_supports_of_mem_inferred` — an inferred fact has the score of a most probable rule
  that supports it.
* `Matcher.exists_mem_inferred_of_supports` — a fact that a rule supports is inferred.
* `Matcher.apply_adds_supported` — **matching adds the supported facts, each once.**
* `Matcher.ofLines_rule` — what is loaded from a file of one rule.
-/

namespace FactNet

open Scalar Text

variable {α : Type}

/-! ### The first rule that suits -/

section Suits

variable {r r₀ : MatchRule α} {rules : List (MatchRule α)} {g : FactGraph α} {head tail : Entity}

theorem MatchRule.suits_iff : r.suits g head tail = true ↔
    fitsType r.consequent.headType head = true ∧ fitsType r.consequent.tailType tail = true ∧
      r.occursIn g head tail = true := by
  simp [MatchRule.suits, and_assoc]

variable {β : Type} [LinearOrder β] {rank : α → β}

/-- No rule that suits is more probable than the first one. -/
theorem rank_le_of_find?_suits
    (hsorted : rules.Pairwise fun r s => rank s.probability ≤ rank r.probability)
    (hfirst : rules.find? (·.suits g head tail) = some r₀) (hr : r ∈ rules)
    (hsuits : r.suits g head tail = true) : rank r.probability ≤ rank r₀.probability := by
  obtain ⟨-, before, after, rfl, hbefore⟩ := List.find?_eq_some_iff_append.1 hfirst
  rcases List.mem_append.1 hr with hr | hr
  · have hnot := hbefore r hr
    rw [hsuits] at hnot
    cases hnot
  · rcases List.mem_cons.1 hr with rfl | hr
    · exact le_refl _
    · exact (List.pairwise_cons.1 (List.pairwise_append.1 hsorted).2.1).1 r hr

/-- **The first rule that suits two entities is a most probable one.** -/
theorem exists_find?_suits
    (hsorted : rules.Pairwise fun r s => rank s.probability ≤ rank r.probability) (hr : r ∈ rules)
    (hsuits : r.suits g head tail = true) :
    ∃ r₀, rules.find? (·.suits g head tail) = some r₀ ∧
      rank r.probability ≤ rank r₀.probability := by
  have hsome : (rules.find? (·.suits g head tail)).isSome :=
    List.find?_isSome.2 ⟨r, hr, hsuits⟩
  obtain ⟨r₀, hfirst⟩ := Option.isSome_iff_exists.1 hsome
  exact ⟨r₀, hfirst, rank_le_of_find?_suits hsorted hfirst hr hsuits⟩

end Suits

/-- What a spelling stands for is in the catalogue. -/
theorem KnownRelation.mem_catalogue_of_find? {s : String} {known : KnownRelation}
    (h : KnownRelation.find? s = some known) : known ∈ catalogue := by
  unfold KnownRelation.find? at h
  generalize catalogue = all at h ⊢
  exact List.mem_of_find?_eq_some h

namespace Matcher

/-- The catalogue allows a relation that it does not know, and one that it knows between entities of
the types it gives. -/
theorem admits_iff {relation : String} {head tail : Entity} : admits relation head tail = true ↔
    ∀ known, KnownRelation.find? relation = some known →
      known.head = head.type ∧ tail.type ∈ known.tails := by
  unfold admits
  cases hfind : KnownRelation.find? relation with
  | none => exact ⟨fun _ known h => (by cases h), fun _ => rfl⟩
  | some known =>
    have hmem : known ∈ catalogue := KnownRelation.mem_catalogue_of_find? hfind
    have hbetween : known ∈ KnownRelation.between head.type tail.type ↔
        known.head = head.type ∧ tail.type ∈ known.tails := by
      rw [KnownRelation.between, List.mem_filter, and_iff_right hmem, Bool.and_eq_true,
        beq_iff_eq, List.contains_iff_mem]
    rw [List.contains_iff_mem, hbetween]
    exact ⟨fun h known' heq => Option.some.inj heq ▸ h, fun h => h known rfl⟩

variable [Scalar α] {m : Matcher α} {g : FactGraph α} {pivot : Entity}

/-- The rules that have been loaded. -/
def loaded (m : Matcher α) : List (MatchRule α) := m.book.rules.flatMap (·.2)

/-- A loaded rule supports a relation between two entities. -/
structure Supports (m : Matcher α) (g : FactGraph α) (relation : String) (head tail : Entity)
    (r : MatchRule α) : Prop where
  /-- The rule has been loaded. -/
  loaded : r ∈ m.loaded
  /-- It adds the relation. -/
  relation : r.consequent.relation = relation
  /-- It is probable enough. -/
  probable : m.minProb < r.probability
  /-- It asks for no other type of the head. -/
  headType : fitsType r.consequent.headType head = true
  /-- It asks for no other type of the tail. -/
  tailType : fitsType r.consequent.tailType tail = true
  /-- It is found in the graph. -/
  occurs : r.occursIn g head tail = true

omit [Scalar α] in
/-- A loaded rule is one of those for its relation. -/
theorem mem_loaded_iff {P : α → Prop} (hfiled : m.book.IsFiled P) {r : MatchRule α} :
    r ∈ m.loaded ↔ ∃ rules, (r.consequent.relation, rules) ∈ m.book.rules ∧ r ∈ rules := by
  rw [loaded, List.mem_flatMap]
  constructor
  · rintro ⟨⟨relation, rules⟩, he, hr⟩
    obtain rfl := hfiled.relation _ he r hr
    exact ⟨rules, he, hr⟩
  · rintro ⟨rules, he, hr⟩
    exact ⟨_, he, hr⟩

omit [Scalar α] in
/-- What is known of the probabilities of the rules is known of each. -/
theorem probability_of_mem_loaded {P : α → Prop} (hfiled : m.book.IsFiled P) {r : MatchRule α}
    (hr : r ∈ m.loaded) : P r.probability := by
  obtain ⟨e, he, hmem⟩ := List.mem_flatMap.1 hr
  exact hfiled.probability e he r hmem

variable {β : Type} [LinearOrder β] {rank : α → β} {P : α → Prop}

/-- The rules that support a relation are those for it that suit and are probable enough. -/
theorem supports_iff (hfiled : m.book.IsFiled P) {e : String × List (MatchRule α)}
    (he : e ∈ m.book.rules) {head tail : Entity} {r : MatchRule α} :
    m.Supports g e.1 head tail r ↔
      r ∈ e.2 ∧ r.suits g head tail = true ∧ m.minProb < r.probability := by
  rw [MatchRule.suits_iff]
  constructor
  · intro h
    obtain ⟨rules, hmem, hr⟩ := (mem_loaded_iff hfiled).1 h.loaded
    -- each relation is filed once, so the rules for it are those of the entry
    have heq : (r.consequent.relation, rules) = e :=
      List.inj_on_of_nodup_map hfiled.keys hmem he h.relation
    exact ⟨heq ▸ hr, ⟨h.headType, h.tailType, h.occurs⟩, h.probable⟩
  · rintro ⟨hr, ⟨hhead, htail, hoccurs⟩, hprobable⟩
    exact ⟨List.mem_flatMap.2 ⟨e, he, hr⟩, hfiled.relation e he r hr, hprobable, hhead, htail,
      hoccurs⟩

/-- What is inferred has a score by a rule that supports it, and none that does is more probable. -/
theorem exists_supports_of_mem_inferred (hfiled : m.book.IsFiled P)
    (hsorted : m.book.IsSorted rank) {i : Inference α} (hi : i ∈ m.inferred g pivot) :
    i.fact.tail ∈ g.vertices ∧ i.fact.tail ≠ pivot ∧ g.contains i.fact.key = false ∧
      admits i.fact.relation pivot i.fact.tail = true ∧
      ∃ r, m.Supports g i.fact.relation pivot i.fact.tail r ∧
        i.fact.score = some (half + r.probability / nat 2) ∧
        ∀ r', m.Supports g i.fact.relation pivot i.fact.tail r' →
          rank r'.probability ≤ rank r.probability := by
  obtain ⟨sink, hsink, hne, e, he, hby⟩ := exists_of_mem_inferred hi
  obtain ⟨hadmits, hfresh, r, hfirst, hprobable, rfl⟩ := inferredBy_eq_some_iff.1 hby
  refine ⟨hsink, hne, hfresh, hadmits, r, ?_, rfl, fun r' hr' => ?_⟩
  · have hsuits : r.suits g pivot sink = true := by simpa using List.find?_some hfirst
    exact (supports_iff hfiled he).2 ⟨List.mem_of_find?_eq_some hfirst, hsuits, hprobable⟩
  · obtain ⟨hmem, hsuits, -⟩ := (supports_iff hfiled he).1 hr'
    exact rank_le_of_find?_suits (hsorted e he) hfirst hmem hsuits

/-- What a rule supports is inferred, unless it is there. -/
theorem exists_mem_inferred_of_supports (hodds : RankedOdds rank P) (hfiled : m.book.IsFiled P)
    (hsorted : m.book.IsSorted rank) {relation : String} {sink : Entity}
    (hsink : sink ∈ g.vertices) (hne : sink ≠ pivot)
    (hfresh : g.contains (pivot, relation, sink) = false)
    (hadmits : admits relation pivot sink = true) {r : MatchRule α}
    (hr : m.Supports g relation pivot sink r) :
    ∃ i ∈ m.inferred g pivot, i.fact.key = (pivot, relation, sink) := by
  obtain ⟨rules, he, hmem⟩ := (mem_loaded_iff hfiled).1 hr.loaded
  rw [hr.relation] at he
  have hsuits : r.suits g pivot sink = true := ((supports_iff hfiled he).1 hr).2.1
  obtain ⟨r₀, hfirst, hrank_le⟩ := exists_find?_suits (hsorted _ he) hmem hsuits
  -- the first rule that suits is probable enough if any is
  have hnumber := hfiled.probability _ he r₀ (List.mem_of_find?_eq_some hfirst)
  have hprobable : m.minProb < r₀.probability := by
    have hmin := hodds.of_lt_left hr.probable
    refine (hodds.lt_iff hmin hnumber).2 (lt_of_lt_of_le ?_ hrank_le)
    exact (hodds.lt_iff hmin (hodds.of_lt hr.probable)).1 hr.probable
  have hby := inferredBy_eq_some_iff.2 ⟨hadmits, hfresh, r₀, hfirst, hprobable, rfl⟩
  obtain ⟨i, hi, hkey⟩ := exists_mem_inferred hsink hne he hby
  exact ⟨i, hi, hkey.trans (key_of_inferredBy hby)⟩

/-- What is loaded are the rules of the file, and the probability of the cutoff. -/
theorem ofLines_eq_ok [Numeral α] {admission : Admission α} {lines : List String}
    (h : ofLines admission lines = .ok m) :
    RuleBook.ofLines admission lines = .ok m.book ∧
      m.minProb = LogProb.sigmoid admission.cutoff := by
  unfold ofLines at h
  cases hbook : RuleBook.ofLines admission lines with
  | error fault => rw [hbook] at h; cases h
  | ok book =>
    rw [hbook] at h
    cases h
    exact ⟨rfl, rfl⟩

/-- **Matching adds the supported facts, each once.**

Of a file in which no score is what is no number, the facts that are added are those about the pivot
and another vertex that are not in the graph, that the catalogue allows, and that some loaded rule
supports: one for the relation whose probability is above that of the cutoff, whose consequent fits
the types of the two, and which is found in the graph as it was.  Each is added once, with the score
of a rule that supports it and than which no other one that does is more probable.

The scores may be exact numbers or doubles, for which `rankedOdds_ereal` and `rankedOdds_float` say
what is a number. -/
theorem apply_adds_supported [Numeral α] (hodds : RankedOdds rank P) {admission : Admission α}
    {lines : List String} (hscores : ∀ raw ∈ lines, ∀ x : α, lineScore? raw = some x → P x)
    {m : Matcher α} (hload : ofLines admission lines = .ok m) (g : FactGraph α) (pivot : Entity) :
    m.minProb = LogProb.sigmoid admission.cutoff ∧
    ∃ added, (m.apply g pivot).1.facts = g.facts ++ added ∧ (added.map Fact.key).Nodup ∧
      (∀ key, key ∈ added.map Fact.key ↔ ∃ relation sink, key = (pivot, relation, sink) ∧
        sink ∈ g.vertices ∧ sink ≠ pivot ∧ g.contains (pivot, relation, sink) = false ∧
        (∀ known, KnownRelation.find? relation = some known →
          known.head = pivot.type ∧ sink.type ∈ known.tails) ∧
        ∃ r, m.Supports g relation pivot sink r) ∧
      ∀ f ∈ added, ∃ r, m.Supports g f.relation pivot f.tail r ∧
        f.score = some (half + r.probability / nat 2) ∧
        ∀ r', m.Supports g f.relation pivot f.tail r' → ¬r.probability < r'.probability := by
  have hnumbers : ∀ raw ∈ lines, ∀ x : α, lineScore? raw = some x → P (LogProb.sigmoid x) :=
    fun raw hraw x hx => hodds.sigmoid (hscores raw hraw x hx)
  obtain ⟨hbook, hmin⟩ := ofLines_eq_ok hload
  have hfiled := RuleBook.isFiled_ofLines hnumbers hbook
  have hsorted := RuleBook.isSorted_ofLines hodds.toRanked hnumbers hbook
  have hgrown := m.growsBy_apply g pivot
  refine ⟨hmin, (m.inferred g pivot).map (·.fact), hgrown.facts, hgrown.keys, fun key => ?_,
    fun f hf => ?_⟩
  · rw [List.map_map, List.mem_map]
    constructor
    · -- what is inferred is about the pivot, and a rule supports it
      rintro ⟨i, hi, rfl⟩
      have hhead : i.fact.head = pivot := hgrown.heads _ (List.mem_map_of_mem hi)
      obtain ⟨hsink, hne, hfresh, hadmits, r, hr, -⟩ :=
        exists_supports_of_mem_inferred hfiled hsorted hi
      have hkey : i.fact.key = (pivot, i.fact.relation, i.fact.tail) := by rw [Fact.key, hhead]
      exact ⟨i.fact.relation, i.fact.tail, hkey, hsink, hne, hkey ▸ hfresh, admits_iff.1 hadmits,
        r, hr⟩
    · rintro ⟨relation, sink, rfl, hsink, hne, hfresh, hknown, r, hr⟩
      exact exists_mem_inferred_of_supports hodds hfiled hsorted hsink hne hfresh
        (admits_iff.2 hknown) hr
  · -- the ranks of probabilities are in the order of these, as all of them are numbers
    obtain ⟨i, hi, rfl⟩ := List.mem_map.1 hf
    obtain ⟨-, -, -, -, r, hr, hscore, hgreatest⟩ :=
      exists_supports_of_mem_inferred hfiled hsorted hi
    refine ⟨r, hr, hscore, fun r' hr' hlt => ?_⟩
    have hrank_lt := (hodds.lt_iff (hodds.of_lt_left hlt) (hodds.of_lt hlt)).1 hlt
    exact absurd hrank_lt (not_lt_of_ge (hgreatest r' hr'))

/-! ### Files of one rule -/

/-- A file of one rule, with one antecedent, is loaded if its score is high enough. -/
theorem ofLines_rule [Numeral α] {admission : Admission α} {raw : String} {c d : Clause} {x : α}
    (score body antecedent consequent : String)
    (hcut : cutScore? (trim (trimEnd (before ['/', '/'] raw.toList))) =
      some (score.toList, body.toList))
    (hscore : Numeral.read? score = some x) (hkept : ¬x < admission.cutoff)
    (hdepth : 1 ≤ admission.maxDepth)
    (hparts : Program.disjuncts (trim body.toList) = [antecedent.toList, consequent.toList])
    (hc : readClause? [] (trim antecedent.toList) = some (true, c))
    (hd : readClause? [] (trim consequent.toList) = some (false, d)) :
    ofLines admission [raw] = .ok ⟨⟨[(d.relation, [⟨[c], d, LogProb.sigmoid x⟩])],
      [c.relation, d.relation]⟩, LogProb.sigmoid admission.cutoff⟩ := by
  have hscored : readScored admission {} score.toList body.toList =
      .ok ⟨[], ⟨[(d.relation, [⟨[c], d, LogProb.sigmoid x⟩])], [c.relation, d.relation]⟩⟩ := by
    have hfew : ¬admission.maxDepth <
        (([antecedent.toList, consequent.toList].length : ℕ) : ℤ) - 1 := by
      simpa using hdepth
    unfold readScored
    rw [String.ofList_toList, hscore]
    dsimp only
    rw [if_neg hkept, hparts, if_neg hfew, MatchRule.readClauses_pair hc hd]
    rfl
  rw [ofLines, RuleBook.ofLines, readMatchLines, readMatchLine_scored hcut hscored]
  simp only [readMatchLines, Except.map, RuleBook.sorted, List.map_cons, List.map_nil,
    List.mergeSort_singleton]

/-! ### Two names -/

/-- Exact numbers of which only zero is written. -/
@[reducible] noncomputable def onlyZero : Numeral EReal :=
  ⟨fun _ => "0", fun _ _ => "0", fun s => if s = "0" then some 0 else none⟩

/-- Whoever is another name of someone has them as another name. -/
def nameLines : List String := ["0  !per:alternate_names(x,y) v per:alternate_names(y,x)"]

@[inherit_doc nameLines]
noncomputable def nameBack : MatchRule EReal :=
  ⟨[⟨"x", none, "per:alternate_names", "y", none⟩], ⟨"y", none, "per:alternate_names", "x", none⟩,
    LogProb.sigmoid 0⟩

/-- What is loaded if every score is high enough. -/
noncomputable def nameMatcher : Matcher EReal :=
  ⟨⟨[("per:alternate_names", [nameBack])], ["per:alternate_names", "per:alternate_names"]⟩,
    LogProb.sigmoid ⊥⟩

/-- Annie is another name of Ann. -/
noncomputable def twoNames : FactGraph EReal :=
  ⟨[MatchRule.ann, MatchRule.annie],
    [⟨MatchRule.ann, "per:alternate_names", MatchRule.annie, none, none⟩]⟩

theorem minProb_lt_nameBack : nameMatcher.minProb < nameBack.probability :=
  LogProb.strictMono_sigmoid EReal.bot_lt_zero

theorem ofLines_nameLines : letI := onlyZero
    ofLines ⟨⊥, 3⟩ nameLines = .ok nameMatcher := by
  let _ := onlyZero
  exact ofLines_rule (c := ⟨"x", none, "per:alternate_names", "y", none⟩)
    (d := nameBack.consequent) "0" "!per:alternate_names(x,y) v per:alternate_names(y,x)"
    "!per:alternate_names(x,y)" "per:alternate_names(y,x)" (by decide +kernel) (if_pos rfl)
    (not_lt_of_ge bot_le) (by decide) (by decide +kernel) (by decide +kernel) (by decide +kernel)

/-- The rule supports that Ann is another name of Annie, and nothing else makes it a fact. -/
theorem apply_adds_supported_twoNames : letI := onlyZero
    ofLines ⟨⊥, 3⟩ nameLines = .ok nameMatcher ∧
    ∃ added, (nameMatcher.apply twoNames MatchRule.annie).1.facts = twoNames.facts ++ added ∧
      (MatchRule.annie, "per:alternate_names", MatchRule.ann) ∈ added.map Fact.key := by
  let _ := onlyZero
  obtain ⟨-, added, hfacts, -, hkeys, -⟩ := apply_adds_supported rankedOdds_ereal
    (fun _ _ _ _ => trivial) ofLines_nameLines twoNames MatchRule.annie
  refine ⟨ofLines_nameLines, added, hfacts, (hkeys _).2 ⟨_, _, rfl, ?_, ?_, ?_, ?_, nameBack, ?_⟩⟩
  · simp [twoNames]
  · decide
  · decide +kernel
  · exact admits_iff.1 (by decide +kernel)
  · exact ⟨by simp [loaded, nameMatcher], rfl, minProb_lt_nameBack, rfl, rfl, by decide +kernel⟩

end Matcher

end FactNet
