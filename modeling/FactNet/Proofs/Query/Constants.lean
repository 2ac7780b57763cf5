import FactNet.Proofs.Attempts
import FactNet.Proofs.Extension
import FactNet.Proofs.Naming

/-!
# What constants stand for

Inference writes the entities of a graph as constants and looks up what a constant stands for when
it reads its answers.  It goes through the edges to fill the table, head before tail, and an entity
that is met later takes the place of one with the same constant.  So the table leads back to every
entity just if no two ends of edges share a constant.  Where two of them do, what is found about
the one is said of the other.

## Main definitions

* `FactGraph.ends` — the entities at the ends of the edges.
* `FactGraph.TellsApart` — no two of them share a constant.
* `Evidence.entityOf?`, `Evidence.LeadsBack` — what a constant stands for, and whether the constants
  of a graph stand for the entities they were made of.

## Main results

* `Evidence.entityOf?_ofGraph` — a constant stands for the last end of an edge that has it.
* `FactGraph.tellsApart_of_words` — names of letters, digits and underscores are told apart.
* `QueryEngine.constants_lead_back` — **constants lead back to the entities they were made of just
  if no two ends of edges share one, and then no fact is attributed to another entity.**
-/

namespace FactNet

open Scalar

variable {α : Type}

/-! ### Ends of edges -/

namespace FactGraph

/-- The entities at the ends of the edges, in the order they are met. -/
def ends (g : FactGraph α) : List Entity :=
  g.edges.flatMap fun f => [f.head, f.tail]

/-- No two ends of edges share a constant. -/
def TellsApart (g : FactGraph α) : Prop :=
  ∀ e ∈ g.ends, ∀ e' ∈ g.ends, e.type = e'.type → cleanName e.name = cleanName e'.name → e = e'

instance (g : FactGraph α) : Decidable g.TellsApart :=
  inferInstanceAs (Decidable (∀ e ∈ g.ends, ∀ e' ∈ g.ends, _))

variable {g : FactGraph α}

theorem mem_ends {e : Entity} : e ∈ g.ends ↔ ∃ f ∈ g.edges, e = f.head ∨ e = f.tail := by
  simp [ends]

theorem TellsApart.eq (h : g.TellsApart) {e e' : Entity} (he : e ∈ g.ends) (he' : e' ∈ g.ends)
    (heq : cleanEntity e = cleanEntity e') : e = e' :=
  h e he e' he' (cleanEntity_eq_iff.1 heq).1 (cleanEntity_eq_iff.1 heq).2

/-- Names of letters, digits and underscores are told apart. -/
theorem tellsApart_of_words (h : ∀ e ∈ g.ends, IsWord e.name) : g.TellsApart := by
  intro e he e' he' htype hname
  rw [cleanName_of_word (h e he), cleanName_of_word (h e' he')] at hname
  cases e
  cases e'
  cases htype
  cases hname
  rfl

end FactGraph

/-! ### The table of constants -/

namespace Evidence

/-- What a constant stands for. -/
def entityOf? (ev : Evidence α) (constant : String) : Option Entity :=
  (ev.entities.find? fun e => e.1 == constant).map (·.2)

/-- The constants of a graph stand for the entities they were made of. -/
def LeadsBack (ev : Evidence α) (g : FactGraph α) : Prop :=
  ∀ f ∈ g.edges, ev.entityOf? (cleanEntity f.head) = some f.head ∧
    ev.entityOf? (cleanEntity f.tail) = some f.tail

instance (ev : Evidence α) (g : FactGraph α) : Decidable (ev.LeadsBack g) :=
  inferInstanceAs (Decidable (∀ f ∈ g.edges, _))

theorem leadsBack_iff {ev : Evidence α} {g : FactGraph α} :
    ev.LeadsBack g ↔ ∀ e ∈ g.ends, ev.entityOf? (cleanEntity e) = some e := by
  constructor
  · intro h e he
    obtain ⟨f, hf, rfl | rfl⟩ := FactGraph.mem_ends.1 he
    · exact (h f hf).1
    · exact (h f hf).2
  · intro h f hf
    exact ⟨h _ (FactGraph.mem_ends.2 ⟨f, hf, .inl rfl⟩), h _ (FactGraph.mem_ends.2 ⟨f, hf, .inr rfl⟩)⟩

variable [Scalar α] (hacks : Hacks) (g : FactGraph α) (rules : Program α)

/-- A constant stands for the last end of an edge that has it. -/
theorem entityOf?_ofGraph (constant : String) : (ofGraph hacks g rules).entityOf? constant =
    g.ends.reverse.find? fun e => cleanEntity e == constant := by
  have hpairs : (g.edges.flatMap fun f => [(cleanEntity f.head, f.head), (cleanEntity f.tail, f.tail)])
      = g.ends.map fun e => (cleanEntity e, e) := by
    simp [FactGraph.ends, List.map_flatMap]
  rw [entityOf?, ofGraph, Pairs.find?_collapse, hpairs, Pairs.last?, ← List.map_reverse,
    List.find?_map, Option.map_map]
  exact Option.map_id'

theorem entityOf?_ofGraph_eq_some_iff {constant : String} {e : Entity} :
    (ofGraph hacks g rules).entityOf? constant = some e ↔ cleanEntity e = constant ∧
      ∃ earlier later, g.ends = earlier ++ e :: later ∧ ∀ e' ∈ later, cleanEntity e' ≠ constant := by
  rw [entityOf?_ofGraph, List.find?_eq_some_iff_append, beq_iff_eq]
  refine and_congr_right fun _ => ⟨?_, ?_⟩
  · rintro ⟨later, earlier, hends, hlater⟩
    refine ⟨earlier.reverse, later.reverse, ?_, fun e' he' => ?_⟩
    · simpa using congrArg List.reverse hends
    · simpa using hlater e' (List.mem_reverse.1 he')
  · rintro ⟨earlier, later, hends, hlater⟩
    refine ⟨later.reverse, earlier.reverse, by simp [hends], fun e' he' => ?_⟩
    simpa using hlater e' (List.mem_reverse.1 he')

/-- An end of an edge has a constant that stands for an end of an edge. -/
theorem exists_entityOf?_ofGraph {e : Entity} (he : e ∈ g.ends) :
    ∃ e' ∈ g.ends, (ofGraph hacks g rules).entityOf? (cleanEntity e) = some e' ∧
      e'.type = e.type ∧ cleanName e'.name = cleanName e.name := by
  have hsome : ((ofGraph hacks g rules).entityOf? (cleanEntity e)).isSome = true := by
    rw [entityOf?_ofGraph, List.find?_isSome]
    exact ⟨e, List.mem_reverse.2 he, beq_self_eq_true _⟩
  obtain ⟨e', he'⟩ := Option.isSome_iff_exists.1 hsome
  obtain ⟨heq, earlier, later, hends, -⟩ := (entityOf?_ofGraph_eq_some_iff hacks g rules).1 he'
  exact ⟨e', hends ▸ by simp, he', cleanEntity_eq_iff.1 heq⟩

/-- **Constants lead back** to the entities they were made of just if no two ends of edges share
one. -/
theorem leadsBack_iff_tellsApart : (ofGraph hacks g rules).LeadsBack g ↔ g.TellsApart := by
  rw [leadsBack_iff]
  constructor
  · intro h e he e' he' htype hname
    have heq : cleanEntity e = cleanEntity e' := cleanEntity_eq_iff.2 ⟨htype, hname⟩
    exact Option.some.inj ((h e he).symm.trans (heq ▸ h e' he'))
  · intro h e he
    obtain ⟨e', he', heq, htype, hname⟩ := exists_entityOf?_ofGraph hacks g rules he
    rw [heq, h e' he' e he htype hname]

end Evidence

/-! ### What facts are attributed to -/

namespace QueryEngine

/-- The pivot has its constant unless an end of an edge has it. -/
theorem find?_entitiesWith (pivot : Entity) (entities : List (String × Entity)) (constant : String) :
    ((entitiesWith pivot entities).find? fun e => e.1 == constant).map (·.2) =
      ((entities.find? fun e => e.1 == constant).map (·.2)).or
        (if cleanEntity pivot = constant then some pivot else none) := by
  unfold entitiesWith
  split
  · next hany =>
    split
    · next heq =>
      subst heq
      obtain ⟨e, he⟩ := Option.isSome_iff_exists.1 (List.find?_isSome.2 (List.any_eq_true.1 hany))
      rw [he]
      rfl
    · rw [Option.or_none]
  · rw [List.find?_append, Option.map_or, List.find?_singleton]
    simp only [beq_iff_eq, apply_ite (Option.map _), Option.map_some, Option.map_none]

variable [Scalar α] {q : QueryEngine α} {g : FactGraph α} {pivot : Entity} {rules : Program α}

/-- What a constant stands for has that constant, and it is an end of an edge if there is one that
has it. -/
theorem cleanEntity_of_find?_entitiesWith {constant : String} {e : String × Entity}
    (h : ((entitiesWith pivot (q.evidenceFor g rules).entities).find? fun e => e.1 == constant) =
      some e) :
    cleanEntity e.2 = constant ∧ ∀ e' ∈ g.ends, cleanEntity e' = constant → e.2 ∈ g.ends := by
  have hfound : ((q.evidenceFor g rules).entityOf? constant).or
      (if cleanEntity pivot = constant then some pivot else none) = some e.2 := by
    rw [Evidence.entityOf?, ← find?_entitiesWith, h, Option.map_some]
  rcases Option.or_eq_some_iff.1 hfound with htable | ⟨hnone, hpivot⟩
  · obtain ⟨heq, earlier, later, hends, -⟩ :=
      (Evidence.entityOf?_ofGraph_eq_some_iff q.options.hacks g rules).1 htable
    exact ⟨heq, fun _ _ _ => hends ▸ by simp⟩
  · split at hpivot
    · next heq =>
      cases hpivot
      refine ⟨heq, fun e' he' heq' => ?_⟩
      obtain ⟨e'', -, hsome, -⟩ :=
        Evidence.exists_entityOf?_ofGraph q.options.hacks g rules he'
      rw [heq'] at hsome
      exact absurd (hsome.symm.trans hnone) (by simp)
    · cases hpivot

variable [Numeral α]

/-- **Constants lead back to the entities they were made of** just if no two ends of edges have the
same type and names that look the same in a rule file.

In any case the constant of an end stands for an end with that type and such a name, the last one
that is met; and inference attributes what it finds about a constant to an entity with that
constant, an end of an edge if there is one.  So if the ends are told apart, a fact that is found
about the constant of an end is attributed to that end. -/
theorem constants_lead_back (q : QueryEngine α) (g : FactGraph α) (rules : Program α) :
    ((q.evidenceFor g rules).LeadsBack g ↔ g.TellsApart) ∧
    (∀ e ∈ g.ends, ∃ e' earlier later, (q.evidenceFor g rules).entityOf? (cleanEntity e) = some e' ∧
      e'.type = e.type ∧ cleanName e'.name = cleanName e.name ∧ g.ends = earlier ++ e' :: later ∧
        ∀ e'' ∈ later, cleanEntity e'' ≠ cleanEntity e) ∧
    ∀ (pivot : Entity) (ask : BayesNet α → Except SearchFault (Answer α))
      (pairings : Option (List (String × List String))) (g' : FactGraph α) (events : List Event),
      g.Made → q.applyWith ask g pivot pairings = .ok (g', events) →
      ∃ added, g.GrowsBy pivot added g' ∧ ∀ f ∈ added, ∃ net answer l p,
        ask net = .ok answer ∧ (l, p) ∈ answer.probabilities ∧
          f.relation = untypedRelation l.name ∧ f.score = some p ∧
          cleanEntity f.head = l.arg1 ∧ cleanEntity f.tail = l.arg2 ∧
          ((∃ e ∈ g.ends, cleanEntity e = l.arg2) → f.tail ∈ g.ends) ∧
          (g.TellsApart → ∀ e ∈ g.ends, cleanEntity e = l.arg2 → f.tail = e) := by
  refine ⟨Evidence.leadsBack_iff_tellsApart .., fun e he => ?_, ?_⟩
  · obtain ⟨e', -, heq, htype, hname⟩ :=
      Evidence.exists_entityOf?_ofGraph q.options.hacks g rules he
    obtain ⟨-, earlier, later, hends, hlater⟩ :=
      (Evidence.entityOf?_ofGraph_eq_some_iff q.options.hacks g rules).1 heq
    exact ⟨e', earlier, later, heq, htype, hname, hends, hlater⟩
  · intro pivot ask pairings g' events hmade happly
    obtain rfl | ⟨net, answer, added, hask, hgrown, hadded, -⟩ :=
      exists_growsBy_of_applyWith hmade happly
    · exact ⟨[], .refl g' pivot, fun f hf => by cases hf⟩
    · refine ⟨added, hgrown, fun f hf => ?_⟩
      obtain ⟨l, p, hl, hfact⟩ := hadded f hf
      obtain ⟨harg, -, d, e, -, -, he, hparts⟩ := factOf?_eq_some_iff.1 hfact
      obtain ⟨heq, hend⟩ := cleanEntity_of_find?_entitiesWith he
      have htail : f.tail = e.2 := by rw [hparts]
      rw [← htail] at heq hend
      refine ⟨net, answer, l, p, hask, hl, by rw [hparts], by rw [hparts],
        by rw [hparts, harg], heq, ?_, ?_⟩
      · rintro ⟨e', he', heq'⟩
        exact hend e' he' heq'
      · intro happart e' he' heq'
        exact happart.eq (hend e' he' heq') he' (heq.trans heq'.symm)

/-! ### Namesakes -/

/-- Anyone may be a parent of anyone. -/
def parenthood : QueryEngine Float where
  options := {}
  mode := .oneRound
  method := .geometricMean
  candidates := .ofParts [⟨"per_parents_TYPE_PER_TO_PER", "PERSON", "PERSON", false⟩]
    [⟨one, [⟨"per_parents_TYPE_PER_TO_PER", "x", "y", true⟩]⟩]
  relations := ["per:parents"]

/-- Ben is a child of Ann Lee; Cal knows someone else, whose name has a hyphen in it. -/
def namesakes : FactGraph Float := .ofFacts
  [⟨⟨"Ann Lee", .person⟩, "per:children", ⟨"Ben", .person⟩, none, none⟩,
    ⟨⟨"Cal", .person⟩, "knows", ⟨"Ann-Lee", .person⟩, none, none⟩]

/-- Whoever is called Ann Lee in a rule file is a parent of Ben. -/
def descent : Answer Float where
  probabilities := [(⟨"per_parents_TYPE_PER_TO_PER", "PER_Ben", "PER_Ann_Lee", true⟩, decimal 9 1)]
  trueLiterals := []
  events := []

/-- The one with the hyphen becomes the parent of Ben. -/
theorem exists_applyWith_namesakes : ∃ g' events,
    parenthood.applyWith (fun _ => .ok descent) namesakes ⟨"Ben", .person⟩ none =
        .ok (g', events) ∧
      g'.contains (⟨"Ben", .person⟩, "per:parents", ⟨"Ann-Lee", .person⟩) = true ∧
      g'.contains (⟨"Ben", .person⟩, "per:parents", ⟨"Ann Lee", .person⟩) = false := by
  have hdecide :
      (parenthood.applyWith (fun _ => .ok descent) namesakes ⟨"Ben", .person⟩ none).toOption.any
        (fun s => s.1.contains (⟨"Ben", .person⟩, "per:parents", ⟨"Ann-Lee", .person⟩) &&
          !s.1.contains (⟨"Ben", .person⟩, "per:parents", ⟨"Ann Lee", .person⟩)) = true := by
    decide +kernel
  obtain ⟨⟨g', events⟩, happly, htest⟩ := exists_eq_ok_of_any hdecide
  exact ⟨g', events, happly, by simpa using htest⟩

/-- The constant of Ann Lee stands for the other one, who becomes the parent of Ben. -/
theorem not_leadsBack_namesakes :
    ¬ (parenthood.evidenceFor namesakes
      (parenthood.reduce (parenthood.rulesFor namesakes ⟨"Ben", .person⟩))).LeadsBack namesakes ∧
    ∃ g' events, parenthood.applyWith (fun _ => .ok descent) namesakes ⟨"Ben", .person⟩ none =
        .ok (g', events) ∧
      g'.contains (⟨"Ben", .person⟩, "per:parents", ⟨"Ann-Lee", .person⟩) = true ∧
      g'.contains (⟨"Ben", .person⟩, "per:parents", ⟨"Ann Lee", .person⟩) = false :=
  ⟨by decide +kernel, exists_applyWith_namesakes⟩

/-- What is found is said of an entity that is called so in a rule file. -/
theorem constants_lead_back_namesakes : ∃ g' events added,
    namesakes.Made ∧
      parenthood.applyWith (fun _ => .ok descent) namesakes ⟨"Ben", .person⟩ none =
        .ok (g', events) ∧
      namesakes.GrowsBy ⟨"Ben", .person⟩ added g' ∧
      ∀ f ∈ added, cleanEntity f.tail = "PER_Ann_Lee" ∧ f.tail ∈ namesakes.ends := by
  have hmade : namesakes.Made := FactGraph.made_ofFacts _
  obtain ⟨g', events, happly, -⟩ := exists_applyWith_namesakes
  obtain ⟨-, -, hadds⟩ := constants_lead_back parenthood namesakes
    (parenthood.reduce (parenthood.rulesFor namesakes ⟨"Ben", .person⟩))
  obtain ⟨added, hgrown, hadded⟩ := hadds _ _ none g' events hmade happly
  refine ⟨g', events, added, hmade, happly, hgrown, fun f hf => ?_⟩
  obtain ⟨net, answer, l, p, hask, hl, -, -, -, htail, hend, -⟩ := hadded f hf
  obtain rfl : descent = answer := Except.ok.inj hask
  obtain rfl : l = ⟨"per_parents_TYPE_PER_TO_PER", "PER_Ben", "PER_Ann_Lee", true⟩ :=
    congrArg Prod.fst (List.mem_singleton.1 hl)
  exact ⟨htail, hend ⟨⟨"Ann Lee", .person⟩, by decide +kernel, by decide +kernel⟩⟩

end QueryEngine

end FactNet
