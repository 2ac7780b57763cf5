import FactNet.Query.Engine
import FactNet.Proofs.Matching.Inferred
import FactNet.Proofs.Pairs

/-!
# Inference only extends a graph

Both ways of inference add facts about the pivot and leave everything else as it is, whatever the
rules are and whatever sampling says.  Matching gathers its facts before it adds any.  Sampling goes
through the probable literals one by one, and several of them can stand for the same fact; it looks
whether a fact is there before it adds it, so only the first of them adds one.

## Main results

* `QueryEngine.factOf?_eq_some_iff` — which fact a literal stands for.
* `QueryEngine.mem_vertices_or_eq` — the constants of a program stand for vertices or the pivot.
* `QueryEngine.growsBy_addLiteral`, `QueryEngine.growsBy_foldl_addLiteral` — **a literal extends the
  graph, and so do all of them.**
* `QueryEngine.applyWith_eq_ok`, `QueryEngine.exists_applyWith_eq` — what sampling does to a graph,
  and when it does it.
* `QueryEngine.exists_growsBy_of_applyWith` — **it adds the facts of the literals of an answer, and
  all of them are there in the end.**
* `inference_extends` — **both ways of inference only extend a graph around the pivot.**
-/

namespace FactNet

open Scalar

variable {α : Type}

namespace QueryEngine

variable [Scalar α] {q : QueryEngine α} {g g' : FactGraph α} {pivot : Entity} {rules : Program α}
  {entities : List (String × Entity)}

/-! ### Facts of literals -/

/-- A literal stands for a fact if it is about the pivot and probable enough, its predicate is open
and its other constant has an entity. -/
theorem factOf?_eq_some_iff {l : Literal} {p : α} {f : Fact α} :
    q.factOf? rules entities pivot l p = some f ↔
      l.arg1 = cleanEntity pivot ∧ q.options.threshold < p ∧
        ∃ d e, rules.get? l.name = some d ∧ d.closed = false ∧
          (entities.find? fun e => e.1 == l.arg2) = some e ∧
          f = ⟨pivot, untypedRelation l.name, e.2, some p, none⟩ := by
  have hguard : (l.arg1 == cleanEntity pivot && decide (q.options.threshold < p)) = true ↔
      l.arg1 = cleanEntity pivot ∧ q.options.threshold < p := by simp
  unfold factOf?
  constructor
  · intro h
    split at h
    · next hg =>
      obtain ⟨harg, hprob⟩ := hguard.1 hg
      split at h
      · next d key tail hd he =>
        split at h
        · cases h
        · next hclosed =>
          exact ⟨harg, hprob, d, (key, tail), hd, Bool.eq_false_iff.2 hclosed, he,
            (Option.some.inj h).symm⟩
      · cases h
    · cases h
  · rintro ⟨harg, hprob, d, ⟨key, tail⟩, hd, hclosed, he, rfl⟩
    rw [if_pos (hguard.2 ⟨harg, hprob⟩), hd, he]
    simp [hclosed]

/-! ### Entities of constants -/

/-- The constants of a program stand for vertices or the pivot. -/
theorem mem_vertices_or_eq (hmade : g.Made) {e : String × Entity}
    (he : e ∈ entitiesWith pivot (q.evidenceFor g rules).entities) :
    e.2 ∈ g.vertices ∨ e.2 = pivot := by
  have hedges : ∀ e ∈ (q.evidenceFor g rules).entities, e.2 ∈ g.vertices := by
    rintro ⟨key, e⟩ he
    obtain ⟨key', -, hlast⟩ := List.mem_filterMap.1 he
    obtain ⟨e', hlast, heq⟩ := Option.map_eq_some_iff.1 hlast
    obtain ⟨f, hf, hends⟩ := List.mem_flatMap.1 (Pairs.mem_of_last?_eq_some hlast)
    obtain ⟨v, -, hout⟩ := List.mem_flatMap.1 hf
    obtain ⟨hhead, htail⟩ := hmade.mem_vertices (FactGraph.mem_outgoing.1 hout).1
    obtain rfl : e' = e := congrArg Prod.snd heq
    simp only [List.mem_cons, Prod.mk.injEq, List.not_mem_nil, or_false] at hends
    rcases hends with ⟨-, rfl⟩ | ⟨-, rfl⟩
    · exact hhead
    · exact htail
  unfold entitiesWith at he
  split at he
  · exact .inl (hedges e he)
  · rcases List.mem_append.1 he with he | he
    · exact .inl (hedges e he)
    · exact .inr (congrArg Prod.snd (List.mem_singleton.1 he))

/-! ### Literals one after another -/

variable [Numeral α] {net : BayesNet α} {answer : Answer α}

/-- **A literal extends the graph**, by its fact or not at all. -/
theorem growsBy_addLiteral (hentities : ∀ e ∈ entities, e.2 ∈ g.vertices ∨ e.2 = pivot)
    {added : List (Fact α)} {state : FactGraph α × List Event}
    (h : g.GrowsBy pivot added state.1) (entry : Literal × α) :
    ∃ new, g.GrowsBy pivot (added ++ new)
        (q.addLiteral rules entities pivot net answer state entry).1 ∧
      ∀ f ∈ new, q.factOf? rules entities pivot entry.1 entry.2 = some f := by
  have hnone : g.GrowsBy pivot (added ++ []) state.1 := by rwa [List.append_nil]
  unfold addLiteral
  split
  · exact ⟨[], hnone, fun f hf => by cases hf⟩
  · next f hf =>
    split
    · exact ⟨[], hnone, fun f hf => by cases hf⟩
    · next hfresh =>
      -- the fact is looked up in the graph that the literals before this one have left
      obtain ⟨-, -, d, e, -, -, he, heq⟩ := factOf?_eq_some_iff.1 hf
      have htail : f.tail ∈ g.vertices ∨ f.tail = pivot :=
        heq ▸ hentities e (List.mem_of_find?_eq_some he)
      refine ⟨[f], h.add (Bool.eq_false_iff.2 hfresh) (heq ▸ rfl) htail, fun f' hf' => ?_⟩
      rw [List.mem_singleton.1 hf', hf]

/-- **All literals extend the graph**, each new fact being that of one of them. -/
theorem growsBy_foldl_addLiteral (hentities : ∀ e ∈ entities, e.2 ∈ g.vertices ∨ e.2 = pivot)
    (entries : List (Literal × α)) (events : List Event) :
    ∃ added, g.GrowsBy pivot added
        (entries.foldl (q.addLiteral rules entities pivot net answer) (g, events)).1 ∧
      ∀ f ∈ added, ∃ entry ∈ entries,
        q.factOf? rules entities pivot entry.1 entry.2 = some f := by
  induction entries using List.reverseRecOn with
  | nil => exact ⟨[], .refl g pivot, fun f hf => by cases hf⟩
  | append_singleton entries entry ih =>
    obtain ⟨added, hgrown, hadded⟩ := ih
    obtain ⟨new, hgrown', hnew⟩ := growsBy_addLiteral hentities hgrown entry
    rw [List.foldl_append]
    refine ⟨added ++ new, hgrown', fun f hf => ?_⟩
    rcases List.mem_append.1 hf with hf | hf
    · obtain ⟨entry', hentry', heq⟩ := hadded f hf
      exact ⟨entry', List.mem_append_left _ hentry', heq⟩
    · exact ⟨entry, by simp, hnew f hf⟩

/-! ### The graph that sampling leaves -/

/-- Sampling leaves the graph as it is, or goes through the literals of an answer. -/
theorem applyWith_eq_ok {ask : BayesNet α → Except SearchFault (Answer α)}
    {pairings : Option (List (String × List String))} {events : List Event}
    (h : q.applyWith ask g pivot pairings = .ok (g', events)) :
    g' = g ∨ ∃ net answer events', ∃ entries : List (Literal × α),
      ask net = .ok answer ∧ entries.Perm answer.probabilities ∧
        let rules := q.reduce (q.rulesFor g pivot)
        let entities := entitiesWith pivot (q.evidenceFor g rules).entities
        g' = (entries.foldl (q.addLiteral rules entities pivot net answer) (g, events')).1 := by
  unfold applyWith at h
  dsimp only at h
  split at h
  · cases h
    exact .inl rfl
  · split at h
    · cases h
    · split at h
      · cases h
      · next net events₀ _ =>
        split at h
        · cases h
        · next answer hask =>
          exact .inr ⟨net, answer, _, _, hask, List.mergeSort_perm _ _,
            (congrArg Prod.fst (Except.ok.inj h)).symm⟩

/-- Where nothing is refused or fails, sampling goes through the literals of the answer. -/
theorem exists_applyWith_eq {ask : BayesNet α → Except SearchFault (Answer α)}
    {pairings : Option (List (String × List String))} {r : Registry α} {events : List Event}
    (hne : (q.rulesFor g pivot).rules ≠ []) :
    let rules := q.reduce (q.rulesFor g pivot)
    let evidence := q.evidenceFor g rules
    let entities := entitiesWith pivot evidence.entities
    q.registry rules evidence.program.rules entities pairings = .ok r →
      r.build = .ok (net, events) → ask net = .ok answer →
        ∃ entries : List (Literal × α), ∃ events', entries.Perm answer.probabilities ∧
          q.applyWith ask g pivot pairings =
            .ok (entries.foldl (q.addLiteral rules entities pivot net answer) (g, events')) := by
  intro rules evidence entities hregistry hbuild hask
  have hempty : ¬(q.rulesFor g pivot).rules.isEmpty = true := by simpa using hne
  refine ⟨answer.probabilities.mergeSort fun a b => a.1.text ≤ b.1.text, events ++ answer.events,
    List.mergeSort_perm .., ?_⟩
  unfold applyWith
  rw [if_neg hempty]
  dsimp only
  rw [hregistry]
  simp only [hbuild, hask]
  rfl

/-! ### What sampling adds -/

/-- A literal takes no fact away. -/
theorem contains_addLiteral {state : FactGraph α × List Event} {key : FactKey}
    (h : state.1.contains key = true) (entry : Literal × α) :
    (q.addLiteral rules entities pivot net answer state entry).1.contains key = true := by
  unfold addLiteral
  split
  · exact h
  · next f _ =>
    split
    · exact h
    · next hfresh =>
      obtain ⟨f', hf', rfl⟩ := FactGraph.contains_iff.1 h
      rw [FactGraph.add_of_fresh (Bool.eq_false_iff.2 hfresh)]
      exact FactGraph.contains_iff.2 ⟨f', List.mem_append_left _ hf', rfl⟩

/-- After a literal its fact is there. -/
theorem contains_addLiteral_self {state : FactGraph α × List Event} {entry : Literal × α}
    {f : Fact α} (hf : q.factOf? rules entities pivot entry.1 entry.2 = some f) :
    (q.addLiteral rules entities pivot net answer state entry).1.contains f.key = true := by
  simp only [addLiteral, hf]
  split
  · next hold => exact hold
  · next hfresh =>
    rw [FactGraph.add_of_fresh (Bool.eq_false_iff.2 hfresh)]
    exact FactGraph.contains_iff.2 ⟨f, by simp, rfl⟩

/-- After all literals all their facts are there. -/
theorem contains_foldl_addLiteral {entries : List (Literal × α)} {entry : Literal × α} {f : Fact α}
    (hentry : entry ∈ entries) (hf : q.factOf? rules entities pivot entry.1 entry.2 = some f)
    (state : FactGraph α × List Event) :
    (entries.foldl (q.addLiteral rules entities pivot net answer) state).1.contains f.key =
      true := by
  induction entries using List.reverseRecOn with
  | nil => cases hentry
  | append_singleton entries last ih =>
    rw [List.foldl_append]
    rcases List.mem_append.1 hentry with hentry | hlast
    · exact contains_addLiteral (ih hentry) last
    · obtain rfl := List.mem_singleton.1 hlast
      exact contains_addLiteral_self hf

/-- **What sampling adds to a graph**: facts of literals of an answer, each of them new, such that
the fact of every literal is there in the end. -/
theorem exists_growsBy_of_applyWith {ask : BayesNet α → Except SearchFault (Answer α)}
    {pairings : Option (List (String × List String))} {events : List Event} (hmade : g.Made)
    (h : q.applyWith ask g pivot pairings = .ok (g', events)) :
    let rules := q.reduce (q.rulesFor g pivot)
    let entities := entitiesWith pivot (q.evidenceFor g rules).entities
    g' = g ∨ ∃ net answer added, ask net = .ok answer ∧ g.GrowsBy pivot added g' ∧
      (∀ f ∈ added, ∃ l p, (l, p) ∈ answer.probabilities ∧
        q.factOf? rules entities pivot l p = some f) ∧
      ∀ l p f, (l, p) ∈ answer.probabilities → q.factOf? rules entities pivot l p = some f →
        g'.contains f.key = true := by
  intro rules entities
  refine (applyWith_eq_ok h).imp id ?_
  rintro ⟨net, answer, events', entries, hask, hperm, hg'⟩
  obtain ⟨added, hgrown, hadded⟩ := growsBy_foldl_addLiteral
    (fun e he => mem_vertices_or_eq hmade he) entries events'
  refine ⟨net, answer, added, hask, hg' ▸ hgrown, fun f hf => ?_, fun l p f hl hf => ?_⟩
  · obtain ⟨⟨l, p⟩, hl, hfact⟩ := hadded f hf
    exact ⟨l, p, hperm.mem_iff.1 hl, hfact⟩
  · rw [hg']
    exact contains_foldl_addLiteral (hperm.mem_iff.2 hl) hf _

end QueryEngine

/-- Anyone may be another name of anyone. -/
def nicknames : QueryEngine Float where
  options := {}
  mode := .oneRound
  method := .geometricMean
  candidates := .ofParts [⟨"per_alternate_names_TYPE_PER_TO_PER", "PERSON", "PERSON", false⟩]
    [⟨one, [⟨"per_alternate_names_TYPE_PER_TO_PER", "x", "y", true⟩]⟩]
  relations := ["per:alternate_names"]

/-- Ben knows Annie. -/
def acquaintances : FactGraph Float :=
  .ofFacts [⟨⟨"Ben", .person⟩, "knows", ⟨"Annie", .person⟩, none, none⟩]

/-- Annie is probably another name of Ann. -/
def guess : QueryEngine.Answer Float where
  probabilities :=
    [(⟨"per_alternate_names_TYPE_PER_TO_PER", "PER_Ann", "PER_Annie", true⟩, decimal 9 1)]
  trueLiterals := []
  events := []

end FactNet
