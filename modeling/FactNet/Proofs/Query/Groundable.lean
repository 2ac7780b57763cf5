import FactNet.Query.Engine
import FactNet.Proofs.Graph
import FactNet.Proofs.Grounding.Accepted
import FactNet.Proofs.Pairs
import FactNet.Proofs.Program.Acyclic
import FactNet.Proofs.Query.Rounds

/-!
# Programs that can be grounded

The rules that bear on a pivot come with predicates that are open or closed.  Candidates may declare
a name in several ways, or use one that they do not declare; the selected program declares each name
once, and every name that its rules use.  What a positive literal is about is open.

So the network of a pivot can always be built up: the predicates are accepted, every fact is
accepted as evidence or as a prior, and every rule is accepted.

## Main definitions

* `Program.IsGroundable` — what a program needs for its rules to be accepted.
* `Program.IsFactClause` — a clause that a fact of the program can have.

## Main results

* `mem_predicates_selectRules` — which predicates the selected program declares.
* `isGroundable_selectRules` — **the selected program can be grounded.**
* `Program.IsGroundable.exists_registry_eq_ok` — **nothing is refused for such a program.**
* `QueryEngine.rulesFor_groundable` — both, for the program of a pivot.
-/

namespace FactNet

open Scalar

variable {α : Type}

/-! ### Names of predicates -/

theorem mem_namesWhere {test : Literal → Bool} {rules : List (Rule α)} {name : String} :
    name ∈ namesWhere test rules ↔
      ∃ r ∈ rules, ∃ l ∈ r.literals, test l = true ∧ l.isEquality = false ∧ l.name = name := by
  simp [namesWhere, and_assoc]

/-- The name of a fact's predicate ends with types, so it is not that of equality. -/
theorem Fact.predicateName_ne_equalsName (f : Fact α) : f.predicateName ≠ equalsName := by
  intro h
  have hlength := congrArg String.length h
  simp only [predicateName, cleanRelation, typeSuffix, String.length_append, equalsName] at hlength
  have hmarker : (String.ofList typeMarker).length = 6 := by decide
  have hname : "=".length = 1 := by decide
  omega

/-- What is declared for a name has it. -/
theorem name_of_declaration? {candidates : Program α} {name : String} {d : Predicate}
    (h : declaration? candidates name = some d) : d.name = name := by
  simpa using List.find?_some h

/-- Something is declared for the name of a predicate. -/
theorem exists_declaration? {candidates : Program α} {name : String}
    (h : name ∈ candidates.predicates.map (·.name)) :
    ∃ d, declaration? candidates name = some d := by
  obtain ⟨d, hd, rfl⟩ := List.mem_map.1 h
  refine Option.isSome_iff_exists.1 (List.find?_isSome.2 ⟨d, List.mem_reverse.2 hd, ?_⟩)
  exact beq_self_eq_true d.name

section Names

variable {g : FactGraph α} {pivot : Entity} {rules : List (Rule α)} {name : String}

theorem mem_closedNames : name ∈ closedNames g pivot rules ↔
    (name ∈ namesWhere (fun l => !l.truth) rules ∨ name ∈ g.edges.map Fact.predicateName) ∧
      name ∉ openNames g pivot rules := by
  simp [closedNames, or_and_right]

theorem ne_equalsName_of_mem_closedNames (h : name ∈ closedNames g pivot rules) :
    name ≠ equalsName := by
  rcases (mem_closedNames.1 h).1 with h | h
  · obtain ⟨-, -, l, -, -, heq, rfl⟩ := mem_namesWhere.1 h
    simpa [Literal.isEquality] using heq
  · obtain ⟨f, -, rfl⟩ := List.mem_map.1 h
    exact f.predicateName_ne_equalsName

end Names

/-! ### The selected program -/

namespace Program

/-- What a program needs for its rules to be accepted. -/
structure IsGroundable (p : Program α) : Prop where
  /-- No two predicates share a name. -/
  names : (p.predicates.map (·.name)).Nodup
  /-- All predicates of the rules are declared. -/
  declared : ∀ r ∈ p.rules, r.IsDeclared (p.predicates.map (·.name))
  /-- What a positive literal is about is open. -/
  heads : ∀ r ∈ p.rules, ∀ l ∈ r.literals, l.truth = true →
    ∀ d ∈ p.predicates, d.name = l.name → d.closed = false

theorem IsGroundable.of_acyclicPart {p q : Program α} (h : q.IsGroundable)
    (hpart : p.AcyclicPart q) : p.IsGroundable where
  names := hpart.predicates_eq ▸ h.names
  declared r hr := hpart.predicates_eq ▸ h.declared r (hpart.rules_sublist.subset hr)
  heads r hr := hpart.predicates_eq ▸ h.heads r (hpart.rules_sublist.subset hr)

end Program

section Selected

variable {mode : RulesMode} {candidates : Program α} {g : FactGraph α} {pivot : Entity}

/-- What is declared for some names, changed by something that keeps names. -/
theorem mem_map_declaration? (change : Predicate → Predicate)
    (hchange : ∀ d, (change d).name = d.name) {names : List String} {d : Predicate} :
    d ∈ (names.filterMap (declaration? candidates)).map change ↔
      d.name ∈ names ∧ ∃ d₀, declaration? candidates d.name = some d₀ ∧ d = change d₀ := by
  rw [List.mem_map]
  constructor
  · rintro ⟨d₀, hd₀, rfl⟩
    obtain ⟨name, hname, hd₀⟩ := List.mem_filterMap.1 hd₀
    obtain rfl := (hchange d₀).trans (name_of_declaration? hd₀)
    exact ⟨hname, d₀, hd₀, rfl⟩
  · rintro ⟨hname, d₀, hd₀, heq⟩
    exact ⟨d₀, List.mem_filterMap.2 ⟨d.name, hname, hd₀⟩, heq.symm⟩

/-- The selected program declares the names that stay open and those that are closed, as far as the
candidates do. -/
theorem mem_predicates_selectRules {d : Predicate} :
    let p := selectRules mode candidates g pivot
    d ∈ p.predicates ↔
      (d.name ∈ openNames g pivot p.rules ∧
        ∃ d₀, declaration? candidates d.name = some d₀ ∧ d = d₀.asOpen) ∨
      d.name ∈ closedNames g pivot p.rules ∧
        ∃ d₀, declaration? candidates d.name = some d₀ ∧ d = d₀.asClosed := by
  intro p
  rw [← mem_map_declaration? Predicate.asOpen fun _ => rfl,
    ← mem_map_declaration? Predicate.asClosed fun _ => rfl, ← List.mem_append]
  exact Predicate.mem_setOf

/-- What a positive literal of the selected rules is about stays open. -/
theorem mem_openNames_of_truth {r : Rule α} {l : Literal}
    (hr : r ∈ (selectRules mode candidates g pivot).rules) (hl : l ∈ r.literals)
    (htruth : l.truth = true) (heq : l.isEquality = false) :
    l.name ∈ openNames g pivot (selectRules mode candidates g pivot).rules :=
  List.mem_append_left _ (mem_namesWhere.2 ⟨r, hr, l, hl, htruth, heq, rfl⟩)

/-- What the literals of the selected rules are about is open or closed. -/
theorem mem_openNames_or_mem_closedNames {r : Rule α} {l : Literal}
    (hr : r ∈ (selectRules mode candidates g pivot).rules) (hl : l ∈ r.literals)
    (heq : l.isEquality = false) :
    l.name ∈ openNames g pivot (selectRules mode candidates g pivot).rules ∨
      l.name ∈ closedNames g pivot (selectRules mode candidates g pivot).rules := by
  refine or_iff_not_imp_left.2 fun hopen => mem_closedNames.2 ⟨.inl ?_, hopen⟩
  have hfalse : l.truth = false :=
    Bool.eq_false_iff.2 fun htruth => hopen (mem_openNames_of_truth hr hl htruth heq)
  exact mem_namesWhere.2 ⟨r, hr, l, hl, by simp [hfalse], heq, rfl⟩

/-- **The selected program can be grounded.** -/
theorem isGroundable_selectRules : (selectRules mode candidates g pivot).IsGroundable where
  names := by
    refine List.Nodup.map_on (fun d hd d' hd' hname => ?_) (Program.nodup_predicates _)
    -- a name that stays open is not closed
    rcases mem_predicates_selectRules.1 hd with ⟨hopen, d₀, hd₀, rfl⟩ | ⟨hclosed, d₀, hd₀, rfl⟩ <;>
      rcases mem_predicates_selectRules.1 hd' with
        ⟨hopen', d₀', hd₀', rfl⟩ | ⟨hclosed', d₀', hd₀', rfl⟩
    · rw [hname, hd₀', Option.some.injEq] at hd₀
      rw [hd₀]
    · exact absurd (hname ▸ hopen) (mem_closedNames.1 hclosed').2
    · exact absurd (hname ▸ hopen') (mem_closedNames.1 hclosed).2
    · rw [hname, hd₀', Option.some.injEq] at hd₀
      rw [hd₀]
  declared := by
    intro r hr l hl heq
    have hselected := hr
    rw [rules_selectRules, selectionRounds] at hselected
    obtain ⟨d₀, hd₀⟩ := exists_declaration? (isDeclared_of_mem_roundsFrom hselected l hl heq)
    have hname := name_of_declaration? hd₀
    rcases mem_openNames_or_mem_closedNames hr hl heq with hopen | hclosed
    · exact List.mem_map.2 ⟨d₀.asOpen, mem_predicates_selectRules.2
        (.inl ⟨hname.symm ▸ hopen, d₀, hname.symm ▸ hd₀, rfl⟩), hname⟩
    · exact List.mem_map.2 ⟨d₀.asClosed, mem_predicates_selectRules.2
        (.inr ⟨hname.symm ▸ hclosed, d₀, hname.symm ▸ hd₀, rfl⟩), hname⟩
  heads := by
    intro r hr l hl htruth d hd hname
    obtain ⟨-, d₀, -, rfl⟩ | ⟨hclosed, -⟩ := mem_predicates_selectRules.1 hd
    · rfl
    · rw [hname] at hclosed
      have heq : l.isEquality = false := by
        simpa [Literal.isEquality] using ne_equalsName_of_mem_closedNames hclosed
      exact absurd (mem_openNames_of_truth hr hl htruth heq) (mem_closedNames.1 hclosed).2

end Selected

/-! ### Facts -/

/-- Whether a token names a constant is told from its start. -/
theorem isConstant_append {s : String} (h : isConstant s = true) (t : String) :
    isConstant (s ++ t) = true := by
  unfold isConstant at h ⊢
  rw [String.toList_append]
  cases hs : s.toList with
  | nil => simp [hs] at h
  | cons c cs => simpa [hs] using h

/-- An entity has a constant, which starts with the short name of its type. -/
theorem isConstant_cleanEntity (e : Entity) : isConstant (cleanEntity e) = true := by
  have hshort : isConstant e.type.short = true := by cases e.type <;> decide
  exact isConstant_append (isConstant_append hshort "_") _

/-- A clause that a fact of a program can have: a literal about constants whose predicate is
declared. -/
def Program.IsFactClause (p : Program α) (clause : Rule α) : Prop :=
  ∃ weight, ∃ d ∈ p.predicates, ∃ head tail : Entity,
    clause = ⟨weight, [⟨d.name, cleanEntity head, cleanEntity tail, true⟩]⟩

/-- The facts of a graph say nothing else. -/
theorem isFactClause_of_mem_ofGraph [Scalar α] {hacks : Hacks} {g : FactGraph α} {p : Program α}
    {clause : Rule α} (h : clause ∈ (Evidence.ofGraph hacks g p).program.rules) :
    p.IsFactClause clause := by
  obtain ⟨⟨d, _⟩, hmem, rfl⟩ := List.mem_map.1 h
  obtain ⟨f, -, hf⟩ := List.mem_filterMap.1 hmem
  obtain ⟨d, hd, heq⟩ := Option.map_eq_some_iff.1 hf
  cases heq
  exact ⟨_, d, List.mem_of_find?_eq_some hd, f.head, f.tail, rfl⟩

/-! ### What is registered -/

/-- One registration after another is accepted if each of them is. -/
theorem QueryEngine.accepted_andThen {done : Registered α} {P Q : Registry α → Prop}
    {f : Registry α → Registered α} (hdone : done.Accepted P)
    (hf : ∀ r, P r → (f r).Accepted Q) : (andThen done f).Accepted Q := by
  obtain ⟨r, rfl, hr⟩ := hdone.exists_eq
  exact hf r hr

namespace Program.IsGroundable

variable [Scalar α] [Numeral α] {p : Program α}

/-- The clause of a fact is accepted, as evidence or as a prior. -/
theorem accepted_addClause (h : p.IsGroundable) {clause : Rule α} (hclause : p.IsFactClause clause)
    {r : Registry α} (hr : r.HasDeclared p.predicates) :
    (QueryEngine.addClause p r clause).Accepted (·.HasDeclared p.predicates) := by
  obtain ⟨weight, d, hd, head, tail, rfl⟩ := hclause
  have hget : p.get? d.name = some d := (get?_eq_some_iff h.names).2 ⟨hd, rfl⟩
  simp only [QueryEngine.addClause, List.head?_cons, hget]
  split
  · next hclosed =>
    exact hr.accepted_addEvidence hd hclosed rfl (isConstant_cleanEntity head)
      (isConstant_cleanEntity tail)
  · refine hr.accepted_addPrior rfl fun l hl _ => ?_
    obtain rfl := List.mem_singleton.1 hl
    exact List.mem_map.2 ⟨d, hd, rfl⟩

/-- **Nothing is refused for such a program**, with a prior that can be used. -/
theorem exists_registry_eq_ok (h : p.IsGroundable) {q : QueryEngine α}
    (hpos : zero < q.options.prior) (hlt : q.options.prior < one) {clauses : List (Rule α)}
    (hclauses : ∀ clause ∈ clauses, p.IsFactClause clause) (entities : List (String × Entity))
    (pairings : Option (List (String × List String))) :
    ∃ r, q.registry p clauses entities pairings = .ok r := by
  have hcreate : ∃ r, Registry.create q.method q.options.prior q.options.hillClimb
      q.options.threads = .ok r ∧ r.predicates = [] := by
    simp [Registry.create, hpos, hlt]
  obtain ⟨r₀, hcreate, hempty⟩ := hcreate
  have hpredicates := Registry.accepted_addPredicates hempty h.names
  have hconstants := QueryEngine.accepted_andThen (Q := (·.HasDeclared p.predicates)) hpredicates
    (f := fun r => (r.addConstants (entities.map fun e => (e.1, e.2.type.name)), none)) fun r hr =>
      ⟨rfl, hr.of_addsConstants (Registry.AddsConstants.addConstants r _)⟩
  have hfacts := QueryEngine.accepted_andThen hconstants
    (f := fun r => Registry.each (QueryEngine.addClause p) r clauses) fun r hr =>
      Registry.accepted_each (fun clause hclause r hr =>
        h.accepted_addClause (hclauses clause hclause) hr) hr
  have hrules := QueryEngine.accepted_andThen hfacts
    (f := fun r => Registry.each Registry.addRule r p.rules) fun r hr =>
      Registry.accepted_each (fun rule hrule r hr => hr.accepted_addRule (h.declared rule hrule)) hr
  obtain ⟨r, heq, -⟩ := hrules.exists_eq
  rw [QueryEngine.registry, hcreate]
  dsimp only
  rw [heq]
  exact ⟨_, rfl⟩

end Program.IsGroundable

namespace QueryEngine

variable [Scalar α]

/-- Leaving out rules keeps a program groundable. -/
theorem isGroundable_reduce (q : QueryEngine α) {p : Program α} (h : p.IsGroundable) :
    (q.reduce p).IsGroundable := by
  unfold reduce
  split
  · exact h.of_acyclicPart (p.makeAcyclic_sound.1 _)
  · exact h

/-- **The program of a pivot can always be grounded.**

No two of its predicates share a name, everything its rules are about is declared but for
equalities, and what a positive literal is about is open.  With a prior strictly between none and
certainty nothing is refused, whether rules that would close a cycle are left out or not. -/
theorem rulesFor_groundable [Numeral α] (q : QueryEngine α) (g : FactGraph α) (pivot : Entity)
    (pairings : Option (List (String × List String))) :
    let selected := q.rulesFor g pivot
    let rules := q.reduce selected
    let evidence := q.evidenceFor g rules
    ((selected.predicates.map (·.name)).Nodup ∧
      (∀ r ∈ selected.rules, ∀ l ∈ r.literals, l.isEquality = false →
        ∃ d ∈ selected.predicates, d.name = l.name) ∧
      ∀ r ∈ selected.rules, ∀ l ∈ r.literals, l.truth = true →
        ∀ d ∈ selected.predicates, d.name = l.name → d.closed = false) ∧
    (zero < q.options.prior → q.options.prior < one →
      ∃ r, q.registry rules evidence.program.rules (entitiesWith pivot evidence.entities)
        pairings = .ok r) := by
  intro selected rules evidence
  have hselected : selected.IsGroundable := isGroundable_selectRules
  have hrules : rules.IsGroundable := q.isGroundable_reduce hselected
  refine ⟨⟨hselected.names, fun r hr l hl heq => ?_, hselected.heads⟩, fun hpos hlt => ?_⟩
  · exact List.mem_map.1 (hselected.declared r hr l hl heq)
  · exact hrules.exists_registry_eq_ok hpos hlt (fun _ => isFactClause_of_mem_ofGraph) _ pairings

/-- What someone is called may be another name of theirs.  Calling is declared twice, as closed and
as open. -/
def callNames : QueryEngine Float where
  options := { acyclic := true }
  mode := .oneRound
  method := .geometricMean
  candidates := .ofParts
    [⟨"called_TYPE_PER_TO_PER", "PERSON", "PERSON", true⟩,
      ⟨"called_TYPE_PER_TO_PER", "PERSON", "PERSON", false⟩,
      ⟨"per_alternate_names_TYPE_PER_TO_PER", "PERSON", "PERSON", false⟩]
    [⟨one, [⟨"called_TYPE_PER_TO_PER", "x", "y", false⟩,
      ⟨"per_alternate_names_TYPE_PER_TO_PER", "x", "y", true⟩]⟩]
  relations := ["called", "per:alternate_names"]

/-- Anna is called Annie. -/
def callers : FactGraph Float :=
  .ofFacts [⟨⟨"Anna", .person⟩, "called", ⟨"Annie", .person⟩, none, none⟩]

/-- The rule is selected, and nothing is refused for it. -/
theorem rulesFor_groundable_callNames :
    let selected := callNames.rulesFor callers ⟨"Ann", .person⟩
    let rules := callNames.reduce selected
    let evidence := callNames.evidenceFor callers rules
    selected.rules.length = 1 ∧ evidence.program.rules.length = 1 ∧
      zero < callNames.options.prior ∧ callNames.options.prior < one ∧
      ∃ r, callNames.registry rules evidence.program.rules
        (entitiesWith ⟨"Ann", .person⟩ evidence.entities) none = .ok r := by
  intro selected rules evidence
  have hselected : selected.rules.length = 1 := by decide +kernel
  have hevidence : evidence.program.rules.length = 1 := by decide +kernel
  have hpos : zero < callNames.options.prior := by decide +kernel
  have hlt : callNames.options.prior < one := by decide +kernel
  have hgroundable := callNames.rulesFor_groundable callers ⟨"Ann", .person⟩ none
  exact ⟨hselected, hevidence, hpos, hlt, hgroundable.2 hpos hlt⟩

end QueryEngine

end FactNet
