import Mathlib.Data.List.Basic
import Mathlib.Data.List.Induction
import FactNet.Proofs.Query.Rounds
import FactNet.Query.Engine

/-!
# Selection is monotone

A graph with more predicates among its facts selects no fewer rules.  As long as both selections go
on, every round over the larger graph has taken at least what the same round over the smaller one
has.  But the selection over the larger graph may end earlier.  It then ends with a round that takes
nothing, so what it has selected is closed: it holds every rule that its own heads and bodies lead
to.  Every rule that the smaller graph selects is justified by rules selected before it, so it is
led to as well.

A mode that goes further selects no fewer rules either, because it starts from more.

## Main definitions

* `Frontier.Within` — a frontier knows and wants no more than another.

## Main results

* `takeRounds_subset` — **round by round, the larger frontier has taken more**, while it goes on.
* `IsJustified.flatten_subset` — **what is justified is in every closed set of rules.**
* `selectRules_chained_subset` — a larger graph selects more, however early it ends.
* `QueryEngine.rulesFor_monotone` — **selection is monotone**, in the graph and in the mode.
-/

namespace FactNet

open Scalar

variable {α : Type} {declared : List String} {f f' : Frontier} {n : Nat}
  {taken taken' remaining remaining' : List (Rule α)}

/-! ### Larger frontiers -/

/-- A frontier knows and wants no more than another. -/
structure Frontier.Within (f f' : Frontier) : Prop where
  /-- What it knows, the other knows. -/
  bodies : f.bodies ⊆ f'.bodies
  /-- What it wants, the other wants. -/
  heads : f.heads ⊆ f'.heads

namespace Frontier.Within

theorem admits (h : f.Within f') {r : Rule α} (hr : f.admits declared r = true) :
    f'.admits declared r = true := by
  obtain ⟨hdeclared, hfits⟩ := admits_iff.1 hr
  exact admits_iff.2 ⟨hdeclared, hfits.imp (fun _ _ hc => h.heads hc) fun _ _ ha => h.bodies ha⟩

theorem filter_sublist (h : f.Within f') (rules : List (Rule α)) :
    (rules.filter (f.admits declared)).Sublist (rules.filter (f'.admits declared)) :=
  List.monotone_filter_right rules fun _ hr => h.admits hr

theorem advance (h : f.Within f') (htaken : taken ⊆ taken') :
    (f.advance taken).Within (f'.advance taken') where
  bodies := List.append_subset.2 ⟨List.subset_append_of_subset_left _ h.bodies,
    List.subset_append_of_subset_right _ h.heads⟩
  heads := by
    refine List.append_subset.2 ⟨List.subset_append_of_subset_left _ h.heads, fun c hc => ?_⟩
    obtain ⟨r, hr, hc⟩ := List.mem_flatMap.1 hc
    exact List.mem_append_right _ (List.mem_flatMap.2 ⟨r, htaken hr, hc⟩)

end Frontier.Within

/-- A graph with more predicates among its facts starts from more. -/
theorem firstFrontier_within {g g' : FactGraph α}
    (h : g.edges.map Fact.predicateName ⊆ g'.edges.map Fact.predicateName) (mode : RulesMode)
    (pivot : Entity) : (firstFrontier mode g pivot).Within (firstFrontier mode g' pivot) where
  bodies := by
    have hknown : (g.edges.map Fact.predicateName).eraseDups ⊆
        (g'.edges.map Fact.predicateName).eraseDups := fun a ha =>
      List.mem_eraseDups.2 (h (List.mem_eraseDups.1 ha))
    unfold firstFrontier
    dsimp only
    split
    · exact List.filter_subset _ hknown
    · exact hknown
  heads := List.Subset.refl _

/-- So does every mode, compared with the one that knows the catalogue only. -/
theorem firstFrontier_catalogueOnly_within (g : FactGraph α) (pivot : Entity) (mode : RulesMode) :
    (firstFrontier .catalogueOnly g pivot).Within (firstFrontier mode g pivot) where
  bodies := by
    unfold firstFrontier
    dsimp only
    rw [if_pos rfl]
    split
    · exact List.Subset.refl _
    · exact List.filter_subset_self _
  heads := List.Subset.refl _

/-! ### Round by round -/

/-- What has been taken before stays. -/
theorem subset_takeRounds (mode : RulesMode) (declared : List String) (n : Nat) (f : Frontier)
    (taken remaining : List (Rule α)) : taken ⊆ takeRounds mode declared n f taken remaining := by
  rw [takeRounds_eq]
  exact List.subset_append_left _ _

/-- What the first round takes is taken, whatever the mode. -/
theorem filter_admits_subset (mode : RulesMode) (candidates : Program α) (g : FactGraph α)
    (pivot : Entity) : candidates.rules.filter
      ((firstFrontier mode g pivot).admits (candidates.predicates.map (·.name))) ⊆
        (selectRules mode candidates g pivot).rules := by
  change _ ⊆ takeRounds mode _ (9 + 1) _ [] candidates.rules
  rw [takeRounds, List.nil_append]
  split
  · exact List.Subset.refl _
  · exact subset_takeRounds ..

/-- If there are no more rounds, or the first takes nothing, no other rule is taken. -/
theorem rules_selectRules_eq {mode : RulesMode} {candidates : Program α} {g : FactGraph α}
    {pivot : Entity} (h : mode ≠ .chained ∨ candidates.rules.filter
      ((firstFrontier mode g pivot).admits (candidates.predicates.map (·.name))) = []) :
    (selectRules mode candidates g pivot).rules = candidates.rules.filter
      ((firstFrontier mode g pivot).admits (candidates.predicates.map (·.name))) := by
  change takeRounds mode _ (9 + 1) _ [] candidates.rules = _
  rw [takeRounds, List.nil_append, if_pos]
  rcases h with h | h
  · simp [h]
  · simp [h]

/-- **Round by round, the larger frontier has taken more**, as long as its rounds take something. -/
theorem takeRounds_subset (hf : f.Within f') (htaken : taken ⊆ taken')
    (hremaining : remaining ⊆ taken' ++ remaining')
    (hproductive : [] ∉ roundsFrom .chained declared n f' taken' remaining') :
    takeRounds .chained declared n f taken remaining ⊆
      takeRounds .chained declared n f' taken' remaining' := by
  induction n generalizing f f' taken taken' remaining remaining' with
  | zero => exact htaken
  | succ n ih =>
    have hnow : taken ++ remaining.filter (f.admits declared) ⊆
        taken' ++ remaining'.filter (f'.admits declared) := by
      refine List.append_subset.2 ⟨List.subset_append_of_subset_left _ htaken, fun r hr => ?_⟩
      obtain ⟨hr, hadmits⟩ := List.mem_filter.1 hr
      rcases List.mem_append.1 (hremaining hr) with hr | hr
      · exact List.mem_append_left _ hr
      · exact List.mem_append_right _ (List.mem_filter.2 ⟨hr, hf.admits hadmits⟩)
    have hlater : (remaining.filter fun r => !f.admits declared r) ⊆
        (taken' ++ remaining'.filter (f'.admits declared)) ++
          remaining'.filter fun r => !f'.admits declared r := by
      intro r hr
      rcases List.mem_append.1 (hremaining (List.mem_of_mem_filter hr)) with hr | hr
      · exact List.mem_append_left _ (List.mem_append_left _ hr)
      · rw [List.append_assoc]
        exact List.mem_append_right _ ((List.filter_append_perm _ _).mem_iff.2 hr)
    rw [takeRounds, takeRounds]
    by_cases hempty : remaining.filter (f.admits declared) = []
    · -- the smaller selection ends here
      rw [if_pos (by simp [hempty])]
      split
      · exact hnow
      · exact List.Subset.trans hnow (subset_takeRounds ..)
    · have hnow' : remaining'.filter (f'.admits declared) ≠ [] := by
        rintro hempty'
        simp [roundsFrom, hempty'] at hproductive
      rw [if_neg (by simpa using hempty), if_neg (by simpa using hnow')]
      refine ih (hf.advance hnow) hnow hlater fun hnil => hproductive ?_
      rw [roundsFrom, if_neg (by simpa using hnow')]
      exact List.mem_cons_of_mem _ hnil

/-! ### Selections that end -/

/-- **What is justified is in every closed set of rules**: in every one that holds each rule of the
rounds whose heads are wanted to begin with or are bodies of the set, and whose bodies are known or
wanted to begin with. -/
theorem IsJustified.flatten_subset {known wanted : List String} {rounds : List (List (Rule α))}
    (h : IsJustified known wanted rounds) {closed : List (Rule α)}
    (hclosed : ∀ r ∈ rounds.flatten, r.Fits (fun c => c ∈ wanted ∨ ∃ r' ∈ closed, c ∈ r'.bodyNames)
      (fun a => a ∈ known ∨ a ∈ wanted) → r ∈ closed) : rounds.flatten ⊆ closed := by
  have hprefix : ∀ earlier later, rounds = earlier ++ later → earlier.flatten ⊆ closed := by
    intro earlier
    induction earlier using List.reverseRecOn with
    | nil => exact fun _ _ => List.nil_subset _
    | append_singleton earlier now ih =>
      intro later heq
      rw [List.append_assoc, List.singleton_append] at heq
      have hearlier := ih _ heq
      rw [List.flatten_append, List.flatten_singleton]
      refine List.append_subset.2 ⟨hearlier, fun r hr => ?_⟩
      refine hclosed r (heq ▸ by simp [hr]) ((h earlier now later heq r hr).imp ?_ fun _ _ => id)
      exact fun _ _ hc => hc.imp_right fun ⟨r', hr', hc⟩ => ⟨r', hearlier hr', hc⟩
  exact hprefix rounds [] (List.append_nil _).symm

/-- A round that takes nothing is the last one. -/
theorem eq_concat_of_nil_mem {mode : RulesMode}
    (h : [] ∈ roundsFrom mode declared n f taken remaining) :
    ∃ earlier, roundsFrom mode declared n f taken remaining = earlier ++ [[]] := by
  induction n generalizing f taken remaining with
  | zero => cases h
  | succ n ih =>
    rw [roundsFrom] at h ⊢
    split
    · next hlast =>
      rw [if_pos hlast, List.mem_singleton] at h
      exact ⟨[], by rw [← h, List.nil_append]⟩
    · next hmore =>
      rw [if_neg hmore] at h
      have hne : remaining.filter (f.admits declared) ≠ [] := by
        rintro hempty
        simp [hempty] at hmore
      obtain ⟨earlier, heq⟩ := ih (List.mem_of_ne_of_mem hne.symm h)
      exact ⟨remaining.filter (f.admits declared) :: earlier, by rw [heq, List.cons_append]⟩

/-- **A larger graph selects more, however early its selection ends.** -/
theorem selectRules_chained_subset {g g' : FactGraph α}
    (h : g.edges.map Fact.predicateName ⊆ g'.edges.map Fact.predicateName)
    (candidates : Program α) (pivot : Entity) :
    (selectRules .chained candidates g pivot).rules ⊆
      (selectRules .chained candidates g' pivot).rules := by
  have hfirst := firstFrontier_within h .chained pivot
  by_cases hnone : (selectRules .chained candidates g' pivot).rules = []
  · -- then the first round over either graph takes nothing
    have hempty' := List.subset_nil.1 (hnone ▸ filter_admits_subset .chained candidates g' pivot)
    have hempty := List.sublist_nil.1 (hempty' ▸ hfirst.filter_sublist candidates.rules)
    rw [rules_selectRules_eq (.inr hempty), hempty]
    exact List.nil_subset _
  by_cases hends : [] ∈ selectionRounds .chained candidates g' pivot
  · obtain ⟨earlier, hlast⟩ := eq_concat_of_nil_mem hends
    have hrounds : ∀ g, selectionRounds .chained candidates g pivot =
        [] ++ roundsFrom .chained (candidates.predicates.map (·.name)) mostRounds
          (firstFrontier .chained g pivot) ([] : List (List (Rule α))).flatten candidates.rules :=
      fun _ => rfl
    obtain ⟨hjustified, rest, hperm, -⟩ := (IsChained.first g pivot).exists_rest (hrounds g)
    obtain ⟨-, rest', hperm', hclosed⟩ := (IsChained.first g' pivot).exists_rest (hrounds g')
    rw [rules_selectRules] at hnone ⊢
    rw [rules_selectRules]
    have hearlier : earlier.flatten ≠ [] := by
      rintro hnil
      rw [selectionRounds, hlast] at hnone
      exact hnone (by simp [hnil])
    refine hjustified.flatten_subset fun r hr hfits => ?_
    have hcandidate : r ∈ candidates.rules :=
      hperm.mem_iff.1 (List.mem_append_left _ hr)
    refine (List.mem_append.1 (hperm'.mem_iff.2 hcandidate)).resolve_right fun hrest => ?_
    -- what is left over the larger graph does not fit
    refine hclosed earlier hlast hearlier r hrest (isDeclared_of_mem_roundsFrom hr) ?_
    exact hfits.imp (fun _ _ => id) fun _ _ ha => ha.imp_left fun ha => h ha
  · exact takeRounds_subset hfirst (List.Subset.refl _) (List.Subset.refl _) hends

/-! ### Selection by an engine -/

namespace QueryEngine

variable [Scalar α]

/-- **Selection is monotone.**

Whatever the engine and the pivot, and in every mode: a graph whose facts have all predicates that
the facts of another have selects every rule that the other selects, even if it ends in an earlier
round.  Over one graph, a rule that is selected where only the catalogue is known is selected in one
round without that limit, and that is selected in as many rounds as there are. -/
theorem rulesFor_monotone (q : QueryEngine α) (pivot : Entity) :
    (∀ g g' : FactGraph α, g.edges.map Fact.predicateName ⊆ g'.edges.map Fact.predicateName →
      ∀ mode, ({ q with mode := mode }.rulesFor g pivot).rules ⊆
        ({ q with mode := mode }.rulesFor g' pivot).rules) ∧
    ∀ g : FactGraph α,
      ({ q with mode := .catalogueOnly }.rulesFor g pivot).rules ⊆
        ({ q with mode := .oneRound }.rulesFor g pivot).rules ∧
      ({ q with mode := .oneRound }.rulesFor g pivot).rules ⊆
        ({ q with mode := .chained }.rulesFor g pivot).rules := by
  refine ⟨fun g g' h mode => ?_, fun g => ⟨?_, ?_⟩⟩
  · change (selectRules mode q.candidates g pivot).rules ⊆
      (selectRules mode q.candidates g' pivot).rules
    by_cases hmode : mode = .chained
    · subst hmode
      exact selectRules_chained_subset h q.candidates pivot
    · rw [rules_selectRules_eq (.inl hmode), rules_selectRules_eq (.inl hmode)]
      exact ((firstFrontier_within h mode pivot).filter_sublist _).subset
  · change (selectRules .catalogueOnly q.candidates g pivot).rules ⊆
      (selectRules .oneRound q.candidates g pivot).rules
    rw [rules_selectRules_eq (.inl (by decide)), rules_selectRules_eq (.inl (by decide))]
    exact ((firstFrontier_catalogueOnly_within g pivot .oneRound).filter_sublist _).subset
  · -- both start from the same, and the first round is one of those that are taken
    change (selectRules .oneRound q.candidates g pivot).rules ⊆
      (selectRules .chained q.candidates g pivot).rules
    rw [rules_selectRules_eq (.inl (by decide))]
    exact filter_admits_subset .chained q.candidates g pivot

/-- What someone is called may be another name of theirs, and so may the name of whom they married,
which is a candidate that comes first. -/
def nicknames : QueryEngine Float where
  options := {}
  mode := .chained
  method := .geometricMean
  candidates := .ofParts
    [⟨"called_TYPE_PER_TO_PER", "PERSON", "PERSON", false⟩,
      ⟨"per_alternate_names_TYPE_PER_TO_PER", "PERSON", "PERSON", false⟩,
      ⟨"per_spouse_TYPE_PER_TO_PER", "PERSON", "PERSON", false⟩]
    [⟨one, [⟨"per_spouse_TYPE_PER_TO_PER", "x", "y", false⟩,
      ⟨"per_alternate_names_TYPE_PER_TO_PER", "x", "y", true⟩]⟩,
      ⟨one, [⟨"called_TYPE_PER_TO_PER", "x", "y", false⟩,
      ⟨"per_alternate_names_TYPE_PER_TO_PER", "x", "y", true⟩]⟩]
  relations := ["called", "per:alternate_names", "per:spouse"]

/-- Anna is called Annie. -/
def called : FactGraph Float :=
  .ofFacts [⟨⟨"Anna", .person⟩, "called", ⟨"Annie", .person⟩, none, none⟩]

/-- Anna is called Annie, and is married to Otto. -/
def calledAndMarried : FactGraph Float :=
  .ofFacts [⟨⟨"Anna", .person⟩, "called", ⟨"Annie", .person⟩, none, none⟩,
    ⟨⟨"Anna", .person⟩, "per:spouse", ⟨"Otto", .person⟩, none, none⟩]

/-- With the marriage, selection ends a round earlier and selects as much. -/
theorem rulesFor_monotone_nicknames :
    let pivot : Entity := ⟨"Ann", .person⟩
    called.edges.map Fact.predicateName ⊆ calledAndMarried.edges.map Fact.predicateName ∧
      (selectionRounds .chained nicknames.candidates called pivot).length = 3 ∧
      (selectionRounds .chained nicknames.candidates calledAndMarried pivot).length = 2 ∧
      (nicknames.rulesFor called pivot).rules.length = 2 ∧
      (nicknames.rulesFor called pivot).rules ⊆ (nicknames.rulesFor calledAndMarried pivot).rules ∧
      ({ nicknames with mode := .oneRound }.rulesFor called pivot).rules ⊆
        ({ nicknames with mode := .chained }.rulesFor called pivot).rules := by
  intro pivot
  have hnames : called.edges.map Fact.predicateName ⊆
      calledAndMarried.edges.map Fact.predicateName := by decide +kernel
  have hmonotone := nicknames.rulesFor_monotone pivot
  exact ⟨hnames, by decide +kernel, by decide +kernel, by decide +kernel,
    hmonotone.1 called calledAndMarried hnames .chained, (hmonotone.2 called).2⟩

end QueryEngine

end FactNet
