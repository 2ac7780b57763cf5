import FactNet.Proofs.Matching.Places

/-!
# Matching in larger graphs

A look at an antecedent is for a fact that is there, so in a graph with more in it whatever was
consistent still is.  A search goes through the same bindings and some more, and ends early only
when it has found something; so a rule that is found stays found, and a fact that it supports is
added, unless it is there by now.  Of the rules that support the fact the most probable one decides
about the score, and there are no fewer of them.

What is looked for does not depend on where it stands.  The vertices are tried one after another,
but each of them leads to facts of its own, and a place is that of the only fact with its key.  So
the order in which a graph was made changes the order of the facts that are added, and nothing else.

## Main definitions

* `FactGraph.Within` — a graph has nothing that another one lacks.
* `FactGraph.SameContent` — two graphs have the same vertices and facts, in whatever order.
* `Matcher.added` — the facts that matching adds.

## Main results

* `MatchRule.completions_subset`, `MatchRule.occursIn_mono` — **what is found stays found.**
* `Matcher.exists_added_of_within` — **what is added in a graph is there or added in a larger one,
  with a score that is not lower.**
* `Matcher.added_perm` — **the same facts are added in whatever order a graph was made.**
* `Matcher.apply_monotone` — both, for the rules of a file.
-/

namespace FactNet

open Scalar Text

variable {α : Type}

namespace FactGraph

variable {g g' : FactGraph α} {key : FactKey}

/-- A graph has no vertex that another one lacks, and relates nothing that the other one does not.
-/
structure Within (g g' : FactGraph α) : Prop where
  /-- The vertices are among those of the other graph. -/
  vertices : g.vertices ⊆ g'.vertices
  /-- Whatever is related is related in the other graph. -/
  facts : ∀ f ∈ g.facts, ∃ f' ∈ g'.facts, f'.key = f.key

/-- Two graphs have the same vertices and the same facts, in whatever order. -/
structure SameContent (g g' : FactGraph α) : Prop where
  /-- The vertices are the same. -/
  vertices : ∀ e, e ∈ g.vertices ↔ e ∈ g'.vertices
  /-- The facts are the same. -/
  facts : ∀ f, f ∈ g.facts ↔ f ∈ g'.facts

theorem SameContent.symm (h : g.SameContent g') : g'.SameContent g where
  vertices e := (h.vertices e).symm
  facts f := (h.facts f).symm

theorem SameContent.within (h : g.SameContent g') : g.Within g' where
  vertices e he := (h.vertices e).1 he
  facts f hf := ⟨f, (h.facts f).1 hf, rfl⟩

theorem Within.contains (h : g.Within g') (hkey : g.contains key = true) :
    g'.contains key = true := by
  obtain ⟨f, hf, rfl⟩ := contains_iff.1 hkey
  exact contains_iff.2 (h.facts f hf)

end FactGraph

/-! ### What is found stays found -/

namespace MatchRule

variable {r : MatchRule α} {g g' : FactGraph α} {b : Bindings} {c : Clause} {x : String}
  {xs : List String} {e head tail : Entity}

theorem headFits_mono (h : g.Within g') (hfits : headFits g b c e = true) :
    headFits g' b c e = true := by
  obtain ⟨htype, f, hf, hhead, hrelation, htail⟩ := headFits_iff.1 hfits
  obtain ⟨f', hf', hkey⟩ := h.facts f hf
  obtain ⟨hhead', hrelation', htail'⟩ := Fact.key_eq_iff.1 hkey
  exact headFits_iff.2 ⟨htype, f', hf', hhead'.trans hhead, hrelation'.trans hrelation,
    fun bound hbound => htail'.trans (htail bound hbound)⟩

theorem tailFits_mono (h : g.Within g') (hfits : tailFits g b c e = true) :
    tailFits g' b c e = true := by
  obtain ⟨htype, f, hf, htail, hrelation, hhead⟩ := tailFits_iff.1 hfits
  obtain ⟨f', hf', hkey⟩ := h.facts f hf
  obtain ⟨hhead', hrelation', htail'⟩ := Fact.key_eq_iff.1 hkey
  exact tailFits_iff.2 ⟨htype, f', hf', htail'.trans htail, hrelation'.trans hrelation,
    fun bound hbound => hhead'.trans (hhead bound hbound)⟩

theorem isConsistent_mono (h : g.Within g') (hlook : r.isConsistent g b x e = true) :
    r.isConsistent g' b x e = true := by
  rw [isConsistent_iff] at hlook ⊢
  exact fun c hc => ⟨fun hx => headFits_mono h ((hlook c hc).1 hx),
    fun hx => tailFits_mono h ((hlook c hc).2 hx)⟩

/-- **A search in a larger graph goes through all the same bindings.** -/
theorem completions_subset (h : g.Within g') (xs : List String) (b : Bindings) :
    r.completions g xs b ⊆ r.completions g' xs b := by
  induction xs generalizing b with
  | nil => exact List.Subset.refl _
  | cons x xs ih =>
    intro b' hb'
    obtain ⟨e, he, hlook, hrest⟩ := mem_completions_cons.1 hb'
    exact mem_completions_cons.2 ⟨e, h.vertices he, isConsistent_mono h hlook, ih _ hrest⟩

/-- **A rule that is found stays found.** -/
theorem occursIn_mono (h : g.Within g') (hoccurs : r.occursIn g head tail = true) :
    r.occursIn g' head tail = true := by
  obtain ⟨hhead, htail, b', hb'⟩ := occursIn_iff.1 hoccurs
  exact occursIn_iff.2
    ⟨isConsistent_mono h hhead, isConsistent_mono h htail, b', completions_subset h _ _ hb'⟩

theorem suits_mono (h : g.Within g') (hsuits : r.suits g head tail = true) :
    r.suits g' head tail = true := by
  rw [suits_iff] at hsuits ⊢
  exact ⟨hsuits.1, hsuits.2.1, occursIn_mono h hsuits.2.2⟩

/-! ### What is found does not depend on the order -/

theorem suits_congr (h : g.SameContent g') (head tail : Entity) :
    r.suits g head tail = r.suits g' head tail :=
  Bool.eq_iff_iff.2 ⟨suits_mono h.within, suits_mono h.symm.within⟩

theorem findProvenance_congr [Scalar α] (hg : g.Made) (hg' : g'.Made) (h : g.SameContent g')
    (head tail : Entity) : r.findProvenance g head tail = r.findProvenance g' head tail := by
  by_cases hone : ∃ c, r.antecedents = [c]
  · obtain ⟨c, hc⟩ := hone
    ext p
    simp only [findProvenance_eq_some_iff hg hc, findProvenance_eq_some_iff hg' hc, h.facts]
  · have hnone : ∀ g : FactGraph α, r.findProvenance g head tail = none := by
      intro g
      unfold findProvenance
      split
      · next c hc => exact absurd ⟨c, hc⟩ hone
      · rfl
    rw [hnone, hnone]

end MatchRule

namespace Matcher

variable [Scalar α] {m : Matcher α} {g g' : FactGraph α} {pivot : Entity}

/-- The facts that matching adds. -/
def added (m : Matcher α) (g : FactGraph α) (pivot : Entity) : List (Fact α) :=
  (m.inferred g pivot).map (·.fact)

theorem facts_apply [Numeral α] (m : Matcher α) (g : FactGraph α) (pivot : Entity) :
    (m.apply g pivot).1.facts = g.facts ++ m.added g pivot :=
  (m.growsBy_apply g pivot).facts

theorem Supports.mono (h : g.Within g') {relation : String} {head tail : Entity} {r : MatchRule α}
    (hr : m.Supports g relation head tail r) : m.Supports g' relation head tail r where
  loaded := hr.loaded
  relation := hr.relation
  probable := hr.probable
  headType := hr.headType
  tailType := hr.tailType
  occurs := MatchRule.occursIn_mono h hr.occurs

/-- **What is added in a graph is there or added in a larger one, with a score that is not lower.**
-/
theorem exists_added_of_within {β : Type} [LinearOrder β] {rank : α → β} {P : α → Prop}
    (hranked : RankedScores rank P)
    (hscored : m.book.IsFiled fun p => ∃ x, P x ∧ p = LogProb.sigmoid x)
    (hsorted : m.book.IsSorted rank) (h : g.Within g') {f : Fact α} (hf : f ∈ m.added g pivot) :
    g'.contains f.key = true ∨ ∃ f' ∈ m.added g' pivot, f'.key = f.key ∧
      ∃ s s', f.score = some s ∧ f'.score = some s' ∧ s ≤ s' := by
  have hfiled : m.book.IsFiled P := by
    refine hscored.imp ?_
    rintro _ ⟨x, hx, rfl⟩
    exact hranked.sigmoid hx
  obtain ⟨i, hi, rfl⟩ := List.mem_map.1 hf
  obtain ⟨hsink, hne, -, hadmits, r, hr, hscore, -⟩ :=
    exists_supports_of_mem_inferred hfiled hsorted hi
  have hkey : i.fact.key = (pivot, i.fact.relation, i.fact.tail) := by
    rw [Fact.key, head_of_mem_inferred hi]
  cases hfresh : g'.contains i.fact.key with
  | true => exact .inl rfl
  | false =>
    -- the rule still supports the fact, so the first one that does is no less probable
    have hr' := hr.mono h
    obtain ⟨i', hi', hkey'⟩ := exists_mem_inferred_of_supports hranked.toRankedOdds hfiled hsorted
      (h.vertices hsink) hne (hkey ▸ hfresh) hadmits hr'
    obtain ⟨-, -, -, -, r₀, hr₀, hscore', hgreatest⟩ :=
      exists_supports_of_mem_inferred hfiled hsorted hi'
    obtain ⟨-, hrelation, htail⟩ := Fact.key_eq_iff.1 hkey'
    rw [hrelation, htail] at hr₀ hgreatest
    obtain ⟨x, hx, hprobability⟩ := probability_of_mem_loaded hscored hr.loaded
    obtain ⟨x₀, hx₀, hprobability₀⟩ := probability_of_mem_loaded hscored hr₀.loaded
    have hle := hgreatest r hr'
    rw [hprobability, hprobability₀] at hle
    refine .inr ⟨i'.fact, List.mem_map_of_mem hi', hkey'.trans hkey.symm, _, _, hscore, hscore', ?_⟩
    rw [hprobability, hprobability₀]
    exact hranked.score_le hx hx₀ hle

/-- **The same facts are added in whatever order a graph was made.** -/
theorem added_perm (hkeys : (m.book.rules.map (·.1)).Nodup) (hg : g.Made) (hg' : g'.Made)
    (h : g.SameContent g') (pivot : Entity) : (m.added g pivot).Perm (m.added g' pivot) := by
  have hnodup : ∀ g : FactGraph α, (m.inferred g pivot).Nodup := fun g =>
    (Inference.nodup_firstOfEach _).of_map _
  have hby : ∀ sink (e : String × List (MatchRule α)),
      m.inferredBy g pivot sink e.1 e.2 = m.inferredBy g' pivot sink e.1 e.2 := by
    intro sink e
    have hcontains : g.contains (pivot, e.1, sink) = g'.contains (pivot, e.1, sink) :=
      Bool.eq_iff_iff.2 ⟨h.within.contains, h.symm.within.contains⟩
    have hconclude : ∀ r : MatchRule α,
        r.conclude g e.1 pivot sink = r.conclude g' e.1 pivot sink := by
      intro r
      rw [MatchRule.conclude, MatchRule.conclude, MatchRule.findProvenance_congr hg hg' h]
    unfold inferredBy
    simp only [MatchRule.suits_congr h, hcontains, hconclude]
  refine List.Perm.map _ ((List.perm_ext_iff_of_nodup (hnodup g) (hnodup g')).2 fun i => ?_)
  simp only [mem_inferred_iff hkeys, h.vertices, hby]

/-- **Matching is monotone, and does not depend on how a graph was made.**

Take a file in which no score is what is no number.  What is added in a graph is, in any graph that
has its vertices and relates what it relates, there already or added with a score that is not lower.
In two graphs with the same vertices and facts the same facts are added, with their scores and
places, in whatever order the graphs were made.

The scores may be exact numbers or doubles, for which `rankedScores_ereal` and `rankedScores_float`
say what is a number. -/
theorem apply_monotone [Numeral α] {β : Type} [LinearOrder β] {rank : α → β} {P : α → Prop}
    (hranked : RankedScores rank P) {admission : Admission α} {lines : List String}
    (hscores : ∀ raw ∈ lines, ∀ x : α, lineScore? raw = some x → P x)
    {m : Matcher α} (hload : ofLines admission lines = .ok m) :
    (∀ g pivot, (m.apply g pivot).1.facts = g.facts ++ m.added g pivot) ∧
    (∀ g g' pivot, g.Within g' → ∀ f ∈ m.added g pivot, g'.contains f.key = true ∨
      ∃ f' ∈ m.added g' pivot, f'.key = f.key ∧
        ∃ s s', f.score = some s ∧ f'.score = some s' ∧ s ≤ s') ∧
    ∀ g g' pivot, g.Made → g'.Made → g.SameContent g' →
      (m.added g pivot).Perm (m.added g' pivot) := by
  obtain ⟨hbook, -⟩ := ofLines_eq_ok hload
  have hscored : m.book.IsFiled fun p => ∃ x, P x ∧ p = LogProb.sigmoid x :=
    RuleBook.isFiled_ofLines (fun raw hraw x hx => ⟨x, hscores raw hraw x hx, rfl⟩) hbook
  have hsorted : m.book.IsSorted rank := RuleBook.isSorted_ofLines hranked.toRanked
    (fun raw hraw x hx => hranked.sigmoid (hscores raw hraw x hx)) hbook
  exact ⟨m.facts_apply, fun _ _ _ h _ hf => exists_added_of_within hranked hscored hsorted h hf,
    fun _ _ pivot hg hg' h => added_perm hscored.keys hg hg' h pivot⟩

/-! ### Three names -/

/-- Annie is another name of two people. -/
noncomputable def threeNames (first second : Entity) : FactGraph EReal :=
  ⟨[first, MatchRule.annie, second],
    [⟨first, "per:alternate_names", MatchRule.annie, none, none⟩,
      ⟨second, "per:alternate_names", MatchRule.annie, none, none⟩]⟩

theorem within_threeNames : twoNames.Within (threeNames MatchRule.ann MatchRule.anna) where
  vertices := by simp [twoNames, threeNames]
  facts := by simp [twoNames, threeNames]

theorem sameContent_threeNames (first second : Entity) :
    (threeNames first second).SameContent (threeNames second first) where
  vertices e := by simp [threeNames, or_comm, or_left_comm]
  facts f := by simp [threeNames, or_comm]

theorem exists_added_twoNames : ∃ f ∈ nameMatcher.added twoNames MatchRule.annie,
    f.key = (MatchRule.annie, "per:alternate_names", MatchRule.ann) := by
  have hadmits : admits "per:alternate_names" MatchRule.annie MatchRule.ann = true := by
    decide +kernel
  have hfresh : twoNames.contains (MatchRule.annie, "per:alternate_names", MatchRule.ann) =
      false := by decide +kernel
  have hsuits : nameBack.suits twoNames MatchRule.annie MatchRule.ann = true := by decide +kernel
  have hby := inferredBy_eq_some_iff.2 ⟨hadmits, hfresh, nameBack,
    List.find?_cons_of_pos (l := []) hsuits, minProb_lt_nameBack, rfl⟩
  obtain ⟨i, hi, hkey⟩ := exists_mem_inferred (by simp [twoNames]) (by decide)
    List.mem_cons_self hby
  exact ⟨i.fact, List.mem_map_of_mem hi, hkey.trans (key_of_inferredBy hby)⟩

/-- Ann is another name of Annie, whoever else there is, and in whatever order they were told. -/
theorem apply_monotone_threeNames : letI := onlyZero
    ofLines ⟨⊥, 3⟩ nameLines = .ok nameMatcher ∧
      (∃ f ∈ nameMatcher.added (threeNames MatchRule.ann MatchRule.anna) MatchRule.annie,
        f.key = (MatchRule.annie, "per:alternate_names", MatchRule.ann)) ∧
      (nameMatcher.added (threeNames MatchRule.ann MatchRule.anna) MatchRule.annie).Perm
        (nameMatcher.added (threeNames MatchRule.anna MatchRule.ann) MatchRule.annie) := by
  let _ := onlyZero
  obtain ⟨-, hlarger, horder⟩ :=
    apply_monotone rankedScores_ereal (fun _ _ _ _ => trivial) ofLines_nameLines
  refine ⟨ofLines_nameLines, ?_, ?_⟩
  · obtain ⟨f, hf, hkey⟩ := exists_added_twoNames
    rcases hlarger _ _ _ within_threeNames f hf with hthere | ⟨f', hf', hkey', -⟩
    · have hfresh : (threeNames MatchRule.ann MatchRule.anna).contains
          (MatchRule.annie, "per:alternate_names", MatchRule.ann) = false := by decide +kernel
      rw [hkey, hfresh] at hthere
      cases hthere
    · exact ⟨f', hf', hkey'.trans hkey⟩
  · exact horder _ _ _
      (FactGraph.made_ofFacts [⟨MatchRule.ann, "per:alternate_names", MatchRule.annie, none, none⟩,
        ⟨MatchRule.anna, "per:alternate_names", MatchRule.annie, none, none⟩])
      (FactGraph.made_ofFacts [⟨MatchRule.anna, "per:alternate_names", MatchRule.annie, none, none⟩,
        ⟨MatchRule.ann, "per:alternate_names", MatchRule.annie, none, none⟩])
      (sameContent_threeNames _ _)

end Matcher

end FactNet
