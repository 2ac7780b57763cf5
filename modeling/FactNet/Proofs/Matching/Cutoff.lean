import FactNet.Proofs.Matching.Applied

/-!
# The cutoff when rules are read and when they are tried

The cutoff counts twice.  When a file is read, a rule is passed over if its score is below the
cutoff; when rules are tried, one adds a fact if its probability is above that of the cutoff.  Over
exact numbers the higher score is the more probable one, so the two agree on all scores but one: a
rule whose score is the cutoff is read and tried, but never adds anything by itself.

It does not stand in the way of other rules either.  Of the rules that propose a fact the first one
to be tried is a most probable one, so the fact is added if the score of any of them is above the
cutoff.

## Main definitions

* `Matcher.Proposes` — a loaded rule adds a fact if it is probable enough.

## Main results

* `Matcher.exists_score_of_loaded` — **a loaded rule is probable enough just if its score is above
  the cutoff.**
* `Matcher.contains_apply_iff` — a fact that a rule proposes is added if any rule for it is probable
  enough.
* `Matcher.adds_iff_above_cutoff` — **so every rule that is loaded adds what it proposes, if no
  score is the cutoff.**
* `Matcher.not_adds_at_cutoff` — otherwise one that is loaded may not.
-/

namespace FactNet

open Scalar Text

namespace Matcher

variable {α : Type}

/-- A loaded rule adds a fact about a pivot and another vertex, if it is probable enough. -/
structure Proposes (m : Matcher α) (g : FactGraph α) (pivot sink : Entity) (r : MatchRule α) :
    Prop where
  /-- The rule has been loaded. -/
  loaded : r ∈ m.loaded
  /-- The other entity is a vertex. -/
  vertex : sink ∈ g.vertices
  /-- It is not the pivot. -/
  ne : sink ≠ pivot
  /-- The catalogue allows the relation between the two. -/
  admits : admits r.consequent.relation pivot sink = true
  /-- The rule asks for no other types, and is found in the graph. -/
  suits : r.suits g pivot sink = true
  /-- The fact is not there. -/
  fresh : g.contains (pivot, r.consequent.relation, sink) = false

section Trying

variable [Scalar α] [Numeral α] {β : Type} [LinearOrder β] {rank : α → β} {P : α → Prop}
  {m : Matcher α} {g : FactGraph α} {pivot sink : Entity} {r : MatchRule α}

/-- **A fact that a rule proposes is added just if any rule that proposes it is probable enough.**
-/
theorem contains_apply_iff (hodds : RankedOdds rank P) (hfiled : m.book.IsFiled P)
    (hsorted : m.book.IsSorted rank) (hr : m.Proposes g pivot sink r) :
    (m.apply g pivot).1.contains (pivot, r.consequent.relation, sink) = true ↔
      ∃ r', m.Proposes g pivot sink r' ∧ r'.consequent.relation = r.consequent.relation ∧
        m.minProb < r'.probability := by
  rw [FactGraph.contains_iff, (m.growsBy_apply g pivot).facts]
  constructor
  · rintro ⟨f, hf, hkey⟩
    rcases List.mem_append.1 hf with hold | hnew
    · exact absurd hkey (FactGraph.contains_eq_false_iff.1 hr.fresh f hold)
    · obtain ⟨i, hi, rfl⟩ := List.mem_map.1 hnew
      obtain ⟨-, hrelation, htail⟩ := Fact.key_eq_iff.1 hkey
      obtain ⟨-, -, -, -, r', hr', -⟩ := exists_supports_of_mem_inferred hfiled hsorted hi
      rw [hrelation, htail] at hr'
      have hsuits := MatchRule.suits_iff.2 ⟨hr'.headType, hr'.tailType, hr'.occurs⟩
      exact ⟨r', ⟨hr'.loaded, hr.vertex, hr.ne, hr'.relation ▸ hr.admits, hsuits,
        hr'.relation ▸ hr.fresh⟩, hr'.relation, hr'.probable⟩
  · rintro ⟨r', hr', hrelation, hprobable⟩
    obtain ⟨hhead, htail, hoccurs⟩ := MatchRule.suits_iff.1 hr'.suits
    obtain ⟨i, hi, hkey⟩ := exists_mem_inferred_of_supports hodds hfiled hsorted hr.vertex hr.ne
      hr.fresh hr.admits ⟨hr'.loaded, hrelation, hprobable, hhead, htail, hoccurs⟩
    exact ⟨i.fact, List.mem_append_right _ (List.mem_map_of_mem hi), hkey⟩

omit [Numeral α] in
/-- Nothing is inferred if no loaded rule is probable enough. -/
theorem inferred_eq_nil (h : ∀ r ∈ m.loaded, ¬m.minProb < r.probability) (g : FactGraph α)
    (pivot : Entity) : m.inferred g pivot = [] := by
  refine List.eq_nil_iff_forall_not_mem.2 fun i hi => ?_
  obtain ⟨sink, -, -, e, he, hby⟩ := exists_of_mem_inferred hi
  obtain ⟨-, -, r, hfirst, hprobable, -⟩ := inferredBy_eq_some_iff.1 hby
  exact h r (List.mem_flatMap.2 ⟨e, he, List.mem_of_find?_eq_some hfirst⟩) hprobable

end Trying

section Exact

variable [Numeral EReal] {admission : Admission EReal} {lines : List String} {m : Matcher EReal}

/-- **A loaded rule is probable enough just if its score is above the cutoff.** -/
theorem exists_score_of_loaded (hload : ofLines admission lines = .ok m) {r : MatchRule EReal}
    (hr : r ∈ m.loaded) : ∃ raw ∈ lines, ∃ x, lineScore? raw = some x ∧ admission.cutoff ≤ x ∧
      r.probability = LogProb.sigmoid x ∧ (m.minProb < r.probability ↔ admission.cutoff < x) := by
  obtain ⟨hbook, hmin⟩ := ofLines_eq_ok hload
  have hfiled := RuleBook.isFiled_ofLines_of_kept (P := fun p => ∃ raw ∈ lines, ∃ x,
    lineScore? raw = some x ∧ admission.cutoff ≤ x ∧ p = LogProb.sigmoid x)
    (fun raw hraw x hx hkept => ⟨raw, hraw, x, hx, not_lt.1 hkept, rfl⟩) hbook
  obtain ⟨raw, hraw, x, hx, hcutoff, hprobability⟩ := probability_of_mem_loaded hfiled hr
  refine ⟨raw, hraw, x, hx, hcutoff, hprobability, ?_⟩
  rw [hmin, hprobability]
  exact LogProb.strictMono_sigmoid.lt_iff_lt

/-- **Every rule that is loaded adds what it proposes, if no score is the cutoff.**

A loaded rule has the probability of a score of the file that is not below the cutoff, and is
probable enough just if that score is above it.  Of the facts that loaded rules propose about a
pivot and another vertex, those are added for which some rule is probable enough.  So all of them
are, unless some line has the cutoff itself as its score. -/
theorem adds_iff_above_cutoff (hload : ofLines admission lines = .ok m) :
    (∀ r ∈ m.loaded, ∃ raw ∈ lines, ∃ x, lineScore? raw = some x ∧ admission.cutoff ≤ x ∧
      r.probability = LogProb.sigmoid x ∧ (m.minProb < r.probability ↔ admission.cutoff < x)) ∧
    (∀ g pivot sink r, m.Proposes g pivot sink r →
      ((m.apply g pivot).1.contains (pivot, r.consequent.relation, sink) = true ↔
        ∃ r', m.Proposes g pivot sink r' ∧ r'.consequent.relation = r.consequent.relation ∧
          m.minProb < r'.probability)) ∧
    ((∀ raw ∈ lines, lineScore? raw ≠ some admission.cutoff) →
      ∀ g pivot sink r, m.Proposes g pivot sink r →
        (m.apply g pivot).1.contains (pivot, r.consequent.relation, sink) = true) := by
  obtain ⟨hbook, -⟩ := ofLines_eq_ok hload
  have hfiled : m.book.IsFiled fun _ => True :=
    RuleBook.isFiled_ofLines (fun _ _ _ _ => trivial) hbook
  have hsorted : m.book.IsSorted (id : EReal → EReal) :=
    RuleBook.isSorted_ofLines ranked_ereal (fun _ _ _ _ => trivial) hbook
  have hadds := fun g pivot sink r (hr : m.Proposes g pivot sink r) =>
    contains_apply_iff rankedOdds_ereal hfiled hsorted hr
  refine ⟨fun r hr => exists_score_of_loaded hload hr, hadds, fun hscores g pivot sink r hr => ?_⟩
  obtain ⟨raw, hraw, x, hx, hcutoff, -, hprobable⟩ := exists_score_of_loaded hload hr.loaded
  have hne : admission.cutoff ≠ x := fun heq => hscores raw hraw (heq ▸ hx)
  exact (hadds g pivot sink r hr).2 ⟨r, hr, rfl, hprobable.2 (lt_of_le_of_ne hcutoff hne)⟩

end Exact

/-! ### The cutoff and two names -/

theorem proposes_nameBack (p : EReal) : Matcher.Proposes ⟨nameMatcher.book, p⟩ twoNames
    MatchRule.annie MatchRule.ann nameBack where
  loaded := by simp [loaded, nameMatcher]
  vertex := by simp [twoNames]
  ne := by decide
  admits := by decide +kernel
  suits := by decide +kernel
  fresh := by decide +kernel

/-- That Ann is another name of Annie is added if every score is high enough. -/
theorem adds_iff_above_cutoff_twoNames : letI := onlyZero
    ofLines ⟨⊥, 3⟩ nameLines = .ok nameMatcher ∧
      (nameMatcher.apply twoNames MatchRule.annie).1.contains
        (MatchRule.annie, "per:alternate_names", MatchRule.ann) = true := by
  let _ := onlyZero
  obtain ⟨-, hadds, -⟩ := adds_iff_above_cutoff ofLines_nameLines
  exact ⟨ofLines_nameLines, (hadds twoNames _ _ _ (proposes_nameBack _)).2
    ⟨nameBack, proposes_nameBack _, rfl, minProb_lt_nameBack⟩⟩

/-- What is loaded if the odds have to be even at least. -/
noncomputable def evenMatcher : Matcher EReal := ⟨nameMatcher.book, LogProb.sigmoid 0⟩

theorem ofLines_nameLines_even : letI := onlyZero
    ofLines ⟨0, 3⟩ nameLines = .ok evenMatcher := by
  let _ := onlyZero
  exact ofLines_rule (c := ⟨"x", none, "per:alternate_names", "y", none⟩)
    (d := nameBack.consequent) "0" "!per:alternate_names(x,y) v per:alternate_names(y,x)"
    "!per:alternate_names(x,y)" "per:alternate_names(y,x)" (by decide +kernel) (if_pos rfl)
    (lt_irrefl _) (by decide) (by decide +kernel) (by decide +kernel) (by decide +kernel)

/-- **A rule whose score is the cutoff is loaded and adds nothing** of what it proposes. -/
theorem not_adds_at_cutoff : letI := onlyZero
    ofLines ⟨0, 3⟩ nameLines = .ok evenMatcher ∧
      evenMatcher.Proposes twoNames MatchRule.annie MatchRule.ann nameBack ∧
      (evenMatcher.apply twoNames MatchRule.annie).1.contains
        (MatchRule.annie, "per:alternate_names", MatchRule.ann) = false := by
  let _ := onlyZero
  have hnone : evenMatcher.inferred twoNames MatchRule.annie = [] := by
    refine inferred_eq_nil (fun r hr => ?_) twoNames MatchRule.annie
    obtain rfl : r = nameBack := by simpa [loaded, evenMatcher, nameMatcher] using hr
    exact lt_irrefl _
  have hsame : (evenMatcher.apply twoNames MatchRule.annie).1 = twoNames := by
    simp [apply, hnone, FactGraph.addAll]
  have hproposes := proposes_nameBack (LogProb.sigmoid 0)
  exact ⟨ofLines_nameLines_even, hproposes, by rw [hsame]; exact hproposes.fresh⟩

end Matcher

end FactNet
