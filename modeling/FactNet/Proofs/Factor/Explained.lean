import FactNet.Proofs.Factor.Specific
import FactNet.Proofs.Greatest

/-!
# The row that explains a value

To explain the value of its consequent, a table goes through its rows and keeps one that holds if it
makes the value more probable than the row kept so far.  It starts with the first row of all and
with the logarithm of zero.  So if a row that holds makes the value possible, the row that explains
it is the first of those that hold and make it most probable.

If no row that holds does so, none is above the logarithm of zero and the first row of all stays,
though it need not hold.  Rows with more antecedents come first, so it is one of those that hold
least often.

## Main definitions

* `RuleTable.Explains` — a row holds, and no row that holds makes the value more probable.
* `RuleTable.MakesPossible` — a row that holds makes the value possible.

## Main results

* `RuleTable.explain_eq` — explaining is keeping the greatest of the rows that hold.
* `RuleTable.MakesPossible.of_prior` — the prior holds everywhere, so it is enough that the prior
  makes the value possible.
* `RuleTable.explains_explain_iff` — **a table names a row that explains the value just if a row
  that holds makes it possible or the first row of all holds.**
-/

namespace FactNet.RuleTable

open Scalar

section Rows

variable {α : Type} [Scalar α]

/-- A row of a table holds, and no row that holds makes the value of the consequent more
probable. -/
structure Explains (t : RuleTable α) (v : Valuation) (r : GroundedRule α) : Prop where
  /-- It is a row of the table. -/
  mem : r ∈ t.rows
  /-- It holds. -/
  holds : r.holds v = true
  /-- No row that holds makes the value more probable. -/
  none_above : ∀ s ∈ t.rows, s.holds v = true →
    ¬r.valueOf (v t.consequent) < s.valueOf (v t.consequent)

/-- A row that holds makes the value of the consequent possible. -/
def MakesPossible (t : RuleTable α) (v : Valuation) : Prop :=
  ∃ r ∈ t.rows, r.holds v = true ∧ bottom < r.valueOf (v t.consequent)

/-- **Explaining is keeping the greatest of the rows that hold.** -/
theorem explain_eq (t : RuleTable α) (v : Valuation) : t.explain v =
    ((t.rows.filter fun r => r.holds v).foldl (keepGreatest fun r => r.valueOf (v t.consequent))
      (bottom, t.rows.headD t.prior)).2 := by
  rw [List.foldl_filter, explain]
  congr 2
  funext kept r
  rw [keepGreatest]
  cases r.holds v <;> simp

/-- The prior is a row of its table, and it has no antecedents. -/
theorem prior_of_ofRules {rules : List (GroundedRule α)} {m : MergeMethod} {d : α}
    {t : RuleTable α} (hmade : ofRules rules m d = .ok t) :
    t.prior ∈ t.rows ∧ t.prior.antecedents = [] := by
  unfold ofRules at hmade
  split at hmade
  · cases hmade
  · next prior others hclean =>
    simp only at hmade
    split at hmade
    · cases hmade
    · cases hmade
      refine ⟨mem_mostSpecificFirst.2 List.mem_cons_self, ?_⟩
      cases rules with
      | nil => cases hclean
      | cons r rest =>
        obtain ⟨rfl, -⟩ := Prod.mk.inj (Option.some.inj hclean)
        exact choosePrior_antecedents r.consequent d (r :: rest)

/-- The prior holds everywhere, so it is enough that the prior makes the value possible. -/
theorem MakesPossible.of_prior {rules : List (GroundedRule α)} {m : MergeMethod} {d : α}
    {t : RuleTable α} (hmade : ofRules rules m d = .ok t) {v : Valuation}
    (h : bottom < t.prior.valueOf (v t.consequent)) : t.MakesPossible v := by
  obtain ⟨hprior, hunit⟩ := prior_of_ofRules hmade
  refine ⟨t.prior, hprior, ?_, h⟩
  rw [GroundedRule.holds, hunit]
  rfl

end Rows

section Ranked

variable {α β : Type} {P : α → Prop}

/-- The value that a row gives has a rank if both of its values have one. -/
theorem valueOf_ranked {r : GroundedRule α} (h : P r.ifTrue ∧ P r.ifFalse) (b : Bool) :
    P (r.valueOf b) := by
  cases b
  · exact h.2
  · exact h.1

variable [Scalar α] [LinearOrder β] {rank : α → β} {t : RuleTable α} {v : Valuation}

/-- **Where the value is possible, it is explained by the first of the rows that hold and make it
most probable**, and elsewhere by the first row of all. -/
theorem explain_cases (hrank : Ranked rank P) (hP : ∀ r ∈ t.rows, P r.ifTrue ∧ P r.ifFalse)
    (v : Valuation) :
    (t.MakesPossible v ∧ IsFirstGreatest (fun r => r.valueOf (v t.consequent))
        (t.rows.filter fun r => r.holds v) (t.explain v)) ∨
      (¬t.MakesPossible v ∧ t.explain v = t.rows.headD t.prior) := by
  have hrows : ∀ r ∈ t.rows.filter fun r => r.holds v, P (r.valueOf (v t.consequent)) :=
    fun r hr => valueOf_ranked (hP r (List.mem_of_mem_filter hr)) _
  rw [explain_eq]
  rcases foldl_keepGreatest hrank (bottom, t.rows.headD t.prior) hrank.bottom hrows with
    ⟨hlast, hnone⟩ | ⟨hvalue, hlt, hfirst⟩
  · refine .inr ⟨?_, by rw [hlast]⟩
    rintro ⟨r, hr, hholds, hpossible⟩
    exact hnone r (List.mem_filter.2 ⟨hr, hholds⟩) hpossible
  · obtain ⟨hr, hholds⟩ := List.mem_filter.1 hfirst.mem
    exact .inl ⟨⟨_, hr, hholds, hvalue ▸ hlt⟩, hfirst⟩

/-- The first of the rows that hold and make the value most probable explains it. -/
theorem Explains.of_isFirstGreatest (hrank : Ranked rank P)
    (hP : ∀ r ∈ t.rows, P r.ifTrue ∧ P r.ifFalse) {r : GroundedRule α}
    (h : IsFirstGreatest (fun r => r.valueOf (v t.consequent))
      (t.rows.filter fun r => r.holds v) r) : t.Explains v r := by
  obtain ⟨hr, hholds⟩ := List.mem_filter.1 h.mem
  refine ⟨hr, hholds, fun s hs hsholds => ?_⟩
  refine h.not_lt hrank (fun q hq => ?_) (List.mem_filter.2 ⟨hs, hsholds⟩)
  exact valueOf_ranked (hP q (List.mem_of_mem_filter hq)) _

/-- Where no row that holds makes the value possible, each of them explains it. -/
theorem Explains.of_not_makesPossible (hrank : TotallyRanked rank P)
    (hP : ∀ r ∈ t.rows, P r.ifTrue ∧ P r.ifFalse) (hnone : ¬t.MakesPossible v)
    {r : GroundedRule α} (hr : r ∈ t.rows) (hholds : r.holds v = true) : t.Explains v r := by
  refine ⟨hr, hholds, fun s hs hsholds hlt => hnone ⟨s, hs, hsholds, ?_⟩⟩
  have hvr := valueOf_ranked (hP r hr) (v t.consequent)
  have hvs := valueOf_ranked (hP s hs) (v t.consequent)
  rw [hrank.lt_iff hvr hvs] at hlt
  rw [hrank.lt_iff hrank.bottom hvs]
  exact ((hrank.le_iff hrank.bottom hvr).1 (hrank.bottom_le hvr)).trans_lt hlt

/-- **A table names a row that explains the value just if a row that holds makes it possible or the
first row of all holds.**

If a row that holds makes the value possible, the row named is the first of those that hold and make
it most probable, and the prior of a table that rules form is enough for that.  If none does, the
row named is the first of all. -/
theorem explains_explain_iff (hrank : TotallyRanked rank P)
    (hP : ∀ r ∈ t.rows, P r.ifTrue ∧ P r.ifFalse) (v : Valuation) :
    (t.Explains v (t.explain v) ↔ t.MakesPossible v ∨ ∃ r ∈ t.rows.head?, r.holds v = true) ∧
      (t.MakesPossible v → IsFirstGreatest (fun r => r.valueOf (v t.consequent))
        (t.rows.filter fun r => r.holds v) (t.explain v)) ∧
      (¬t.MakesPossible v → t.explain v = t.rows.headD t.prior) ∧
      ∀ {rules : List (GroundedRule α)} {m : MergeMethod} {d : α}, ofRules rules m d = .ok t →
        bottom < t.prior.valueOf (v t.consequent) → t.MakesPossible v := by
  have hcases := explain_cases hrank.toRanked hP v
  refine ⟨⟨fun hexplains => ?_, ?_⟩, fun h => ?_, fun h => ?_,
    fun hmade => MakesPossible.of_prior hmade⟩
  · rcases hcases with ⟨hpossible, -⟩ | ⟨-, hfirst⟩
    · exact .inl hpossible
    · refine .inr ?_
      rw [hfirst] at hexplains
      obtain ⟨r, rest, hrows⟩ := List.exists_cons_of_ne_nil (List.ne_nil_of_mem hexplains.mem)
      have hholds := hexplains.holds
      rw [hrows] at hholds ⊢
      exact ⟨r, rfl, hholds⟩
  · rintro h
    rcases hcases with ⟨-, hfirst⟩ | ⟨hnone, hfirst⟩
    · exact .of_isFirstGreatest hrank.toRanked hP hfirst
    · obtain ⟨r, hr, hholds⟩ := h.resolve_left hnone
      rw [hfirst, List.headD_eq_head?_getD, hr]
      exact .of_not_makesPossible hrank hP hnone (List.mem_of_mem_head? hr) hholds
  · exact (hcases.resolve_right fun h' => h'.1 h).2
  · exact (hcases.resolve_left fun h' => h h'.1).2

end Ranked

/-! ### A certain prior -/

/-- The ground is wet for certain. -/
def wet : GroundedRule Float := ⟨"wet", 0, bottom, 0, []⟩

/-- If it rains, the ground is as likely wet as not. -/
def rain : GroundedRule Float := ⟨"rain", -0.6931471805599453, -0.6931471805599453, 0, [1]⟩

/-- The table of the ground. -/
def ground : RuleTable Float := ⟨wet, [rain, wet], .geometricMean, [1]⟩

theorem ofRules_ground : ofRules [wet, rain] .geometricMean 0.3 = .ok ground := by
  have hprior : choosePrior (.default 0 0.3) [wet, rain] = wet := rfl
  rw [ofRules_eq (List.cons_ne_nil _ _) (c := 0) (by simp [wet, rain]), rowsOf, hprior]
  simp [ground, wet, rain, GroundedRule.isUnit, mostSpecificFirst, antecedentsOf, List.mergeSort,
    List.eraseDups_cons]

/-- When it rains on wet ground, a row that holds makes this possible, and one explains it. -/
theorem explains_explain_iff_ground :
    ofRules [wet, rain] .geometricMean 0.3 = .ok ground ∧
      ground.MakesPossible (fun _ => true) ∧
      ground.Explains (fun _ => true) (ground.explain fun _ => true) := by
  have hranked : ∀ r ∈ ground.rows, r.ifTrue.isNaN = false ∧ r.ifFalse.isNaN = false := by
    decide
  obtain ⟨hexplains, -, -, hprior⟩ :=
    explains_explain_iff totallyRanked_float hranked fun _ => true
  have hpossible : ground.MakesPossible fun _ => true := hprior ofRules_ground (by decide)
  exact ⟨ofRules_ground, hpossible, hexplains.2 (.inl hpossible)⟩

/-- **A table can name a row that does not hold.**  If the ground is dry and it does not rain, only
the prior holds; it makes this impossible, and the rain is named. -/
theorem not_explains_ground :
    ofRules [wet, rain] .geometricMean 0.3 = .ok ground ∧
      (∀ r ∈ ground.rows, (bottom ≤ r.ifTrue ∧ r.ifTrue ≤ 0) ∧ bottom ≤ r.ifFalse ∧
        r.ifFalse ≤ 0) ∧
      ground.Explains (fun _ => false) wet ∧
      ¬ground.Explains (fun _ => false) (ground.explain fun _ => false) := by
  refine ⟨ofRules_ground, by decide, ⟨by simp [ground], rfl, by decide⟩, fun h => ?_⟩
  have hrain : ground.explain (fun _ => false) = rain := rfl
  have hholds := h.holds
  rw [hrain] at hholds
  cases hholds

end FactNet.RuleTable
