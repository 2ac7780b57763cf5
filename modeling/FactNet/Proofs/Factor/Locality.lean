import Mathlib.Data.List.Basic
import Mathlib.Data.List.Find
import FactNet.Factor.Basic

/-!
# Factors read their own variables only

The log-probability of a factor depends on the values of its components and on nothing else.
For a table this rests on how it was made: the antecedents it lists are those of all its rows.

## Main definitions

* `Factor.Made` — the factors there are: single grounded rules, and tables of some rules.

## Main results

* `RuleTable.entry_congr` — an entry depends on the antecedents of the rows.
* `Factor.logProb_congr` — a factor depends on its components.
* `Factor.logProb_assign` — changing a variable that is no component changes nothing.
-/

namespace FactNet

variable {α : Type}

/-! ### Reading antecedents -/

theorem GroundedRule.holds_congr {r : GroundedRule α} {v v' : Valuation}
    (h : ∀ a ∈ r.antecedents, v a = v' a) : r.holds v = r.holds v' := by
  rw [Bool.eq_iff_iff]
  simp only [holds, List.all_eq_true]
  constructor
  · intro hv a ha
    rw [← h a ha]
    exact hv a ha
  · intro hv a ha
    rw [h a ha]
    exact hv a ha

namespace RuleTable

/-- The rules that count depend on the antecedents of the rows. -/
theorem active_congr {t : RuleTable α} {v v' : Valuation}
    (h : ∀ r ∈ t.rows, ∀ a ∈ r.antecedents, v a = v' a) : t.active v = t.active v' := by
  have hholds : ∀ r ∈ t.rows, r.holds v = r.holds v' := fun r hr =>
    GroundedRule.holds_congr (h r hr)
  unfold active
  rw [List.find?_congr hholds]
  cases t.rows.find? fun r => r.holds v' with
  | none => rfl
  | some first => exact List.filter_congr fun r hr => by rw [hholds r hr]

theorem entry_congr [Scalar α] {t : RuleTable α} {v v' : Valuation}
    (h : ∀ r ∈ t.rows, ∀ a ∈ r.antecedents, v a = v' a) : t.entry v = t.entry v' := by
  rw [entry, entry, active_congr h]

/-- The place of an entry depends on the antecedents listed. -/
theorem key_congr {t : RuleTable α} {v v' : Valuation} (h : ∀ a ∈ t.antecedents, v a = v' a) :
    t.key v = t.key v' :=
  List.foldl_ext _ _ _ fun _ a ha => by rw [h a ha]

theorem mem_antecedentsOf {rules : List (GroundedRule α)} {a : Nat} :
    a ∈ antecedentsOf rules ↔ ∃ r ∈ rules, a ∈ r.antecedents := by
  simp [antecedentsOf, List.mem_eraseDups]

theorem mem_components {t : RuleTable α} {i : Nat} :
    i ∈ t.components ↔ i = t.consequent ∨ i ∈ t.antecedents := by
  simp [components, List.mem_eraseDups]

/-- A table lists the antecedents of all its rows. -/
theorem antecedents_of_ofRules [Scalar α] {rules : List (GroundedRule α)} {m : MergeMethod}
    {default : α} {t : RuleTable α} (h : ofRules rules m default = .ok t) :
    t.antecedents = antecedentsOf t.rows := by
  unfold ofRules at h
  split at h
  · cases h
  · simp only at h
    split at h
    · cases h
    · cases h
      rfl

end RuleTable

theorem GroundedRule.mem_components {r : GroundedRule α} {i : Nat} :
    i ∈ r.components ↔ i = r.consequent ∨ i ∈ r.antecedents := by
  simp [components, List.mem_eraseDups]

/-! ### Factors -/

namespace Factor

/-- The factors there are: single grounded rules, and tables that some rules make. -/
inductive Made [Scalar α] : Factor α → Prop
  | entailment (r : GroundedRule α) : Made (.entailment r)
  | table {rules : List (GroundedRule α)} {m : MergeMethod} {default : α} {t : RuleTable α}
      (h : RuleTable.ofRules rules m default = .ok t) : Made (.table t)
  | eager {rules : List (GroundedRule α)} {m : MergeMethod} {default : α} {t : EagerTable α}
      (h : EagerTable.ofRules rules m default = .ok t) : Made (.eager t)

variable [Scalar α]

/-- **A factor depends on its components.** -/
theorem logProb_congr {f : Factor α} (hf : f.Made) {w w' : World}
    (h : ∀ i ∈ f.components, w.value i = w'.value i) : f.logProb w = f.logProb w' := by
  cases hf with
  | entailment r =>
    have hr : ∀ i, i = r.consequent ∨ i ∈ r.antecedents → w.value i = w'.value i := fun i hi =>
      h i (GroundedRule.mem_components.mpr hi)
    simp only [logProb]
    rw [GroundedRule.holds_congr fun a ha => hr a (.inr ha), hr r.consequent (.inl rfl)]
  | @table _ _ _ t ht =>
    have hr : ∀ i, i = t.consequent ∨ i ∈ t.antecedents → w.value i = w'.value i := fun i hi =>
      h i (RuleTable.mem_components.mpr hi)
    have hrows : ∀ r ∈ t.rows, ∀ a ∈ r.antecedents, w.value a = w'.value a := by
      intro r hrow a ha
      refine hr a (.inr ?_)
      rw [RuleTable.antecedents_of_ofRules ht]
      exact RuleTable.mem_antecedentsOf.mpr ⟨r, hrow, ha⟩
    simp only [logProb]
    rw [RuleTable.entry_congr hrows, hr t.consequent (.inl rfl)]
  | @eager _ _ _ t _ =>
    have hr : ∀ i, i = t.table.consequent ∨ i ∈ t.table.antecedents →
        w.value i = w'.value i := fun i hi => h i (RuleTable.mem_components.mpr hi)
    simp only [logProb, EagerTable.logProb]
    rw [RuleTable.key_congr fun a ha => hr a (.inr ha), hr t.table.consequent (.inl rfl)]

/-- Changing a variable that is no component changes nothing. -/
theorem logProb_assign {f : Factor α} (hf : f.Made) (w : World) {i : Nat}
    (hi : i ∉ f.components) (b : Bool) : f.logProb (w.assign i b) = f.logProb w := by
  refine logProb_congr hf fun j hj => World.value_assign_of_ne w ?_ b
  rintro rfl
  exact hi hj

end Factor

end FactNet
