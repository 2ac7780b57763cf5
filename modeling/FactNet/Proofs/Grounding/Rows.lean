import FactNet.Proofs.Factor.Specific
import FactNet.Proofs.Grounding.Network

/-!
# What is behind the factors

The factors of a consequent are tables.  Each has one batch of the rules with antecedents, and the
prior that is kept of those without.  So the rows of the tables of a network are grounded rules, but
for the prior of a consequent that has no other.

## Main definitions

* `Factor.rules` — the grounded rules behind a factor.

## Main results

* `Registry.eager_of_tableOf`, `Registry.rules_of_tableOf` — the table that is made of some rules,
  and its rows.
* `Registry.mapM_of_settleAt` — what becomes of a consequent, table by table.
* `Registry.Built.rules_of_mem_factors`, `Registry.Built.exists_factor` — **the rows of the tables
  of a network.**
* `Registry.Built.mem_groundings` — what is behind the factors has been grounded.
-/

namespace FactNet

open RuleTable

variable {α : Type}

/-- The grounded rules behind a factor. -/
def Factor.rules : Factor α → List (GroundedRule α)
  | .entailment g => [g]
  | .table t => t.rows
  | .eager t => t.table.rows

variable [Scalar α] {r : Registry α} {g : GroundedRule α}

/-- Listing the entries of a table keeps the table. -/
theorem EagerTable.table_of_ofTable {t : RuleTable α} {e : EagerTable α} (h : ofTable t = .ok e) :
    e.table = t := by
  unfold ofTable at h
  dsimp only at h
  split at h
  · cases h
  · split at h
    · cases h
    · cases h
      rfl

namespace Registry

/-- The factor of rules of one consequent is the table that they form. -/
theorem eager_of_tableOf {text : String} {rules : List (GroundedRule α)} {c : Nat} {f : Factor α}
    (hne : rules ≠ []) (hc : ∀ g ∈ rules, g.consequent = c) (h : r.tableOf text rules = .ok f) :
    ∃ t : EagerTable α, f = .eager t ∧ t.table = formed c r.defaultPrior rules r.method := by
  unfold tableOf EagerTable.ofRules at h
  rw [ofRules_eq hne hc] at h
  dsimp only at h
  split at h
  · cases h
  · split at h
    · next t htable =>
      cases h
      exact ⟨t, rfl, EagerTable.table_of_ofTable htable⟩
    · cases h

/-- A table of rules of one consequent has one prior among its rows, and the rules with
antecedents. -/
theorem rules_of_tableOf {text : String} {rules : List (GroundedRule α)} {c : Nat} {f : Factor α}
    (hne : rules ≠ []) (hc : ∀ g ∈ rules, g.consequent = c) (h : r.tableOf text rules = .ok f) :
    f.rules = rowsOf c r.defaultPrior rules := by
  obtain ⟨t, rfl, htable⟩ := eager_of_tableOf hne hc h
  rw [Factor.rules, htable]
  rfl

/-- The prior that is kept belongs to the consequent. -/
theorem consequent_keptPrior {c : Nat} {rules : List (GroundedRule α)}
    (h : ∀ g ∈ rules, g.consequent = c) : (r.keptPrior c rules).consequent = c := by
  rcases choosePrior_mem (.default c r.defaultPrior) rules.eraseDups with heq | ⟨hmem, -⟩
  · rw [keptPrior, heq]
    rfl
  · exact h _ (eraseDups_subset rules hmem)

/-- The rules of the tables of a consequent are its rules with antecedents. -/
theorem mem_of_mem_groupsOf {rules b : List (GroundedRule α)} (hb : b ∈ groupsOf rules)
    (hg : g ∈ b) : g ∈ rules ∧ g.isUnit = false := by
  have hdealt := (perm_flatten_groupsOf rules).subset (List.mem_flatten_of_mem hb hg)
  obtain ⟨hmem, hunit⟩ := List.mem_filter.1 hdealt
  rw [Bool.not_eq_true'] at hunit
  exact ⟨eraseDups_subset rules hmem, hunit⟩

/-- A consequent has a table, even if it has no rule with antecedents. -/
theorem groupsOf_ne_nil (rules : List (GroundedRule α)) : groupsOf rules ≠ [] := by
  unfold groupsOf
  split
  · exact List.cons_ne_nil _ _
  · next hne =>
    intro hnil
    have hperm := perm_flatten_batches (dealt rules)
    rw [hnil, List.flatten_nil] at hperm
    rw [List.nil_perm.1 hperm] at hne
    exact hne rfl

variable [Numeral α] {net : BayesNet α} {i : Nat} {f : Factor α} {o : Settled α}

/-- The prior and the rules of a table of a consequent belong to it. -/
theorem consequent_of_mem_batch {b : List (GroundedRule α)} (hb : b ∈ groupsOf (r.rulesOf i)) :
    ∀ g ∈ r.priorAt i :: b, g.consequent = i :=
  List.forall_mem_cons.2 ⟨consequent_keptPrior (r.said_rulesOf i).consequent, fun g hg =>
    (r.said_rulesOf i).consequent g (mem_of_mem_groupsOf hb hg).1⟩

/-- A consequent that has factors is not fixed. -/
theorem fixedAt_of_mem_factorsOf (h : r.settleAt i = .ok o) (hf : f ∈ o.factorsOf) :
    r.fixedAt i = none := by
  unfold settleAt settle at h
  rw [← fixedAt] at h
  cases hfixed : r.fixedAt i with
  | none => rfl
  | some b =>
    rw [hfixed] at h
    cases h
    cases hf

/-- **What becomes of a consequent that is not fixed**: it has the tables of its batches. -/
theorem mapM_of_settleAt (hi : i ∈ r.consequents) (h : r.settleAt i = .ok o)
    (hfixed : r.fixedAt i = none) :
    (groupsOf (r.rulesOf i)).mapM (fun b => r.tableOf
      (((r.groundAll.1.literals[i]?).map Literal.text).getD "") (r.priorAt i :: b)) =
        .ok o.factorsOf := by
  unfold settleAt settle at h
  rw [← fixedAt, hfixed] at h
  dsimp only at h
  rw [makeFactors_eq_mapM (r.said_rulesOf i).consequent (mem_consequents.1 hi), ← priorAt] at h
  cases hfs : (groupsOf (r.rulesOf i)).mapM fun b => r.tableOf
      (((r.groundAll.1.literals[i]?).map Literal.text).getD "") (r.priorAt i :: b) with
  | error e =>
    rw [hfs] at h
    cases h
  | ok fs =>
    rw [hfs] at h
    cases h
    rfl

/-! ### The network that is built -/

/-- **The rows of the tables of a network** are the prior that is kept for a consequent and a batch
of its rules. -/
theorem Built.rules_of_mem_factors (h : r.Built net) (hf : f ∈ net.factors.toList) :
    ∃ i ∈ r.consequents, r.fixedAt i = none ∧ ∃ b ∈ groupsOf (r.rulesOf i),
      f.rules = rowsOf i r.defaultPrior (r.priorAt i :: b) := by
  rw [h.factors] at hf
  obtain ⟨i, hi, hf⟩ := List.mem_flatMap.1 hf
  have hfixed := fixedAt_of_mem_factorsOf (h.settled i hi) hf
  obtain ⟨b, hb, htable⟩ := exists_of_mem_of_mapM (mapM_of_settleAt hi (h.settled i hi) hfixed) hf
  exact ⟨i, hi, hfixed, b, hb,
    rules_of_tableOf (List.cons_ne_nil _ _) (consequent_of_mem_batch hb) htable⟩

/-- Every consequent that is not fixed has a table with its prior. -/
theorem Built.exists_factor (h : r.Built net) (hi : i ∈ r.consequents)
    (hfixed : r.fixedAt i = none) : ∃ f ∈ net.factors.toList, ∃ b ∈ groupsOf (r.rulesOf i),
      f.rules = rowsOf i r.defaultPrior (r.priorAt i :: b) := by
  obtain ⟨b, hb⟩ := List.exists_mem_of_ne_nil _ (groupsOf_ne_nil (r.rulesOf i))
  obtain ⟨f, hf, htable⟩ := exists_of_mapM_eq_ok (mapM_of_settleAt hi (h.settled i hi) hfixed) hb
  refine ⟨f, ?_, b, hb,
    rules_of_tableOf (List.cons_ne_nil _ _) (consequent_of_mem_batch hb) htable⟩
  rw [h.factors]
  exact List.mem_flatMap.2 ⟨i, hi, hf⟩

/-- **What is behind the factors has been grounded**, but for the priors. -/
theorem Built.mem_groundings (h : r.Built net) (hf : f ∈ net.factors.toList) (hg : g ∈ f.rules) :
    g ∈ r.groundAll.1.groundings.toList ∨ g.antecedents = [] := by
  obtain ⟨i, -, -, b, hb, hrules⟩ := h.rules_of_mem_factors hf
  rw [hrules] at hg
  rcases mem_rowsOf.1 hg with rfl | ⟨hmem, -⟩
  · exact .inr (choosePrior_antecedents ..)
  · rcases List.mem_cons.1 hmem with rfl | hmem
    · exact .inr (choosePrior_antecedents ..)
    · exact .inl (List.mem_of_mem_filter (mem_of_mem_groupsOf hb hmem).1)

end Registry

end FactNet
