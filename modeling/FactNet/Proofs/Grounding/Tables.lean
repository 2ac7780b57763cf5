import FactNet.Proofs.Grounding.Rows
import FactNet.Proofs.Low

/-!
# Tables of batches

Each batch of the rules of a consequent that is not fixed comes to a table, together with the prior
of the consequent.  A table of several rules is narrow, so that the only table that can be too wide
is that of a single rule; and where no log-probability is above zero, nothing else can keep a
network from being built.

## Main definitions

* `Registry.batchTable`, `Registry.sharedPrior` — the table of a batch, and the prior of all of
  them.

## Main results

* `Registry.perm_rows_batchTable` — **the rows of a table are its prior and its batch.**
* `Registry.eager_of_tableOf_batch` — what is made of a batch is its table.
* `Registry.tableOf_eq_error` — a batch makes a table unless it is too wide or needs an exponential
  that is too large.
* `Registry.exists_of_build_eq_error`, `Registry.assemble_eq_error` — where building fails.
* `Registry.exists_wide_of_build` — **building fails only where a rule is too wide.**
-/

namespace FactNet

open Scalar RuleTable

/-! ### The table of a batch -/

section Batch

variable {α : Type} [Scalar α]

/-- Only rules without antecedents are looked at for the prior to keep. -/
theorem choosePrior_filter (other : GroundedRule α) (rules : List (GroundedRule α)) :
    choosePrior other (rules.filter (·.isUnit)) = choosePrior other rules := by
  rw [choosePrior_eq, choosePrior_eq, List.filter_filter]
  simp only [Bool.and_self]

omit [Scalar α] in
/-- A prior is told from the rules with antecedents that come after it. -/
theorem filter_prior_cons {p : GroundedRule α} {b : List (GroundedRule α)} (hp : p.isUnit = true)
    (hb : ∀ g ∈ b, g.isUnit = false) :
    (p :: b).filter (·.isUnit) = [p] ∧ (p :: b).filter (fun g => !g.isUnit) = b := by
  constructor
  · rw [List.filter_cons_of_pos hp, List.filter_eq_nil_iff.2 fun g hg => ?_]
    rw [hb g hg]
    exact Bool.false_ne_true
  · rw [List.filter_cons_of_neg (by rw [hp]; exact Bool.false_ne_true), List.filter_eq_self]
    intro g hg
    rw [hb g hg]
    rfl

omit [Scalar α] in
/-- A prior adds no antecedents. -/
theorem width_cons {p : GroundedRule α} (hp : p.antecedents = []) (b : List (GroundedRule α)) :
    width (p :: b) = width b := by
  rw [width_eq, width_eq, List.flatMap_cons, hp, List.nil_append]

variable [Numeral α] {r : Registry α} {i : Nat} {b : List (GroundedRule α)}

namespace Registry

/-- The prior of the tables of a consequent. -/
def sharedPrior (r : Registry α) (i : Nat) : GroundedRule α :=
  choosePrior (.default i r.defaultPrior) [r.priorAt i]

/-- The table of a batch of the rules of a consequent. -/
def batchTable (r : Registry α) (i : Nat) (b : List (GroundedRule α)) : RuleTable α :=
  formed i r.defaultPrior (r.priorAt i :: b) r.method

theorem isUnit_priorAt (r : Registry α) (i : Nat) : (r.priorAt i).isUnit = true :=
  List.isEmpty_iff.2 (choosePrior_antecedents i r.defaultPrior _)

theorem isUnit_sharedPrior (r : Registry α) (i : Nat) : (r.sharedPrior i).isUnit = true :=
  List.isEmpty_iff.2 (choosePrior_antecedents i r.defaultPrior _)

theorem consequent_sharedPrior (r : Registry α) (i : Nat) : (r.sharedPrior i).consequent = i := by
  rcases choosePrior_mem (.default i r.defaultPrior) [r.priorAt i] with heq | ⟨hmem, -⟩
  · rw [sharedPrior, heq]
    rfl
  · rw [sharedPrior, List.mem_singleton.1 hmem]
    exact consequent_keptPrior (r.said_rulesOf i).consequent

/-- The rules of a batch have antecedents. -/
theorem isUnit_of_mem_batch (hb : b ∈ groupsOf (r.rulesOf i)) : ∀ g ∈ b, g.isUnit = false :=
  fun _ hg => (mem_of_mem_groupsOf hb hg).2

/-- **The tables of a consequent have the same prior**, whatever their batches. -/
theorem prior_batchTable (hb : b ∈ groupsOf (r.rulesOf i)) :
    (r.batchTable i b).prior = r.sharedPrior i := by
  have hunits := (filter_prior_cons (r.isUnit_priorAt i) (isUnit_of_mem_batch hb)).1
  show choosePrior (.default i r.defaultPrior) (r.priorAt i :: b) = r.sharedPrior i
  rw [← choosePrior_filter, hunits, sharedPrior]

/-- **The rows of a table are its prior and its batch.** -/
theorem perm_rows_batchTable (hb : b ∈ groupsOf (r.rulesOf i)) :
    (r.batchTable i b).rows.Perm (r.sharedPrior i :: b) := by
  have hrows := perm_rows_formed i r.defaultPrior (r.priorAt i :: b) r.method
  rwa [(filter_prior_cons (r.isUnit_priorAt i) (isUnit_of_mem_batch hb)).2, ← batchTable,
    prior_batchTable hb] at hrows

/-- Its antecedents are those of the batch. -/
theorem length_antecedents_batchTable (r : Registry α) (i : Nat) (b : List (GroundedRule α)) :
    (r.batchTable i b).antecedents.length = width b :=
  width_cons (List.isEmpty_iff.1 (r.isUnit_priorAt i)) b

theorem width_rows_batchTable (r : Registry α) (i : Nat) (b : List (GroundedRule α)) :
    width (r.batchTable i b).rows = width b := by
  rw [width, batchTable, formed, antecedentsOf_rowsOf, ← width]
  exact length_antecedents_batchTable r i b

/-- The rows with antecedents are the batch, and the other one is the prior. -/
theorem perm_filter_rows_batchTable (hb : b ∈ groupsOf (r.rulesOf i)) :
    ((r.batchTable i b).rows.filter fun g => !g.isUnit).Perm b ∧
      (r.batchTable i b).rows.filter (·.isUnit) = [r.sharedPrior i] := by
  have hrows := perm_rows_batchTable hb
  obtain ⟨hunits, hothers⟩ :=
    filter_prior_cons (r.isUnit_sharedPrior i) (isUnit_of_mem_batch hb)
  exact ⟨(hrows.filter fun g => !g.isUnit).trans (.of_eq hothers),
    List.perm_singleton.1 ((hrows.filter (·.isUnit)).trans (.of_eq hunits))⟩

/-- A factor that is made of a batch is its table. -/
theorem eager_of_tableOf_batch (hb : b ∈ groupsOf (r.rulesOf i)) {text : String} {f : Factor α}
    (h : r.tableOf text (r.priorAt i :: b) = .ok f) :
    ∃ t : EagerTable α, f = .eager t ∧ t.table = r.batchTable i b :=
  eager_of_tableOf (List.cons_ne_nil _ _) (consequent_of_mem_batch hb) h

end Registry

end Batch

/-! ### What can go wrong -/

/-- A table that is narrow has its entries listed, unless one needs an exponential that is too
large. -/
theorem EagerTable.overflows_of_ofTable_eq_error {α : Type} [Scalar α] {t : RuleTable α}
    {fault : TableFault} (hnarrow : t.antecedents.length < tableCeiling)
    (h : ofTable t = .error fault) : fault = .overflow ∧ ∃ v, t.entryOverflows v = true := by
  unfold ofTable at h
  dsimp only at h
  rw [if_neg (Nat.not_le.2 hnarrow)] at h
  split at h
  · next hany =>
    obtain ⟨bits, -, hbits⟩ := List.any_eq_true.1 hany
    exact ⟨(Except.error.inj h).symm, _, hbits⟩
  · cases h

theorem BayesNet.unknownVariable?_eq_none {α : Type} {n : Nat} {factors : List (Factor α)}
    (h : ∀ f ∈ factors, ∀ i ∈ f.components, i < n) :
    BayesNet.unknownVariable? n factors = none := by
  simp only [BayesNet.unknownVariable?, List.findSome?_eq_none_iff, Option.map_eq_none_iff,
    List.find?_eq_none, decide_eq_true_eq, Nat.not_le]
  exact h

/-- **Parts that know each other make a network**, unless the logarithm given for a prior is too
large. -/
theorem BayesNet.overflows_of_ofParts_eq_error {α : Type} [Scalar α] {literals : List Literal}
    {factors : List (Factor α)} {priors : List (Nat × α)} {fixed : List (Nat × Bool)}
    {hillClimb : Bool} {threads : Int} {fault : NetFault} (hthreads : 1 ≤ threads)
    (hknown : ∀ f ∈ factors, ∀ i ∈ f.components, i < literals.length)
    (h : BayesNet.ofParts literals factors priors fixed hillClimb threads = .error fault) :
    fault = .overflow ∧ ∃ e ∈ priors, expOverflows e.2 = true := by
  unfold BayesNet.ofParts at h
  dsimp only at h
  rw [if_neg (Int.not_lt.2 hthreads), BayesNet.unknownVariable?_eq_none hknown] at h
  split at h
  · next hany =>
    obtain ⟨p, hp, hoverflows⟩ := List.any_eq_true.1 hany
    obtain ⟨i, -, rfl⟩ := List.mem_map.1 hp
    obtain ⟨x, hx, hoverflows⟩ := (Option.any_eq_true ..).1 hoverflows
    exact ⟨(Except.error.inj h).symm, _, Pairs.mem_of_last?_eq_some hx, hoverflows⟩
  · cases h

/-! ### Building -/

section Building

variable {α : Type} [Scalar α] [Numeral α] {r : Registry α} {i : Nat} {g : GroundedRule α}

namespace Registry

/-- **A batch makes a table unless it is too wide** or needs an exponential that is too large: its
rules have one consequent, and there is one at least. -/
theorem tableOf_eq_error {b : List (GroundedRule α)} (hb : b ∈ groupsOf (r.rulesOf i))
    {text : String} {e : BuildFault} (he : r.tableOf text (r.priorAt i :: b) = .error e) :
    tableCeiling ≤ width b ∧ e = .tooWide text (width b) ∨
      e = .table .overflow ∧ ∃ v, (r.batchTable i b).entryOverflows v = true := by
  have hwidth : (antecedentsOf (r.priorAt i :: b)).length = width b :=
    length_antecedents_batchTable r i b
  have hformed : RuleTable.ofRules (r.priorAt i :: b) r.method r.defaultPrior =
      .ok (r.batchTable i b) := ofRules_eq (List.cons_ne_nil _ _) (consequent_of_mem_batch hb) _ _
  unfold tableOf at he
  rw [hwidth] at he
  dsimp only at he
  split at he
  · next hwide => exact .inl ⟨hwide, (Except.error.inj he).symm⟩
  · next hnarrow =>
    rw [EagerTable.ofRules, hformed] at he
    dsimp only at he
    cases htable : EagerTable.ofTable (r.batchTable i b) with
    | ok t =>
      rw [htable] at he
      cases he
    | error fault =>
      rw [htable] at he
      cases he
      obtain ⟨rfl, hoverflows⟩ := EagerTable.overflows_of_ofTable_eq_error
        (by rw [length_antecedents_batchTable]; exact Nat.lt_of_not_le hnarrow) htable
      exact .inr ⟨rfl, hoverflows⟩

/-- A consequent that cannot be settled is not fixed, and has a batch that makes no table. -/
theorem settleAt_eq_error (hi : i ∈ r.consequents) {e : BuildFault}
    (he : r.settleAt i = .error e) :
    r.fixedAt i = none ∧ ∃ b ∈ groupsOf (r.rulesOf i), r.tableOf
      (((r.groundAll.1.literals[i]?).map Literal.text).getD "") (r.priorAt i :: b) = .error e := by
  unfold settleAt settle at he
  rw [← fixedAt] at he
  cases hfixed : r.fixedAt i with
  | some value =>
    rw [hfixed] at he
    cases he
  | none =>
    refine ⟨rfl, ?_⟩
    rw [hfixed] at he
    dsimp only at he
    rw [makeFactors_eq_mapM (r.said_rulesOf i).consequent (mem_consequents.1 hi), ← priorAt] at he
    cases hfs : (groupsOf (r.rulesOf i)).mapM fun b => r.tableOf
        (((r.groundAll.1.literals[i]?).map Literal.text).getD "") (r.priorAt i :: b) with
    | ok fs =>
      rw [hfs] at he
      cases he
    | error e' =>
      rw [hfs] at he
      cases he
      exact exists_of_mapM_eq_error hfs

/-- The variables of the factors of a consequent have numbers. -/
theorem components_factorsOf (hi : i ∈ r.consequents) (h : r.settleAt i = .ok (r.outcome i)) :
    ∀ f ∈ (r.outcome i).factorsOf, ∀ a ∈ f.components, a < r.groundAll.1.literals.size := by
  intro f hf a ha
  have hfixed := fixedAt_of_mem_factorsOf h hf
  obtain ⟨b, hb, htable⟩ := exists_of_mem_of_mapM (mapM_of_settleAt hi h hfixed) hf
  obtain ⟨t, rfl, hformed⟩ := eager_of_tableOf_batch hb htable
  rw [Factor.components, hformed] at ha
  rcases mem_components.1 ha with rfl | ha
  · rw [RuleTable.consequent, prior_batchTable hb, consequent_sharedPrior]
    exact lt_of_mem_consequents hi
  · obtain ⟨g, hg, ha⟩ := mem_antecedentsOf.1 ha
    rcases List.mem_cons.1 hg with rfl | hg
    · rw [List.isEmpty_iff.1 (r.isUnit_priorAt i)] at ha
      cases ha
    · exact ((r.said_rulesOf i).numbers g (mem_of_mem_groupsOf hb hg).1).2 a ha

/-- **What becomes of the consequents makes a network**, unless the logarithm of a prior is too
large: all variables of the factors have numbers. -/
theorem assemble_eq_error (hthreads : 1 ≤ r.threads)
    (hsettled : ∀ i ∈ r.consequents, r.settleAt i = .ok (r.outcome i)) {fault : NetFault}
    (h : r.assemble r.outcomes = .error fault) :
    fault = .overflow ∧ ∃ i ∈ r.consequents, expOverflows (r.priorAt i).ifTrue = true := by
  have hknown : ∀ f ∈ r.outcomes.flatMap fun e => e.2.factorsOf, ∀ a ∈ f.components,
      a < r.groundAll.1.literals.toList.length := by
    intro f hf
    rw [outcomes, List.flatMap_map] at hf
    obtain ⟨i, hi, hf⟩ := List.mem_flatMap.1 hf
    rw [Array.length_toList]
    exact components_factorsOf hi (hsettled i hi) f hf
  obtain ⟨hfault, e, he, hoverflows⟩ :=
    BayesNet.overflows_of_ofParts_eq_error hthreads hknown h
  refine ⟨hfault, ?_⟩
  obtain ⟨⟨i, o⟩, ho, hprior⟩ := List.mem_filterMap.1 he
  obtain ⟨i, hi, heq⟩ := List.mem_map.1 ho
  cases heq
  dsimp only at hprior
  rw [(outcome_spec hi (hsettled i hi)).2] at hprior
  split at hprior
  · cases hprior
  · cases hprior
    exact ⟨i, hi, hoverflows⟩

/-- **Where building fails**: at a batch of a consequent that is not fixed, or when everything is put
together. -/
theorem exists_of_build_eq_error {e : BuildFault} (he : r.build = .error e) :
    (∃ i ∈ r.consequents, r.fixedAt i = none ∧ ∃ b ∈ groupsOf (r.rulesOf i), r.tableOf
      (((r.groundAll.1.literals[i]?).map Literal.text).getD "") (r.priorAt i :: b) = .error e) ∨
    (∀ i ∈ r.consequents, r.settleAt i = .ok (r.outcome i)) ∧
      ∃ fault, r.assemble r.outcomes = .error fault ∧ e = .net fault := by
  -- a consequent is not settled, or all are and they are not put together
  cases hsettled : r.consequents.mapM fun i => (r.settleAt i).map fun o => (i, o) with
  | error e' =>
    rw [build_of_unsettled hsettled] at he
    cases he
    obtain ⟨i, hi, hfail⟩ := exists_of_mapM_eq_error hsettled
    refine .inl ⟨i, hi, settleAt_eq_error hi ?_⟩
    cases ho : r.settleAt i with
    | error e'' =>
      rw [ho] at hfail
      exact congrArg _ (Except.error.inj hfail)
    | ok o =>
      rw [ho] at hfail
      cases hfail
  | ok settled =>
    have hall : ∀ i ∈ r.consequents, r.settleAt i = .ok (r.outcome i) := by
      intro i hi
      obtain ⟨e', -, hmade⟩ := exists_of_mapM_eq_ok hsettled hi
      cases ho : r.settleAt i with
      | error e'' =>
        rw [ho] at hmade
        cases hmade
      | ok o => rw [settleAt_eq_outcome ho]
    refine .inr ⟨hall, ?_⟩
    rw [build_of_settled (mapM_settleAt hall)] at he
    cases hassemble : r.assemble r.outcomes with
    | error fault =>
      rw [hassemble] at he
      exact ⟨fault, rfl, (Except.error.inj he).symm⟩
    | ok net =>
      rw [hassemble] at he
      cases he

/-! #### With low log-probabilities -/

/-- What is registered for a clause is low. -/
theorem isLow_of_mem_rulesOf (h : StaysLow α) (hg : g ∈ r.rulesOf i) : g.IsLow := by
  have hmem : g ∈ r.groundAll.1.groundings.toList := List.mem_of_mem_filter hg
  rw [r.groundings_groundAll.2.2] at hmem
  obtain ⟨c, -, hc⟩ := List.mem_filterMap.1 hmem
  obtain ⟨head, -, rfl⟩ := Option.map_eq_some_iff.1 hc
  exact ⟨h.clip _, h.clip _⟩

omit [Numeral α] in
theorem isLow_choosePrior (h : StaysLow α) (h0 : zero < r.defaultPrior) (h1 : r.defaultPrior < one)
    {rules : List (GroundedRule α)} (hrules : ∀ g ∈ rules, g.IsLow) :
    (choosePrior (.default i r.defaultPrior) rules).IsLow := by
  rcases choosePrior_mem (.default i r.defaultPrior) rules with heq | ⟨hmem, -⟩
  · rw [heq]
    exact h.ofProb h0 h1
  · exact hrules _ hmem

theorem isLow_priorAt (h : StaysLow α) (h0 : zero < r.defaultPrior) (h1 : r.defaultPrior < one) :
    (r.priorAt i).IsLow :=
  isLow_choosePrior h h0 h1 fun _ hg => isLow_of_mem_rulesOf h (eraseDups_subset _ hg)

/-- **All rows of the table of a batch are low.** -/
theorem isLow_rows_batchTable (h : StaysLow α) (h0 : zero < r.defaultPrior)
    (h1 : r.defaultPrior < one) {b : List (GroundedRule α)} (hb : b ∈ groupsOf (r.rulesOf i)) :
    ∀ g ∈ (r.batchTable i b).prior :: (r.batchTable i b).rows, g.IsLow := by
  have hshared : (r.sharedPrior i).IsLow :=
    isLow_choosePrior h h0 h1 fun g hg => List.mem_singleton.1 hg ▸ isLow_priorAt h h0 h1
  rw [prior_batchTable hb]
  refine List.forall_mem_cons.2 ⟨hshared, fun g hg => ?_⟩
  rcases List.mem_cons.1 ((perm_rows_batchTable hb).mem_iff.1 hg) with rfl | hg
  · exact hshared
  · exact isLow_of_mem_rulesOf h (mem_of_mem_groupsOf hb hg).1

/-- **Building fails only where a rule is too wide**, and says so. -/
theorem exists_wide_of_build (h : StaysLow α) (h0 : zero < r.defaultPrior)
    (h1 : r.defaultPrior < one) (hthreads : 1 ≤ r.threads) {e : BuildFault}
    (he : r.build = .error e) :
    ∃ i ∈ r.consequents, r.fixedAt i = none ∧ ∃ g ∈ r.rulesOf i, tableCeiling ≤ width [g] ∧
      e = .tooWide (((r.groundAll.1.literals[i]?).map Literal.text).getD "") (width [g]) := by
  rcases exists_of_build_eq_error he with
    ⟨i, hi, hfixed, b, hb, hbatch⟩ | ⟨hsettled, fault, hassemble, -⟩
  · rcases tableOf_eq_error hb hbatch with ⟨hwide, heq⟩ | ⟨-, v, hoverflows⟩
    · -- several rules come to a table only where they are narrow
      have hlimit : mostAntecedents < tableCeiling := by decide
      have hone := (narrow_of_mem_groupsOf hb).resolve_left (by omega)
      obtain ⟨g, rfl⟩ := List.length_eq_one_iff.1 hone
      exact ⟨i, hi, hfixed, g, (mem_of_mem_groupsOf hb (List.mem_singleton_self g)).1, hwide, heq⟩
    · have hlow := isLow_rows_batchTable h h0 h1 hb
      have hfinite : (r.batchTable i b).entryOverflows v = false :=
        h.overflows _ (hlow _ List.mem_cons_self) fun g hg =>
          hlow g (List.mem_cons_of_mem _ ((r.batchTable i b).active_subset v hg))
      rw [hfinite] at hoverflows
      cases hoverflows
  · obtain ⟨-, i, hi, hoverflows⟩ := assemble_eq_error hthreads hsettled hassemble
    rw [h.exp (isLow_priorAt h h0 h1).1] at hoverflows
    cases hoverflows

end Registry

end Building

end FactNet
