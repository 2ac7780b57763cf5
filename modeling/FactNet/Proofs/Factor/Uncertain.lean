import FactNet.Proofs.Factor.Order
import FactNet.Proofs.LogProb

/-!
# What is uncertain stays uncertain

A probability that is neither zero nor one has a logarithm that is a real number below zero.  Over
exact numbers every way to merge keeps to such logarithms: sums and means of real numbers below zero
are real numbers below zero, and the opposite of what is neither impossible nor certain is neither.
It takes one rule for that, as the sum of no logarithms is that of a certainty and the mean of no
sides that of an impossibility.  A table always has one to merge, since its prior holds everywhere.

What is stored of a weight is uncertain, and so is a default prior between zero and one.

## Main definitions

* `LogProb.IsUncertain`, `GroundedRule.IsUncertain` — neither impossible nor certain.

## Main results

* `LogProb.isUncertain_log` — the probabilities that are uncertain.
* `LogProb.IsUncertain.opposite` — the opposite is uncertain.
* `LogProb.isUncertain_clip`, `GroundedRule.isUncertain_default` — what is stored, and the default
  prior.
* `MergeMethod.isUncertain_merge` — **merging makes no certainty.**
* `RuleTable.isUncertain_entry` — the same for the entries of a table.
-/

namespace FactNet

open Scalar

/-! ### Probabilities -/

section Chances

variable {p q : EReal}

/-- A probability that is neither zero nor one is a real number. -/
theorem exists_real_of_mem_Ioo (hp : p ∈ Set.Ioo 0 1) :
    ∃ x ∈ Set.Ioo (0 : ℝ) 1, (x : EReal) = p := by
  have hreal := EReal.coe_toReal (ne_top_of_lt hp.2) (ne_bot_of_gt hp.1)
  rw [← hreal] at hp
  exact ⟨p.toReal, ⟨by exact_mod_cast hp.1, by exact_mod_cast hp.2⟩, hreal⟩

theorem one_sub_mem_Ioo (hp : p ∈ Set.Ioo 0 1) : 1 - p ∈ Set.Ioo 0 1 := by
  obtain ⟨x, ⟨h0, h1⟩, rfl⟩ := exists_real_of_mem_Ioo hp
  rw [← EReal.coe_one, ← EReal.coe_sub]
  exact ⟨by exact_mod_cast sub_pos.2 h1, by exact_mod_cast sub_lt_self 1 h0⟩

/-- The mean of two such probabilities is another. -/
theorem half_add_mem_Ioo (hp : p ∈ Set.Ioo 0 1) (hq : q ∈ Set.Ioo 0 1) :
    (p + q) / nat (1 + 1) ∈ Set.Ioo 0 1 := by
  obtain ⟨x, ⟨hx0, hx1⟩, rfl⟩ := exists_real_of_mem_Ioo hp
  obtain ⟨y, ⟨hy0, hy1⟩, rfl⟩ := exists_real_of_mem_Ioo hq
  rw [nat_ereal, ← EReal.coe_add, ← EReal.coe_div]
  have hmean : (x + y) / ((1 + 1 : ℕ) : ℝ) ∈ Set.Ioo 0 1 := by
    push_cast
    constructor <;> linarith
  exact ⟨by exact_mod_cast hmean.1, by exact_mod_cast hmean.2⟩

end Chances

/-! ### Logarithms -/

namespace LogProb

/-- A log-probability is neither that of the impossible nor that of the certain. -/
def IsUncertain (x : EReal) : Prop := ⊥ < x ∧ x < 0

/-- What is uncertain has a real number below zero as its logarithm. -/
theorem isUncertain_iff {x : EReal} : IsUncertain x ↔ ∃ a : ℝ, a < 0 ∧ (a : EReal) = x := by
  constructor
  · rintro ⟨hbot, hneg⟩
    have hreal := EReal.coe_toReal (ne_top_of_lt hneg) hbot.ne'
    exact ⟨x.toReal, by exact_mod_cast hreal ▸ hneg, hreal⟩
  · rintro ⟨a, ha, rfl⟩
    exact ⟨EReal.bot_lt_coe a, by exact_mod_cast ha⟩

/-- The probabilities that are uncertain. -/
theorem isUncertain_log {p : ENNReal} : IsUncertain (ENNReal.log p) ↔ p ∈ Set.Ioo 0 1 := by
  rw [IsUncertain, ENNReal.bot_lt_log_iff, ENNReal.log_lt_zero_iff, Set.mem_Ioo]

theorem isUncertain_ofProb {p : EReal} (hp : p ∈ Set.Ioo 0 1) : IsUncertain (ofProb p) := by
  obtain ⟨x, ⟨h0, h1⟩, rfl⟩ := exists_real_of_mem_Ioo hp
  rw [ofProb_coe h0, isUncertain_log]
  exact ⟨ENNReal.ofReal_pos.2 h0, ENNReal.ofReal_lt_one.2 h1⟩

theorem isUncertain_least : IsUncertain least := by
  rw [least_eq, isUncertain_log]
  exact ⟨ENNReal.ofReal_pos.2 (by norm_num), ENNReal.ofReal_lt_one.2 (by norm_num)⟩

theorem isUncertain_greatest : IsUncertain greatest := by
  rw [greatest_eq_ofReal, isUncertain_log]
  exact ⟨ENNReal.ofReal_pos.2 (by norm_num), ENNReal.ofReal_lt_one.2 (by norm_num)⟩

/-- What is stored is uncertain. -/
theorem isUncertain_clip (x : EReal) : IsUncertain (clip x) := by
  rw [clip_eq]
  exact ⟨lt_max_of_lt_left isUncertain_least.1,
    max_lt isUncertain_least.2 ((min_le_left _ _).trans_lt isUncertain_greatest.2)⟩

namespace IsUncertain

variable {x y : EReal} {xs : List EReal}

/-- **The opposite of what is uncertain is uncertain.** -/
theorem opposite (h : IsUncertain x) : IsUncertain (opposite x) := by
  have hpos : EReal.exp x ≠ 0 := (EReal.zero_lt_exp_iff.2 h.1).ne'
  rw [LogProb.opposite, isUncertain_log]
  exact ⟨tsub_pos_iff_lt.2 (EReal.exp_lt_one_iff.2 h.2),
    ENNReal.sub_lt_self ENNReal.one_ne_top one_ne_zero hpos⟩

theorem min (hx : IsUncertain x) (hy : IsUncertain y) : IsUncertain (min x y) :=
  ⟨lt_min hx.1 hy.1, (min_le_left x y).trans_lt hx.2⟩

theorem max (hx : IsUncertain x) (hy : IsUncertain y) : IsUncertain (max x y) :=
  ⟨hx.1.trans_le (le_max_left x y), max_lt hx.2 hy.2⟩

theorem add (hx : IsUncertain x) (hy : IsUncertain y) : IsUncertain (x + y) := by
  obtain ⟨a, ha, rfl⟩ := isUncertain_iff.1 hx
  obtain ⟨b, hb, rfl⟩ := isUncertain_iff.1 hy
  exact isUncertain_iff.2 ⟨a + b, add_neg ha hb, EReal.coe_add a b⟩

theorem sum (hne : xs ≠ []) (h : ∀ x ∈ xs, IsUncertain x) : IsUncertain xs.sum := by
  induction xs with
  | nil => exact absurd rfl hne
  | cons x xs ih =>
    obtain ⟨hx, hxs⟩ := List.forall_mem_cons.1 h
    rcases eq_or_ne xs [] with rfl | hne
    · rwa [List.sum_singleton]
    · rw [List.sum_cons]
      exact hx.add (ih hne hxs)

/-- Logarithms that are uncertain are those of a list of real numbers below zero. -/
theorem exists_reals (h : ∀ x ∈ xs, IsUncertain x) :
    ∃ as : List ℝ, (∀ a ∈ as, a < 0) ∧ as.map Real.toEReal = xs := by
  induction xs with
  | nil => exact ⟨[], List.forall_mem_nil _, rfl⟩
  | cons x xs ih =>
    obtain ⟨hx, hxs⟩ := List.forall_mem_cons.1 h
    obtain ⟨a, ha, rfl⟩ := isUncertain_iff.1 hx
    obtain ⟨as, has, rfl⟩ := ih hxs
    exact ⟨a :: as, List.forall_mem_cons.2 ⟨ha, has⟩, rfl⟩

/-- The mean of what is uncertain is uncertain. -/
theorem runningMean (hne : xs ≠ []) (h : ∀ x ∈ xs, IsUncertain x) :
    IsUncertain (MergeMethod.runningMean 0 0 xs) := by
  obtain ⟨as, has, rfl⟩ := exists_reals h
  have hne : as ≠ [] := fun hnil => hne (by rw [hnil, List.map_nil])
  obtain ⟨mean, hmean, hsum⟩ := MergeMethod.runningMean_real 0 0 as
  rw [EReal.coe_zero] at hmean
  rw [Nat.cast_zero, Nat.zero_add, zero_mul, zero_add] at hsum
  have hlength : (0 : ℝ) ≤ as.length := Nat.cast_nonneg _
  have hneg : as.sum < 0 := by
    have hless := List.sum_lt_sum_of_ne_nil hne id (fun _ => 0) has
    rwa [List.map_id, List.map_const', List.sum_replicate, nsmul_zero] at hless
  exact isUncertain_iff.2 ⟨mean, neg_of_mul_neg_left (hsum ▸ hneg) hlength, hmean.symm⟩

/-- The probability of what is uncertain is between zero and one. -/
theorem exp_mem (h : IsUncertain x) : exp x ∈ Set.Ioo 0 1 := by
  rw [exp_ereal]
  exact ⟨by exact_mod_cast EReal.zero_lt_exp_iff.2 h.1,
    by exact_mod_cast EReal.exp_lt_one_iff.2 h.2⟩

/-- So is that of its opposite. -/
theorem neg_expLessOne_mem (h : IsUncertain x) : -expLessOne x ∈ Set.Ioo 0 1 := by
  rw [expLessOne_ereal, neg_sub_one_ereal]
  exact one_sub_mem_Ioo h.exp_mem

end IsUncertain

end LogProb

/-! ### Rules -/

namespace GroundedRule

/-- Neither of the two log-probabilities of a rule is that of a certainty. -/
structure IsUncertain (g : GroundedRule EReal) : Prop where
  ifTrue : LogProb.IsUncertain g.ifTrue
  ifFalse : LogProb.IsUncertain g.ifFalse

/-- A default prior between zero and one is uncertain. -/
theorem isUncertain_default (c : Nat) {d : EReal} (h0 : 0 < d) (h1 : d < 1) :
    (GroundedRule.default c d).IsUncertain := by
  refine ⟨LogProb.isUncertain_ofProb ⟨h0, h1⟩, LogProb.isUncertain_ofProb ?_⟩
  rw [one_ereal]
  exact one_sub_mem_Ioo ⟨h0, h1⟩

end GroundedRule

/-! ### Merging -/

namespace MergeMethod

open LogProb

variable {prior : GroundedRule EReal} {rows : List (GroundedRule EReal)}

theorem isUncertain_jointlyFalse (hprior : prior.IsUncertain) (hrows : ∀ r ∈ rows, r.IsUncertain)
    (hne : rows ≠ []) : IsUncertain (jointlyFalse prior rows) := by
  rw [jointlyFalse, sum_ereal]
  refine IsUncertain.sum (by simpa using hne) fun x hx => ?_
  obtain ⟨r, hr, rfl⟩ := List.mem_map.1 hx
  rw [least_ereal]
  exact hprior.ifFalse.min (hrows r hr).ifFalse

/-- Where the prior and a rule are uncertain, so is the greater of their log-probabilities. -/
theorem isUncertain_of_mem_greatest (hprior : prior.IsUncertain)
    (hrows : ∀ r ∈ rows, r.IsUncertain) :
    ∀ x ∈ rows.map (fun r => greatest prior.ifTrue r.ifTrue), IsUncertain x := by
  intro x hx
  obtain ⟨r, hr, rfl⟩ := List.mem_map.1 hx
  rw [greatest_ereal]
  exact hprior.ifTrue.max (hrows r hr).ifTrue

theorem isUncertain_jointlyTrue (hprior : prior.IsUncertain) (hrows : ∀ r ∈ rows, r.IsUncertain)
    (hne : rows ≠ []) : IsUncertain (jointlyTrue prior rows) := by
  rw [jointlyTrue, sum_ereal]
  exact IsUncertain.sum (by simpa using hne) (isUncertain_of_mem_greatest hprior hrows)

/-- The mean of the sides that have a rule on them is uncertain if they are, as long as one side
has a rule on it. -/
theorem isUncertain_meanOfBranches {pro contra : List (GroundedRule EReal)} {p q : EReal}
    (hp : pro ≠ [] → p ∈ Set.Ioo 0 1) (hq : contra ≠ [] → q ∈ Set.Ioo 0 1)
    (hne : pro ≠ [] ∨ contra ≠ []) : IsUncertain (meanOfBranches pro contra p q) := by
  refine isUncertain_ofProb ?_
  unfold branch
  rw [zero_ereal]
  cases hpro : pro.isEmpty <;> cases hcontra : contra.isEmpty
  · exact half_add_mem_Ioo (hp (List.isEmpty_eq_false_iff.1 hpro))
      (hq (List.isEmpty_eq_false_iff.1 hcontra))
  · simpa using hp (List.isEmpty_eq_false_iff.1 hpro)
  · simpa using hq (List.isEmpty_eq_false_iff.1 hcontra)
  · -- there is a rule on one of the sides
    rw [List.isEmpty_iff] at hpro hcontra
    exact absurd hpro (hne.resolve_right fun h => h hcontra)

/-- **Merging makes no certainty.** -/
theorem isUncertain_merge (m : MergeMethod) (hprior : prior.IsUncertain)
    (hrows : ∀ r ∈ rows, r.IsUncertain) (hne : rows ≠ []) : IsUncertain (m.merge prior rows) := by
  -- one of the two sides has a rule on it
  have hsides : rows.filter favours ≠ [] ∨ (rows.filter fun r => !favours r) ≠ [] := by
    obtain ⟨r, hr⟩ := List.exists_mem_of_ne_nil rows hne
    cases hfavours : favours r with
    | true => exact .inl (List.ne_nil_of_mem (List.mem_filter.2 ⟨hr, hfavours⟩))
    | false => exact .inr (List.ne_nil_of_mem (List.mem_filter.2 ⟨hr, by rw [hfavours]; rfl⟩))
  have hside : ∀ p : GroundedRule EReal → Bool, ∀ r ∈ rows.filter p, r.IsUncertain :=
    fun p r hr => hrows r (List.mem_of_mem_filter hr)
  have hfalse : ∀ p : GroundedRule EReal → Bool, rows.filter p ≠ [] →
      -expLessOne (jointlyFalse prior (rows.filter p)) ∈ Set.Ioo 0 1 :=
    fun p hp => (isUncertain_jointlyFalse hprior (hside p) hp).neg_expLessOne_mem
  cases m with
  | noisyOr =>
    have hjoint := isUncertain_jointlyFalse hprior hrows hne
    rw [merge, complement_ereal hjoint.2.le]
    exact hjoint.opposite
  | geometricMean =>
    rw [merge, zero_ereal]
    exact IsUncertain.runningMean (by simpa using hne) (isUncertain_of_mem_greatest hprior hrows)
  | hybridOr =>
    exact isUncertain_meanOfBranches (hfalse _)
      (fun hne => (isUncertain_jointlyTrue hprior (hside _) hne).exp_mem) hsides
  | gentleOr => exact isUncertain_meanOfBranches (hfalse _) (hfalse _) hsides

end MergeMethod

namespace RuleTable

/-- Where a row holds, some rule counts. -/
theorem active_ne_nil {α : Type} {t : RuleTable α} {r : GroundedRule α} {v : Valuation}
    (hr : r ∈ t.rows) (hv : r.holds v = true) : t.active v ≠ [] := by
  unfold active
  split
  · next hnone => exact absurd hv (List.find?_eq_none.1 hnone r hr)
  · next first hfirst =>
    have hholds : first.holds v = true := by simpa using List.find?_some hfirst
    have hmem : first ∈ t.rows := List.mem_of_find?_eq_some hfirst
    exact List.ne_nil_of_mem (List.mem_filter.2 ⟨hmem, by simp [hholds]⟩)

/-- **No entry of a table is that of a certainty**, if no row is and the prior is among the rows,
which holds everywhere. -/
theorem isUncertain_entry {t : RuleTable EReal} (hprior : t.prior ∈ t.rows)
    (hunit : t.prior.antecedents = []) (hrows : ∀ r ∈ t.rows, r.IsUncertain) (v : Valuation) :
    LogProb.IsUncertain (t.entry v) := by
  have hholds : t.prior.holds v = true := by
    rw [GroundedRule.holds, hunit]
    rfl
  exact MergeMethod.isUncertain_merge t.method (hrows _ hprior)
    (fun r hr => hrows r (t.active_subset v hr)) (active_ne_nil hprior hholds)

end RuleTable

end FactNet
