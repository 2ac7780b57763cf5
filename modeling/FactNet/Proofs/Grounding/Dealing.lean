import Mathlib
import FactNet.Grounding.Build
import FactNet.Proofs.Attempts
import FactNet.Proofs.Factor.Equivalence
import FactNet.Proofs.Factor.Order

/-!
# Dealing rules out to tables

The rules of a consequent are shuffled and dealt out to tables one after another.  Every rule comes
to a table, and a table of several rules has at most twelve antecedents.  So a table is too wide
exactly when a single rule is, whatever the shuffle; and where all rules together have at most
twelve antecedents they come to one table.

## Main definitions

* `width` — how many antecedents rules have.
* `Registry.tableWith` — the table of a prior and some rules.

## Main results

* `perm_shuffle` — a list in random order has the same elements.
* `perm_flatten_batches`, `narrow_of_mem_batches` — **every rule is dealt out, and tables of several
  rules are narrow.**
* `batches_eq` — narrow rules are dealt out to one table.
* `Registry.makeFactors_error`, `Registry.makeFactors_eq` — **the tables of a consequent, unless a
  rule is too wide.**
-/

namespace FactNet

open Scalar RuleTable

/-! ### Random order -/

section Shuffle

variable {σ β : Type} [RandomChoice σ]

theorem perm_swapIfInBounds (xs : Array β) (i j : Nat) :
    (xs.swapIfInBounds i j).toList.Perm xs.toList := by
  unfold Array.swapIfInBounds
  split
  · split
    · exact (Array.swap_perm _ _).toList
    · exact List.Perm.refl _
  · exact List.Perm.refl _

theorem perm_shuffleArray (n : Nat) (xs : Array β) (s : σ) :
    (RandomChoice.shuffleArray n xs s).1.toList.Perm xs.toList := by
  induction n generalizing xs s with
  | zero => exact List.Perm.refl _
  | succ n ih =>
    unfold RandomChoice.shuffleArray
    split
    · exact List.Perm.refl _
    · exact (ih _ _).trans (perm_swapIfInBounds xs _ _)

/-- A list in random order has the same elements. -/
theorem perm_shuffle (xs : List β) (s : σ) : (RandomChoice.shuffle xs s).Perm xs :=
  perm_shuffleArray xs.length xs.toArray s

end Shuffle

/-! ### Dealing -/

section Dealing

variable {α : Type}

/-- How many antecedents rules have. -/
def width (rules : List (GroundedRule α)) : Nat := (antecedentsOf rules).length

theorem width_eq (rules : List (GroundedRule α)) :
    width rules = (rules.flatMap (·.antecedents)).eraseDups.length :=
  (perm_eraseDups fun _ => List.mem_mergeSort).length_eq

theorem width_mono {rules rules' : List (GroundedRule α)} (h : rules ⊆ rules') :
    width rules ≤ width rules' := by
  rw [width_eq, width_eq]
  refine (List.Nodup.subperm (nodup_eraseDups _) fun a ha => ?_).length_le
  obtain ⟨r, hr, ha⟩ := List.mem_flatMap.1 (List.mem_eraseDups.1 ha)
  exact List.mem_eraseDups.2 (List.mem_flatMap.2 ⟨r, h hr, ha⟩)

/-- Antecedents are those of a batch. -/
def Lists (antecedents : List Nat) (batch : List (GroundedRule α)) : Prop :=
  ∀ a, a ∈ antecedents ↔ ∃ r ∈ batch, a ∈ r.antecedents

theorem Lists.concat {antecedents : List Nat} {batch : List (GroundedRule α)}
    (h : Lists antecedents batch) (g : GroundedRule α) :
    Lists (antecedents ++ g.antecedents).eraseDups (batch ++ [g]) := by
  intro a
  rw [List.mem_eraseDups, List.mem_append, h a]
  simp [or_and_right, exists_or]

theorem Lists.singleton (g : GroundedRule α) : Lists g.antecedents.eraseDups [g] := by
  intro a
  simp [List.mem_eraseDups]

theorem Lists.length_eq {antecedents : List Nat} {batch : List (GroundedRule α)}
    (h : Lists antecedents batch) (hnodup : antecedents.Nodup) :
    antecedents.length = width batch := by
  rw [width_eq, ← eraseDups_eq_self hnodup]
  exact (perm_eraseDups fun a => by rw [h a, List.mem_flatMap]).length_eq

/-- Every rule is dealt out. -/
theorem flatten_dealFrom (batch : List (GroundedRule α)) (antecedents : List Nat)
    (rules : List (GroundedRule α)) :
    (dealFrom batch antecedents rules).flatten = batch ++ rules := by
  induction rules generalizing batch antecedents with
  | nil => cases batch <;> simp [dealFrom]
  | cons g rules ih =>
    simp only [dealFrom]
    split
    · rw [List.flatten_cons, ih, List.singleton_append]
    · rw [ih, List.append_assoc, List.singleton_append]

/-- **A batch of several rules is narrow**, where the one that was begun is. -/
theorem narrow_of_mem_dealFrom {batch : List (GroundedRule α)} {antecedents : List Nat}
    (h : Lists antecedents batch) (hbatch : width batch ≤ mostAntecedents ∨ batch.length = 1)
    {rules b : List (GroundedRule α)} (hb : b ∈ dealFrom batch antecedents rules) :
    width b ≤ mostAntecedents ∨ b.length = 1 := by
  induction rules generalizing batch antecedents with
  | nil =>
    rw [dealFrom] at hb
    split at hb
    · cases hb
    · rwa [List.mem_singleton.1 hb]
  | cons g rules ih =>
    simp only [dealFrom] at hb
    split at hb
    · rcases List.mem_cons.1 hb with rfl | hb
      · exact hbatch
      · exact ih (Lists.singleton g) (.inr rfl) hb
    · next hjoins =>
      refine ih (h.concat g) ?_ hb
      cases batch with
      | nil => exact .inr rfl
      | cons r batch =>
        rw [(h.concat g).length_eq (nodup_eraseDups _)] at hjoins
        exact .inl (by simpa using hjoins)

/-- Narrow rules join one batch. -/
theorem dealFrom_eq {batch : List (GroundedRule α)} {antecedents : List Nat}
    (h : Lists antecedents batch) {rules : List (GroundedRule α)}
    (hwidth : width (batch ++ rules) ≤ mostAntecedents) (hne : batch ++ rules ≠ []) :
    dealFrom batch antecedents rules = [batch ++ rules] := by
  induction rules generalizing batch antecedents with
  | nil =>
    rw [List.append_nil] at hne ⊢
    rw [dealFrom, if_neg (by simpa using hne)]
  | cons g rules ih =>
    have hassoc : batch ++ g :: rules = batch ++ [g] ++ rules := by simp
    have hjoins : width (batch ++ [g]) ≤ mostAntecedents := by
      refine (width_mono ?_).trans hwidth
      rw [hassoc]
      exact List.subset_append_left _ _
    simp only [dealFrom]
    rw [(h.concat g).length_eq (nodup_eraseDups _), if_neg (by simp [hjoins]), hassoc]
    rw [hassoc] at hwidth hne
    exact ih (h.concat g) hwidth hne

theorem lists_nil : Lists [] ([] : List (GroundedRule α)) := by
  intro a
  simp

/-- **Every rule is dealt out.** -/
theorem perm_flatten_batches (rules : List (GroundedRule α)) :
    (batches rules).flatten.Perm rules := by
  rw [batches, flatten_dealFrom, List.nil_append]
  exact perm_shuffle rules _

/-- **A batch of several rules is narrow.** -/
theorem narrow_of_mem_batches {rules b : List (GroundedRule α)} (h : b ∈ batches rules) :
    width b ≤ mostAntecedents ∨ b.length = 1 :=
  narrow_of_mem_dealFrom lists_nil (.inl (by simp [width_eq])) h

/-- Narrow rules are dealt out to one table. -/
theorem batches_eq {rules : List (GroundedRule α)} (hwidth : width rules ≤ mostAntecedents)
    (hne : rules ≠ []) : ∃ batch, batches rules = [batch] ∧ batch.Perm rules := by
  have hperm := perm_shuffle rules (MersenneTwister.ofSeed dealingSeed)
  refine ⟨RandomChoice.shuffle rules (MersenneTwister.ofSeed dealingSeed), ?_, hperm⟩
  refine dealFrom_eq lists_nil ?_ ?_
  · exact (width_mono hperm.subset).trans hwidth
  · rw [List.nil_append]
    exact fun hnil => hne (List.perm_nil.1 (hnil ▸ hperm).symm)

end Dealing

/-! ### Tables of a consequent -/

/-- Grounded rules of one consequent whose log-probabilities are those of probabilities, and no prior
of which excludes it. -/
structure AreSound (c : Nat) (rules : List (GroundedRule EReal)) : Prop where
  consequent : ∀ r ∈ rules, r.consequent = c
  isProb : ∀ r ∈ rules, r.IsProb
  ne_bot : ∀ r ∈ rules, r.isUnit = true → r.ifTrue ≠ ⊥

namespace Registry

/-- The table of a prior and some rules. -/
def tableWith {α : Type} (r : Registry α) (prior : GroundedRule α)
    (batch : List (GroundedRule α)) : RuleTable α :=
  ⟨prior, mostSpecificFirst (prior :: batch), r.method, antecedentsOf (prior :: batch)⟩

theorem mem_rows_tableWith {α : Type} {r : Registry α} {prior g : GroundedRule α}
    {batch : List (GroundedRule α)} :
    g ∈ (r.tableWith prior batch).rows ↔ g = prior ∨ g ∈ batch :=
  mem_mostSpecificFirst.trans List.mem_cons

theorem perm_rows_tableWith {α : Type} (r : Registry α) (prior : GroundedRule α)
    (batch : List (GroundedRule α)) : (r.tableWith prior batch).rows.Perm (prior :: batch) :=
  List.mergeSort_perm _ _

theorem sorted_tableWith {α : Type} (r : Registry α) (prior : GroundedRule α)
    (batch : List (GroundedRule α)) : (r.tableWith prior batch).Sorted :=
  pairwise_mostSpecificFirst _

/-- The prior that is kept of some rules of a consequent. -/
def keptPrior {α : Type} [Scalar α] (r : Registry α) (c : Nat) (rules : List (GroundedRule α)) :
    GroundedRule α :=
  choosePrior (.default c r.defaultPrior) rules.eraseDups

/-- The rules of a consequent that are dealt out. -/
def dealt {α : Type} [Scalar α] (rules : List (GroundedRule α)) : List (GroundedRule α) :=
  rules.eraseDups.filter fun g => !g.isUnit

/-- The rules of each table of a consequent. -/
def groupsOf {α : Type} [Scalar α] (rules : List (GroundedRule α)) :
    List (List (GroundedRule α)) :=
  if (dealt rules).isEmpty then [[]] else batches (dealt rules)

/-- **Every rule is dealt out**, as often as it is there. -/
theorem perm_flatten_groupsOf {α : Type} [Scalar α] (rules : List (GroundedRule α)) :
    (groupsOf rules).flatten.Perm (dealt rules) := by
  rw [groupsOf]
  split
  · next hempty => rw [List.isEmpty_iff.1 hempty, List.flatten_singleton]
  · exact perm_flatten_batches _

/-- Of every rule with antecedents one with the same antecedents is dealt out. -/
theorem exists_mem_groupsOf {α : Type} [Scalar α] {rules : List (GroundedRule α)}
    {g : GroundedRule α} (hg : g ∈ rules) (hunit : g.isUnit = false) :
    ∃ b ∈ groupsOf rules, ∃ g' ∈ b, g'.antecedents = g.antecedents := by
  obtain ⟨g', hmem, hsame⟩ := exists_mem_eraseDups (fun _ _ => GroundedRule.antecedents_of_beq) hg
  have hdealt : g' ∈ dealt rules := by
    refine List.mem_filter.2 ⟨hmem, ?_⟩
    rw [GroundedRule.isUnit, hsame, ← GroundedRule.isUnit, hunit]
    rfl
  obtain ⟨b, hb, hgb⟩ := List.mem_flatten.1 ((perm_flatten_groupsOf rules).mem_iff.2 hdealt)
  exact ⟨b, hb, g', hgb, hsame⟩

theorem mem_dealt {rules : List (GroundedRule EReal)} {g : GroundedRule EReal} :
    g ∈ dealt rules ↔ g ∈ rules ∧ g.isUnit = false := by
  simp [dealt, List.mem_eraseDups]

/-- **Every rule is dealt out**, and nothing else. -/
theorem mem_groupsOf {rules : List (GroundedRule EReal)} {g : GroundedRule EReal} :
    (∃ b ∈ groupsOf rules, g ∈ b) ↔ g ∈ rules ∧ g.isUnit = false := by
  rw [← mem_dealt, ← (perm_flatten_groupsOf rules).mem_iff, List.mem_flatten]

theorem narrow_of_mem_groupsOf {α : Type} [Scalar α] {rules b : List (GroundedRule α)}
    (h : b ∈ groupsOf rules) : width b ≤ mostAntecedents ∨ b.length = 1 := by
  rw [groupsOf] at h
  split at h
  · rw [List.mem_singleton.1 h]
    exact .inl (by simp [width_eq])
  · exact narrow_of_mem_batches h

/-- Narrow rules come to one table. -/
theorem groupsOf_eq {rules : List (GroundedRule EReal)} (hwidth : width rules ≤ mostAntecedents) :
    ∃ batch, groupsOf rules = [batch] ∧ batch.Perm (dealt rules) := by
  rw [groupsOf]
  split
  · next hempty => exact ⟨[], rfl, by rw [List.isEmpty_iff.1 hempty]⟩
  · next hne =>
    refine batches_eq ((width_mono fun g hg => (mem_dealt.1 hg).1).trans hwidth) ?_
    simpa using hne

section Sound

variable {r : Registry EReal} {c : Nat} {rules : List (GroundedRule EReal)}

/-- The prior that is kept. -/
theorem keptPrior_spec (h : AreSound c rules) (h0 : 0 < r.defaultPrior) (h1 : r.defaultPrior < 1) :
    (r.keptPrior c rules).consequent = c ∧ (r.keptPrior c rules).IsProb ∧
      (r.keptPrior c rules).antecedents = [] ∧ (r.keptPrior c rules).ifTrue ≠ ⊥ := by
  refine ⟨?_, ?_, choosePrior_antecedents c r.defaultPrior rules.eraseDups, ?_⟩
  · rcases choosePrior_mem (.default c r.defaultPrior) rules.eraseDups with heq | ⟨hmem, -⟩
    · rw [keptPrior, heq]
      rfl
    · exact h.consequent _ (List.mem_eraseDups.1 hmem)
  · exact (isProb_rowsOf (fun g hg => h.isProb g (List.mem_eraseDups.1 hg)) h0.le h1.le).1
  · rcases choosePrior_mem (.default c r.defaultPrior) rules.eraseDups with heq | ⟨hmem, hunit⟩
    · have hlog : LogProb.ofProb r.defaultPrior ≠ ⊥ := by
        rw [LogProb.ofProb, if_neg (by simpa using h0), log_ereal, Ne, ENNReal.log_eq_bot_iff,
          EReal.toENNReal_eq_zero_iff]
        exact not_le.2 h0
      rw [keptPrior, heq]
      exact hlog
    · exact h.ne_bot _ (List.mem_eraseDups.1 hmem) hunit

theorem isUnit_of_antecedents {g : GroundedRule EReal} (h : g.antecedents = []) :
    g.isUnit = true := by
  rw [GroundedRule.isUnit, h]
  rfl

/-- **Of the prior and rules that were dealt out the prior is kept again.** -/
theorem ofRules_tableWith (h : AreSound c rules) (h0 : 0 < r.defaultPrior) (h1 : r.defaultPrior < 1)
    {b : List (GroundedRule EReal)} (hb : b ∈ groupsOf rules) :
    RuleTable.ofRules (r.keptPrior c rules :: b) r.method r.defaultPrior =
      .ok (r.tableWith (r.keptPrior c rules) b) := by
  obtain ⟨hconsequent, -, hnil, hreal⟩ := keptPrior_spec h h0 h1
  have hunit := isUnit_of_antecedents hnil
  have hbatch : ∀ g ∈ b, g ∈ rules ∧ g.isUnit = false := fun g hg =>
    mem_groupsOf.1 ⟨b, hb, hg⟩
  have hnotUnit : ∀ g ∈ b, g.isUnit ≠ true := fun g hg =>
    Bool.eq_false_iff.1 (hbatch g hg).2
  have hc : ∀ g ∈ r.keptPrior c rules :: b, g.consequent = c :=
    List.forall_mem_cons.2 ⟨hconsequent, fun g hg => h.consequent g (hbatch g hg).1⟩
  -- no rule of a batch is a prior, so there is only one to choose
  have hkept : choosePrior (.default c r.defaultPrior) (r.keptPrior c rules :: b) =
      r.keptPrior c rules := by
    have hall : ∀ g ∈ r.keptPrior c rules :: b, g.isUnit = true → True := fun _ _ _ => trivial
    rcases choosePrior_spec (comparable_ereal fun _ => True) hall (.default c r.defaultPrior) with
      ⟨-, hnone⟩ | ⟨hmem, hunit', -⟩
    · exact absurd (bot_lt_iff_ne_bot.2 hreal) (hnone _ List.mem_cons_self hunit)
    · rcases List.mem_cons.1 hmem with heq | hmem
      · exact heq
      · exact absurd hunit' (hnotUnit _ hmem)
  have hothers : (r.keptPrior c rules :: b).filter (fun g => !g.isUnit) = b := by
    rw [List.filter_cons_of_neg (by simp [hunit]), List.filter_eq_self]
    exact fun g hg => by simp [(hbatch g hg).2]
  rw [ofRules_eq (by simp) hc, rowsOf, hkept, hothers]
  rfl

/-- The prior and a batch make a table. -/
theorem tableOf_eq (h : AreSound c rules) (h0 : 0 < r.defaultPrior) (h1 : r.defaultPrior < 1)
    (text : String) {b : List (GroundedRule EReal)} (hb : b ∈ groupsOf rules)
    (hwidth : width b < tableCeiling) :
    r.tableOf text (r.keptPrior c rules :: b) =
      .ok (.eager (.listed (r.tableWith (r.keptPrior c rules) b))) := by
  have hsame : width (r.keptPrior c rules :: b) = width b := by
    rw [width_eq, width_eq, List.flatMap_cons, (keptPrior_spec h h0 h1).2.2.1, List.nil_append]
  have hnarrow : (r.tableWith (r.keptPrior c rules) b).antecedents.length < tableCeiling := by
    rw [← hsame] at hwidth
    exact hwidth
  rw [tableOf, if_neg (by rw [← width, hsame]; exact Nat.not_le.2 hwidth), EagerTable.ofRules,
    ofRules_tableWith h h0 h1 hb]
  dsimp only
  rw [EagerTable.ofTable_ereal hnarrow]

/-- The prior of a consequent is kept and its rules are dealt out. -/
theorem makeFactors_eq_mapM {α : Type} [Scalar α] {r : Registry α} {c : Nat}
    {rules : List (GroundedRule α)} (h : ∀ g ∈ rules, g.consequent = c) (hne : rules ≠ [])
    (text : String) :
    r.makeFactors text rules =
      ((groupsOf rules).mapM fun b => r.tableOf text (r.keptPrior c rules :: b)).map fun fs =>
        .factors (r.keptPrior c rules) fs := by
  obtain ⟨g, rest, heq⟩ := List.exists_cons_of_ne_nil hne
  have hg : g.consequent = c := h g (heq ▸ List.mem_cons_self)
  have hcons : rules.eraseDups = g :: (rest.filter fun x => !x == g).eraseDups := by
    rw [heq, List.eraseDups_cons]
  unfold makeFactors cleanPriors keptPrior groupsOf dealt
  rw [hcons]
  dsimp only
  rw [hg]

/-- **No table is made where a rule is too wide.** -/
theorem makeFactors_error {α : Type} [Scalar α] {r : Registry α} {c : Nat}
    {rules : List (GroundedRule α)} (h : ∀ g ∈ rules, g.consequent = c) (text : String)
    {g : GroundedRule α} (hg : g ∈ rules) (hwide : tableCeiling ≤ width [g]) :
    ∃ e, r.makeFactors text rules = .error e := by
  have hunit : g.isUnit = false := by
    by_contra hunit
    rw [Bool.not_eq_false, GroundedRule.isUnit, List.isEmpty_iff] at hunit
    rw [width_eq, List.flatMap_singleton, hunit] at hwide
    exact absurd hwide (by decide)
  obtain ⟨b, hb, g', hgb, hsame⟩ := exists_mem_groupsOf hg hunit
  have hwidth : width [g] = width [g'] := by
    rw [width_eq, width_eq, List.flatMap_singleton, List.flatMap_singleton, hsame]
  have hle : tableCeiling ≤ width (r.keptPrior c rules :: b) :=
    (hwidth ▸ hwide).trans (width_mono (by simp [hgb]))
  have herror : r.tableOf text (r.keptPrior c rules :: b) =
      .error (.tooWide text (width (r.keptPrior c rules :: b))) := if_pos hle
  obtain ⟨e, he⟩ :=
    mapM_eq_error (f := fun b => r.tableOf text (r.keptPrior c rules :: b)) hb herror
  exact ⟨e, by rw [makeFactors_eq_mapM h (List.ne_nil_of_mem hg), he]; rfl⟩

/-- **The tables of a consequent no rule of which is too wide.** -/
theorem makeFactors_eq (h : AreSound c rules) (h0 : 0 < r.defaultPrior) (h1 : r.defaultPrior < 1)
    (hne : rules ≠ []) (text : String) (hwidth : ∀ g ∈ rules, width [g] < tableCeiling) :
    r.makeFactors text rules = .ok (.factors (r.keptPrior c rules)
      ((groupsOf rules).map fun b => .eager (.listed (r.tableWith (r.keptPrior c rules) b)))) := by
  have hgroups : ∀ b ∈ groupsOf rules, r.tableOf text (r.keptPrior c rules :: b) =
      .ok (.eager (.listed (r.tableWith (r.keptPrior c rules) b))) := by
    intro b hb
    refine tableOf_eq h h0 h1 text hb ?_
    rcases narrow_of_mem_groupsOf hb with hnarrow | hone
    · exact hnarrow.trans_lt (by decide)
    · obtain ⟨g, rfl⟩ := List.length_eq_one_iff.1 hone
      exact hwidth g (mem_groupsOf.1 ⟨[g], hb, List.mem_singleton_self g⟩).1
  rw [makeFactors_eq_mapM h.consequent hne, mapM_eq_ok hgroups]
  rfl

end Sound

end Registry

end FactNet
