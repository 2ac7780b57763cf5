import FactNet.Proofs.Grounding.Tables
import FactNet.Proofs.Grounding.Uncertain

/-!
# What becomes of the batches

The rules of a consequent that is not fixed are told apart, shuffled and dealt out to tables, each
with the prior of the consequent.  So its factors have its rules with antecedents among their rows,
each of them once, and one prior in common; and building fails just where a single rule is too wide
for a table.

## Main definitions

* `BayesNet.factorsFor` — the factors of a consequent.
* `Registry.DealsOut` — the rules of a consequent are dealt out to factors.
* `Registry.Oversized` — a rule is too wide for a table.

## Main results

* `Registry.perm_rows_dealt` — the rows with antecedents are the rules that are dealt out.
* `Registry.dealsOut_of_mapM` — **the tables of the batches deal out the rules.**
* `Registry.Built.factorsFor_eq` — the factors of a variable are what its rules have become.
* `Registry.build_deals_out` — **dealing rules out loses nothing and fails just when it must.**
-/

namespace FactNet

open Scalar RuleTable

/-! ### Each element in one list -/

section Lists

variable {β γ : Type}

/-- If one element of some lists passes a test, one of the lists has an element that does. -/
theorem countP_any_eq_one {ls : List (List β)} {p : β → Bool} (h : ls.flatten.countP p = 1) :
    ls.countP (fun l => l.any p) = 1 := by
  have hnone : ∀ l : List β, l.countP p = 0 → l.any p = false := fun l hl =>
    List.any_eq_false.2 (List.countP_eq_zero.1 hl)
  induction ls with
  | nil => cases h
  | cons l ls ih =>
    rw [List.flatten_cons, List.countP_append] at h
    rcases Nat.add_eq_one_iff.1 h with ⟨hl, hls⟩ | ⟨hl, hls⟩
    · rw [List.countP_cons_of_neg (by rw [hnone l hl]; exact Bool.false_ne_true)]
      exact ih hls
    · obtain ⟨x, hx, hp⟩ := List.countP_pos_iff.1 (hl ▸ Nat.one_pos)
      have hfirst : l.any p = true := List.any_eq_true.2 ⟨x, hx, hp⟩
      have hlater : ∀ l' ∈ ls, ¬l'.any p = true := fun l' hl' => by
        have hle := (List.sublist_flatten_of_mem hl').countP_le (p := p)
        rw [hnone l' (Nat.eq_zero_of_le_zero (hls ▸ hle))]
        exact Bool.false_ne_true
      rw [List.countP_cons, hfirst, List.countP_eq_zero.2 hlater]
      rfl

/-- What is made of each element is told by its key. -/
theorem filter_flatMap_key [DecidableEq β] {xs : List β} {f : β → List γ} {key : γ → β}
    (hkey : ∀ x ∈ xs, ∀ y ∈ f x, key y = x) (hnodup : xs.Nodup) {x : β} (hx : x ∈ xs) :
    ((xs.flatMap f).filter fun y => key y == x) = f x := by
  induction xs with
  | nil => cases hx
  | cons z xs ih =>
    obtain ⟨hz, hxs⟩ := List.forall_mem_cons.1 hkey
    obtain ⟨hnew, hnodup⟩ := List.nodup_cons.1 hnodup
    rw [List.flatMap_cons, List.filter_append]
    rcases List.mem_cons.1 hx with rfl | hx
    · rw [List.filter_eq_self.2 fun y hy => beq_iff_eq.2 (hz y hy),
        List.filter_eq_nil_iff.2 fun y hy => ?_, List.append_nil]
      obtain ⟨x', hx', hy⟩ := List.mem_flatMap.1 hy
      rw [hxs x' hx' y hy, beq_iff_eq]
      exact fun heq => hnew (heq ▸ hx')
    · rw [List.filter_eq_nil_iff.2 fun y hy => ?_, List.nil_append, ih hxs hnodup hx]
      rw [hz y hy, beq_iff_eq]
      exact fun heq => hnew (heq ▸ hx)

end Lists

/-! ### Equal rules -/

instance {α : Type} [BEq α] [PartialEquivBEq α] : PartialEquivBEq (GroundedRule α) where
  symm {g g'} h := by
    change (g.name == g'.name && g.ifTrue == g'.ifTrue && g.ifFalse == g'.ifFalse
      && g.consequent == g'.consequent && g.antecedents == g'.antecedents) = true at h
    change (g'.name == g.name && g'.ifTrue == g.ifTrue && g'.ifFalse == g.ifFalse
      && g'.consequent == g.consequent && g'.antecedents == g.antecedents) = true
    simp only [Bool.and_eq_true] at h ⊢
    obtain ⟨⟨⟨⟨h₁, h₂⟩, h₃⟩, h₄⟩, h₅⟩ := h
    exact ⟨⟨⟨⟨BEq.symm h₁, BEq.symm h₂⟩, BEq.symm h₃⟩, BEq.symm h₄⟩, BEq.symm h₅⟩
  trans {g g' g''} h h' := by
    change (g.name == g'.name && g.ifTrue == g'.ifTrue && g.ifFalse == g'.ifFalse
      && g.consequent == g'.consequent && g.antecedents == g'.antecedents) = true at h
    change (g'.name == g''.name && g'.ifTrue == g''.ifTrue && g'.ifFalse == g''.ifFalse
      && g'.consequent == g''.consequent && g'.antecedents == g''.antecedents) = true at h'
    change (g.name == g''.name && g.ifTrue == g''.ifTrue && g.ifFalse == g''.ifFalse
      && g.consequent == g''.consequent && g.antecedents == g''.antecedents) = true
    simp only [Bool.and_eq_true] at h h' ⊢
    obtain ⟨⟨⟨⟨h₁, h₂⟩, h₃⟩, h₄⟩, h₅⟩ := h
    obtain ⟨⟨⟨⟨h₁', h₂'⟩, h₃'⟩, h₄'⟩, h₅'⟩ := h'
    exact ⟨⟨⟨⟨BEq.trans h₁ h₁', BEq.trans h₂ h₂'⟩, BEq.trans h₃ h₃'⟩, BEq.trans h₄ h₄'⟩,
      BEq.trans h₅ h₅'⟩

/-- What is told to be the same as a rule with antecedents has antecedents. -/
theorem GroundedRule.isUnit_of_beq {α : Type} [BEq α] {g g' : GroundedRule α}
    (hunit : g.isUnit = false) (h : (g == g') = true) : (!g'.isUnit) = true := by
  rw [isUnit, ← antecedents_of_beq h, ← isUnit, hunit]
  rfl

/-- Whether a rule with antecedents is there is told by those with antecedents. -/
theorem GroundedRule.contains_eq_any_filter {α : Type} [BEq α] {g : GroundedRule α}
    (hunit : g.isUnit = false) (rules : List (GroundedRule α)) :
    rules.contains g = (rules.filter fun g' => !g'.isUnit).any (g == ·) := by
  rw [List.contains_eq_any_beq, List.any_filter, Bool.eq_iff_iff, List.any_eq_true,
    List.any_eq_true]
  refine exists_congr fun g' => and_congr_right fun _ => ?_
  rw [Bool.and_eq_true]
  exact ⟨fun h => ⟨isUnit_of_beq hunit h, h⟩, And.right⟩

/-! ### The factors of a consequent -/

/-- The factors that a variable is the consequent of. -/
def BayesNet.factorsFor {α : Type} (net : BayesNet α) (i : Nat) : List (Factor α) :=
  net.factors.toList.filter fun f => f.consequent == i

section DealtOut

variable {α : Type} [Scalar α] [Numeral α]

/-- The rules of a consequent are dealt out to factors. -/
structure Registry.DealsOut (r : Registry α) (i : Nat) (fs : List (Factor α)) : Prop where
  /-- There is a factor, if only for the prior. -/
  ne_nil : fs ≠ []
  /-- Every factor is a table over the antecedents of its rows. -/
  eager : ∀ f ∈ fs, ∃ t : EagerTable α, f = .eager t ∧ t.table.antecedents.length = width f.rules
  /-- The rows with antecedents are together the distinct rules with antecedents. -/
  rows : (fs.flatMap fun f => f.rules.filter fun g => !g.isUnit).Perm
    ((r.rulesOf i).eraseDups.filter fun g => !g.isUnit)
  /-- A rule with antecedents is a row of one factor, if it is told to be itself. -/
  once : ∀ g ∈ r.rulesOf i, g.isUnit = false → (g == g) = true →
    fs.countP (fun f => f.rules.contains g) = 1
  /-- Every factor has one row without antecedents, the same one. -/
  prior : ∃ p : GroundedRule α, ∀ f ∈ fs, f.rules.filter (·.isUnit) = [p]
  /-- A factor of several rules has few antecedents. -/
  narrow : ∀ f ∈ fs, 2 ≤ (f.rules.filter fun g => !g.isUnit).length →
    width f.rules ≤ mostAntecedents

variable {r : Registry α} {net : BayesNet α} {i : Nat} {text : String} {fs : List (Factor α)}
  {g : GroundedRule α}

namespace Registry

omit [Numeral α] in
/-- A rule with antecedents is dealt out once. -/
theorem countP_dealt [PartialEquivBEq α] {rules : List (GroundedRule α)} (hg : g ∈ rules)
    (hunit : g.isUnit = false) (hself : (g == g) = true) :
    (dealt rules).countP (g == ·) = 1 := by
  rw [dealt, List.countP_filter, ← countP_eraseDups hg hself]
  refine List.countP_congr fun g' _ => ?_
  rw [Bool.and_eq_true]
  exact ⟨And.left, fun h => ⟨h, GroundedRule.isUnit_of_beq hunit h⟩⟩

/-- The rows of the factors are those of the tables of the batches. -/
theorem map_rules_eq
    (h : (groupsOf (r.rulesOf i)).mapM (fun b => r.tableOf text (r.priorAt i :: b)) = .ok fs) :
    fs.map Factor.rules = (groupsOf (r.rulesOf i)).map fun b => (r.batchTable i b).rows := by
  refine map_eq_map_of_mapM (fun b hb f hf => ?_) h
  obtain ⟨t, rfl, htable⟩ := eager_of_tableOf_batch hb hf
  rw [Factor.rules, htable]

/-- **The rows with antecedents are the rules that are dealt out.** -/
theorem perm_rows_dealt
    (h : (groupsOf (r.rulesOf i)).mapM (fun b => r.tableOf text (r.priorAt i :: b)) = .ok fs) :
    (fs.flatMap fun f => f.rules.filter fun g => !g.isUnit).Perm (dealt (r.rulesOf i)) := by
  have hrows : (fs.flatMap fun f => f.rules.filter fun g => !g.isUnit) =
      (groupsOf (r.rulesOf i)).flatMap fun b =>
        (r.batchTable i b).rows.filter fun g => !g.isUnit := by
    rw [← List.flatMap_map, map_rules_eq h, List.flatMap_map]
  rw [hrows]
  refine (List.Perm.flatMap_left _ fun b hb => (perm_filter_rows_batchTable hb).1).trans ?_
  rw [List.flatMap_id']
  exact perm_flatten_groupsOf _

/-- **The tables of the batches deal out the rules of a consequent.** -/
theorem dealsOut_of_mapM [PartialEquivBEq α]
    (h : (groupsOf (r.rulesOf i)).mapM (fun b => r.tableOf text (r.priorAt i :: b)) = .ok fs) :
    r.DealsOut i fs := by
  have hbatch : ∀ f ∈ fs, ∃ b ∈ groupsOf (r.rulesOf i), ∃ t : EagerTable α, f = .eager t ∧
      t.table = r.batchTable i b := by
    intro f hf
    obtain ⟨b, hb, htable⟩ := exists_of_mem_of_mapM h hf
    exact ⟨b, hb, eager_of_tableOf_batch hb htable⟩
  refine ⟨?_, fun f hf => ?_, perm_rows_dealt h, fun g hg hunit hself => ?_,
    ⟨r.sharedPrior i, fun f hf => ?_⟩, fun f hf hseveral => ?_⟩
  · obtain ⟨b, hb⟩ := List.exists_mem_of_ne_nil _ (groupsOf_ne_nil (r.rulesOf i))
    obtain ⟨f, hf, -⟩ := exists_of_mapM_eq_ok h hb
    exact List.ne_nil_of_mem hf
  · obtain ⟨b, hb, t, rfl, htable⟩ := hbatch f hf
    refine ⟨t, rfl, ?_⟩
    rw [Factor.rules, htable, width_rows_batchTable, length_antecedents_batchTable]
  · have hcount := countP_dealt hg hunit hself
    rw [← (perm_rows_dealt h).countP_eq, List.flatMap_def] at hcount
    rw [← countP_any_eq_one hcount, List.countP_map]
    exact List.countP_congr fun f _ => by
      rw [GroundedRule.contains_eq_any_filter hunit]
      rfl
  · obtain ⟨b, hb, t, rfl, htable⟩ := hbatch f hf
    rw [Factor.rules, htable, (perm_filter_rows_batchTable hb).2]
  · obtain ⟨b, hb, t, rfl, htable⟩ := hbatch f hf
    rw [Factor.rules, htable] at hseveral ⊢
    rw [(perm_filter_rows_batchTable hb).1.length_eq] at hseveral
    rw [width_rows_batchTable]
    exact (narrow_of_mem_groupsOf hb).resolve_right (by omega)

end Registry

end DealtOut

/-! ### Building -/

section Building

variable {α : Type} [Scalar α] [Numeral α] {r : Registry α} {net : BayesNet α} {notes : List Event}
  {i : Nat} {g : GroundedRule α}

namespace Registry

/-- **The factors of a variable are what its rules have become.** -/
theorem Built.factorsFor_eq (h : r.Built net) (hi : i ∈ r.consequents) :
    net.factorsFor i = (r.outcome i).factorsOf := by
  rw [BayesNet.factorsFor, h.factors]
  refine filter_flatMap_key (fun j hj f hf => ?_) (nodup_eraseDups _) hi
  have hfixed := fixedAt_of_mem_factorsOf (h.settled j hj) hf
  obtain ⟨b, hb, htable⟩ := exists_of_mem_of_mapM (mapM_of_settleAt hj (h.settled j hj) hfixed) hf
  obtain ⟨t, rfl, hformed⟩ := eager_of_tableOf_batch hb htable
  rw [Factor.consequent, hformed, RuleTable.consequent, prior_batchTable hb]
  exact consequent_sharedPrior r j

/-- A rule of a consequent that is not fixed has too many antecedents for a table. -/
structure Oversized (r : Registry α) (i : Nat) (g : GroundedRule α) : Prop where
  mem_consequents : i ∈ r.consequents
  fixedAt_eq : r.fixedAt i = none
  mem_rulesOf : g ∈ r.rulesOf i
  wide : tableCeiling ≤ width [g]

/-- **Dealing rules out loses nothing and fails just when it must.**

After every history every rule that is registered has its predicates declared, so all of them can be
grounded.  The rules of a consequent that is not fixed are dealt out to its factors: those with
antecedents, each once, are together the rows that have some, all factors have the same prior, and
those of several rules are narrow.

Nothing is built if a single rule is too wide, and where no exponential of what is not above zero
is too large, that is the only fault there is: it tells the literal and the antecedents of such a
rule. -/
theorem build_deals_out [PartialEquivBEq α] {method : MergeMethod} {d : α} {hillClimb : Bool}
    {threads : Int} (hcreate : create method d hillClimb threads = .ok r) (hthreads : 1 ≤ threads)
    (history : List (Registration α)) :
    (∀ rule ∈ (r.after history).rules, (r.after history).Declares rule) ∧
    (∀ net notes, (r.after history).build = .ok (net, notes) →
      ∀ i ∈ (r.after history).consequents, (r.after history).fixedAt i = none →
        (r.after history).DealsOut i (net.factorsFor i)) ∧
    (StaysLow α →
      ((∃ e, (r.after history).build = .error e) ↔ ∃ i g, (r.after history).Oversized i g) ∧
      ∀ e, (r.after history).build = .error e → ∃ i g, (r.after history).Oversized i g ∧
        e = .tooWide ((((r.after history).groundAll.1.literals[i]?).map Literal.text).getD "")
          (width [g])) := by
  obtain ⟨h0, h1⟩ := bounds_of_create hcreate
  obtain rfl := eq_fresh_of_create hcreate
  have hafter := extends_after (fresh method d hillClimb threads) history
  refine ⟨((wellFormed_fresh method d hillClimb threads).after history).declares,
    fun net notes hbuild i hi hfixed => ?_, fun hlow => ?_⟩
  · have hbuilt := built_of_build hbuild
    rw [hbuilt.factorsFor_eq hi]
    exact dealsOut_of_mapM (mapM_of_settleAt hi (hbuilt.settled i hi) hfixed)
  · have hfault : ∀ e, ((fresh method d hillClimb threads).after history).build = .error e →
        ∃ i g, ((fresh method d hillClimb threads).after history).Oversized i g ∧ e = .tooWide
          (((((fresh method d hillClimb threads).after history).groundAll.1.literals[i]?).map
            Literal.text).getD "") (width [g]) := by
      intro e he
      obtain ⟨i, hi, hfixed, g, hg, hwide, heq⟩ := exists_wide_of_build hlow
        (hafter.defaultPrior_eq.symm ▸ h0) (hafter.defaultPrior_eq.symm ▸ h1)
        (hafter.threads_eq.symm ▸ hthreads) he
      exact ⟨i, g, ⟨hi, hfixed, hg, hwide⟩, heq⟩
    refine ⟨⟨fun ⟨e, he⟩ => ?_, fun ⟨i, g, h⟩ => ?_⟩, hfault⟩
    · obtain ⟨i, g, h, -⟩ := hfault e he
      exact ⟨i, g, h⟩
    · exact build_error_of_settleAt h.mem_consequents
        (settleAt_error h.fixedAt_eq h.mem_rulesOf h.wide)

/-- One parent makes one rule, which comes to one factor with the default prior. -/
theorem build_deals_out_doubt : letI := unwritten
    let d : EReal := ((1 / 10 ^ 5 : ℝ) : EReal)
    let r := (fresh .geometricMean d false 1).after doubtHistory
    create .geometricMean d false 1 = .ok (fresh .geometricMean d false 1) ∧ StaysLow EReal ∧
      (¬∃ i g, r.Oversized i g) ∧ ∃ net notes, r.build = .ok (net, notes) ∧
        ∃ i ∈ r.consequents, r.fixedAt i = none ∧ r.DealsOut i (net.factorsFor i) := by
  let _ := unwritten
  intro d r
  obtain ⟨-, hcreate⟩ := create_doubt
  obtain ⟨net, notes, hbuild, f, hf, -⟩ := exists_default_doubt
  obtain ⟨-, hdeals, hfails⟩ := build_deals_out hcreate (by decide) doubtHistory
  obtain ⟨i, hi, hfixed, -⟩ := (built_of_build hbuild).rules_of_mem_factors hf
  refine ⟨hcreate, staysLow_ereal, fun hwide => ?_, net, notes, hbuild, i, hi, hfixed,
    hdeals net notes hbuild i hi hfixed⟩
  obtain ⟨e, he⟩ := (hfails staysLow_ereal).1.2 hwide
  rw [hbuild] at he
  cases he

end Registry

end Building

end FactNet
