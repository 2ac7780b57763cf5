import FactNet.Proofs.Factor.Bounds
import FactNet.Proofs.Factor.Sharing

/-!
# The two kinds of tables are one function

A table that computes its entries when they are asked for and a table that has all of them listed
give every world the same log-probability: the entry for the values of the antecedents where the
consequent is true, and the logarithm of one minus its exponential where it is false.  For the
first kind this holds whatever it has come to remember, however its askers' steps were mixed.

## Main definitions

* `RuleTable.exactLogProb` — the log-probability that a table stands for.
* `RuleTable.Reached` — the worlds that give every variable of a table a value.

## Main results

* `RuleTable.answer_ereal` — a table that remembers nothing gives it.
* `EagerTable.logProb?_ereal` — a table with all entries listed gives it.
* `Factor.logProb?_eq` — a factor has a value in every world that reaches its variables.
* `RuleTable.lazy_eq_eager` — **shared and listed tables give it, and every key has its place.**
-/

namespace FactNet

open Scalar

namespace RuleTable

/-- The log-probability that a table stands for: that of the entry where the consequent is true,
and that of one minus its exponential where it is false. -/
noncomputable def exactLogProb (t : RuleTable EReal) (w : World) : EReal :=
  if w.value t.consequent then t.entry w.value
  else ENNReal.log (1 - EReal.exp (t.entry w.value))

/-- A world gives every variable of a table a value. -/
def Reached {α : Type} (t : RuleTable α) (w : World) : Prop := ∀ i ∈ t.components, i < w.size

theorem Reached.readKey {α : Type} {t : RuleTable α} {w : World} (h : t.Reached w) :
    t.readKey w = .ok (t.key w.value) := by
  have hall : (t.antecedents.all fun a => decide (a < w.size)) = true :=
    List.all_eq_true.2 fun a ha => decide_eq_true (h a (mem_components.2 (.inr ha)))
  rw [RuleTable.readKey, if_pos hall]

theorem Reached.value? {α : Type} {t : RuleTable α} {w : World} (h : t.Reached w) :
    w.value? t.consequent = .ok (w.value t.consequent) := by
  have hsize : t.consequent < w.size := h t.consequent (mem_components.2 (.inl rfl))
  simp [World.value?, World.value, hsize]

/-- No exponential is too large. -/
theorem entryOverflows_ereal (t : RuleTable EReal) (v : Valuation) :
    t.entryOverflows v = false := by
  unfold entryOverflows MergeMethod.overflows
  cases t.method <;> rfl

/-- The rows of the table of rules that are probabilities are probabilities. -/
theorem isProb_rowsOf {rules : List (GroundedRule EReal)} {c : Nat} {d : EReal}
    (h : ∀ r ∈ rules, r.IsProb) (h0 : 0 ≤ d) (h1 : d ≤ 1) :
    (choosePrior (.default c d) rules).IsProb ∧ ∀ r ∈ rowsOf c d rules, r.IsProb := by
  have hprior : (choosePrior (.default c d) rules).IsProb := by
    rcases choosePrior_mem (.default c d) rules with heq | ⟨hmem, -⟩
    · rw [heq]
      exact GroundedRule.default_isProb c h0 h1
    · exact h _ hmem
  refine ⟨hprior, fun r hr => ?_⟩
  rcases mem_rowsOf.1 hr with rfl | ⟨hmem, -⟩
  · exact hprior
  · exact h r hmem

/-- **A table that remembers nothing gives the log-probability that it stands for.** -/
theorem answer_ereal {t : RuleTable EReal} {w : World} (hentry : t.entry w.value ≤ 0)
    (h : t.Reached w) : t.answer w = .ok (t.exactLogProb w) := by
  rw [answer, h.readKey]
  dsimp only
  rw [if_neg (by simp [entryOverflows_ereal]), reply, h.value?, exactLogProb,
    LogProb.complement_ereal hentry]

end RuleTable

namespace EagerTable

/-- All entries of a table that is not too wide, and the logarithms of one minus their
exponentials. -/
noncomputable def listed (t : RuleTable EReal) : EagerTable EReal :=
  let entries := (List.range (1 <<< t.antecedents.length)).map fun bits =>
    t.entry (RuleTable.ofPattern t.antecedents bits)
  ⟨t, entries.toArray, (entries.map complement).toArray⟩

theorem ofTable_ereal {t : RuleTable EReal} (h : t.antecedents.length < tableCeiling) :
    ofTable t = .ok (listed t) := by
  unfold ofTable
  dsimp only
  rw [if_neg (by omega), if_neg (by simp [RuleTable.entryOverflows_ereal])]
  rfl

theorem size_listed (t : RuleTable EReal) :
    (listed t).ifTrue.size = 2 ^ t.antecedents.length ∧
      (listed t).ifFalse.size = 2 ^ t.antecedents.length := by
  simp [listed, Nat.shiftLeft_eq]

/-- **A table with all entries listed gives the log-probability that it stands for.** -/
theorem logProb?_ereal {rules : List (GroundedRule EReal)} {m : MergeMethod} {d : EReal}
    {t : RuleTable EReal} (ht : RuleTable.ofRules rules m d = .ok t) {w : World}
    (h : t.Reached w) : (listed t).logProb? w = .ok (t.exactLogProb w) := by
  have hplace : t.key w.value < 1 <<< t.antecedents.length := by
    rw [Nat.shiftLeft_eq, Nat.one_mul]
    exact RuleTable.pattern_lt t.antecedents w.value
  have hentry : t.entry (RuleTable.ofPattern t.antecedents (t.key w.value)) = t.entry w.value := by
    rw [RuleTable.entry, RuleTable.entry, RuleTable.active_ofPattern ht]
  have htrue : (listed t).ifTrue.getD (t.key w.value) bottom = t.entry w.value := by
    simp [listed, hplace, hentry]
  have hfalse : (listed t).ifFalse.getD (t.key w.value) bottom =
      ENNReal.log (1 - EReal.exp (t.entry w.value)) := by
    simp [listed, hplace, hentry, complement_ereal]
  have hvalue : (listed t).logProb w = if w.value t.consequent then
      (listed t).ifTrue.getD (t.key w.value) bottom
      else (listed t).ifFalse.getD (t.key w.value) bottom := rfl
  have htable : (listed t).table = t := rfl
  rw [logProb?, htable, h.readKey, h.value?]
  dsimp only
  rw [hvalue, htrue, hfalse, RuleTable.exactLogProb]

end EagerTable

namespace Factor

/-- Variables that are all reached are read to the first that does not hold. -/
theorem allHold?_eq {w : World} {is : List Nat} (h : ∀ i ∈ is, i < w.size) :
    allHold? w is = .ok (is.all w.value) := by
  induction is with
  | nil => rfl
  | cons i is ih =>
    obtain ⟨hi, his⟩ := List.forall_mem_cons.1 h
    have hvalue : w.value? i = .ok (w.value i) := by simp [World.value?, World.value, hi]
    rw [allHold?, hvalue, List.all_cons]
    cases w.value i with
    | true => exact ih his
    | false => rfl

/-- **A factor has a value in every world that reaches its variables.** -/
theorem logProb?_eq {f : Factor EReal} {w : World} (h : ∀ i ∈ f.components, i < w.size) :
    f.logProb? w = .ok (f.logProb w) := by
  cases f with
  | entailment r =>
    have hvalue : w.value? r.consequent = .ok (w.value r.consequent) := by
      simp [World.value?, World.value, h _ (GroundedRule.mem_components.2 (.inl rfl))]
    rw [logProb?, allHold?_eq fun a ha => h a (GroundedRule.mem_components.2 (.inr ha)), logProb,
      GroundedRule.holds, hvalue]
    cases r.antecedents.all w.value <;> rfl
  | table t =>
    have hreached : t.Reached w := h
    simp [logProb?, logProb, TableCache.logProb?, TableCache.entry?, TableCache.remember,
      TableCache.lookup?, hreached.readKey, hreached.value?, RuleTable.entryOverflows_ereal]
  | eager t =>
    have hreached : t.table.Reached w := h
    rw [logProb?, EagerTable.logProb?, hreached.readKey, hreached.value?]
    rfl

end Factor

/-- What a sound cache answers is what its table answers without a memory. -/
theorem TableCache.Sound.logProb? {α : Type} [Scalar α] {c : TableCache α} (h : c.Sound)
    (htells : c.table.KeyTells) (w : World) : (c.logProb? w).1 = c.table.answer w := by
  have hfirst := Asker.step_sound h htells (a := .waiting w) trivial
  have htable := ((Asker.waiting w).step_world c).2.1
  have hsecond := Asker.step_sound hfirst.2 (by rwa [htable]) (by rw [htable]; exact hfirst.1)
  rw [c.logProb?_eq_steps w, htable] at hsecond
  exact hsecond.1

/-- **The two kinds of tables are one function.**  Rules of one consequent whose logarithms are those
of probabilities, with fewer than sixteen antecedents, make a table of either kind.  However the
askers of a shared table of the first kind take their steps, every answer that one of them has is
the log-probability that the table stands for, each has one after two steps, and so has whoever
asks next.  A table of the second kind gives the same, and the key of every valuation is a place
among its entries. -/
theorem RuleTable.lazy_eq_eager {rules : List (GroundedRule EReal)} {c : Nat} (hne : rules ≠ [])
    (hc : ∀ r ∈ rules, r.consequent = c) (hprob : ∀ r ∈ rules, r.ifTrue ≤ 0 ∧ r.ifFalse ≤ 0)
    (hwidth : (antecedentsOf rules).length < 16) (m : MergeMethod) {d : EReal} (h0 : 0 < d)
    (h1 : d < 1) :
    ∃ t e, ofRules rules m d = .ok t ∧ EagerTable.ofRules rules m d = .ok e ∧
      (∀ worlds : List World, (∀ w ∈ worlds, t.Reached w) → ∀ schedule : List Nat,
        (∀ (i : Nat) w answer,
          ((Sharing.start t worlds).run schedule).askers[i]? = some (Asker.answered w answer) →
            worlds[i]? = some w ∧ answer = .ok (t.exactLogProb w)) ∧
        (∀ (i : Nat) w, worlds[i]? = some w → 2 ≤ schedule.count i →
          ((Sharing.start t worlds).run schedule).askers[i]? =
            some (Asker.answered w (.ok (t.exactLogProb w)))) ∧
        ∀ w, t.Reached w →
          (((Sharing.start t worlds).run schedule).cache.logProb? w).1 =
            .ok (t.exactLogProb w)) ∧
      (∀ w, t.Reached w → e.logProb? w = .ok (t.exactLogProb w)) ∧
      ∀ v, t.key v < e.ifTrue.size ∧ e.ifTrue.size = 2 ^ (antecedentsOf rules).length ∧
        e.ifFalse.size = 2 ^ (antecedentsOf rules).length := by
  have hmade := ofRules_eq hne hc m d
  have ⟨hprior, hrows⟩ := isProb_rowsOf (c := c) hprob h0.le h1.le
  generalize ht : (RuleTable.mk (choosePrior (.default c d) rules) (rowsOf c d rules) m
    (antecedentsOf rules)) = t at hmade
  have hentry : ∀ v, t.entry v ≤ 0 := by
    rw [← ht]
    exact entry_nonpos hprior hrows
  have hlength : t.antecedents.length = (antecedentsOf rules).length := by rw [← ht]
  have htells := keyTells_of_ofRules hmade
  have hsize := EagerTable.size_listed t
  refine ⟨t, EagerTable.listed t, hmade, ?_, fun worlds hworlds schedule => ⟨?_, ?_, ?_⟩,
    fun w hw => EagerTable.logProb?_ereal hmade hw, fun v => ⟨?_, ?_, ?_⟩⟩
  · rw [EagerTable.ofRules, hmade]
    exact EagerTable.ofTable_ereal (by rw [hlength]; exact hwidth)
  · intro i w answer hi
    obtain ⟨hworld, rfl⟩ := (Sharing.answers_of_run htells worlds schedule).1 i w answer hi
    exact ⟨hworld, answer_ereal (hentry _) (hworlds w (List.mem_of_getElem? hworld))⟩
  · intro i w hworld hcount
    rw [(Sharing.answers_of_run htells worlds schedule).2 i w hworld hcount,
      answer_ereal (hentry _) (hworlds w (List.mem_of_getElem? hworld))]
  · intro w hw
    have hsound := (Sharing.start_sound t worlds).run htells schedule
    rw [hsound.cache.logProb? (by rwa [hsound.table]), hsound.table, answer_ereal (hentry _) hw]
  · rw [hsize.1]
    exact pattern_lt t.antecedents v
  · rw [hsize.1, hlength]
  · rw [hsize.2, hlength]

/-- A rule that makes the variable 0 certain beside one that excludes it. -/
theorem RuleTable.lazy_eq_eager_sprinkler :
    ∃ (t : RuleTable EReal) (e : EagerTable EReal),
      ofRules [⟨"sprinkler", 0, ⊥, 0, [2, 1]⟩, ⟨"drought", ⊥, 0, 0, [1]⟩] .noisyOr
        ((1 / 2 : ℝ) : EReal) = .ok t ∧
      EagerTable.ofRules [⟨"sprinkler", 0, ⊥, 0, [2, 1]⟩, ⟨"drought", ⊥, 0, 0, [1]⟩] .noisyOr
        ((1 / 2 : ℝ) : EReal) = .ok e ∧
      (∀ w, t.Reached w → e.logProb? w = .ok (t.exactLogProb w)) ∧
      ∀ v, t.key v < e.ifTrue.size := by
  have hwidth : (antecedentsOf [(⟨"sprinkler", 0, ⊥, 0, [2, 1]⟩ : GroundedRule EReal),
      ⟨"drought", ⊥, 0, 0, [1]⟩]).length < 16 := by
    refine Nat.lt_of_le_of_lt (eraseDups_sublist _).length_le ?_
    rw [List.length_mergeSort]
    decide
  obtain ⟨t, e, ht, he, -, hlisted, hkey⟩ := lazy_eq_eager (c := 0) (by simp) (by simp) (by simp)
    hwidth .noisyOr (d := ((1 / 2 : ℝ) : EReal)) (by exact_mod_cast one_half_pos)
    (by exact_mod_cast one_half_lt_one)
  exact ⟨t, e, ht, he, hlisted, fun v => (hkey v).1⟩

end FactNet
