import Mathlib
import FactNet.Proofs.Distinct
import FactNet.Proofs.Factor.Locality
import FactNet.Proofs.Greatest

/-!
# Patterns of antecedents

The values of the antecedents of a table, read as the bits of a number, are the place of an entry.
Reading the bits back gives the values again, so a place stands for one combination of values, and
every place below the number of combinations is one.

## Main results

* `RuleTable.pattern_lt` — a pattern is a place among all combinations.
* `RuleTable.ofPattern_pattern` — **the bits of a pattern are the values it was made of.**
* `RuleTable.pattern_ofPattern` — every place is the pattern of its bits.
* `RuleTable.choosePrior_eq` — choosing a prior is keeping the greatest.
* `RuleTable.ofRules_eq` — **rules of one consequent form a table of their antecedents.**
* `RuleTable.active_ofPattern`, `RuleTable.active_eq_of_key_eq` — **the pattern tells which rules
  count.**
-/

namespace FactNet.RuleTable

theorem pattern_concat (as : List Nat) (a : Nat) (v : Valuation) :
    pattern (as ++ [a]) v = 2 * pattern as v + (v a).toNat := by
  simp [pattern]

/-- A pattern is a place among all combinations. -/
theorem pattern_lt (as : List Nat) (v : Valuation) : pattern as v < 2 ^ as.length := by
  induction as using List.reverseRecOn with
  | nil => simp [pattern]
  | append_singleton as a ih =>
    rw [pattern_concat, List.length_append, List.length_singleton, Nat.pow_succ]
    have := Bool.toNat_lt (v a)
    omega

/-- The bits of a pattern, from the highest to the lowest, are the values in order. -/
theorem testBit_pattern (as : List Nat) (v : Valuation) {i : Nat} (h : i < as.length) :
    (pattern as v).testBit (as.length - 1 - i) = v as[i] := by
  induction as using List.reverseRecOn with
  | nil => exact absurd h (by simp)
  | append_singleton as a ih =>
    rw [pattern_concat]
    rcases Nat.lt_or_ge i as.length with hi | hi
    · -- an earlier value moved up by one place
      have hplace : (as ++ [a]).length - 1 - i = (as.length - 1 - i) + 1 := by
        simp
        omega
      have hhalf : (2 * pattern as v + (v a).toNat) / 2 = pattern as v := by
        have := Bool.toNat_lt (v a)
        omega
      rw [hplace, Nat.testBit_succ, hhalf, ih hi, List.getElem_append_left hi]
    · obtain rfl : i = as.length := by
        simp at h
        omega
      have hplace : (as ++ [a]).length - 1 - as.length = 0 := by simp
      rw [hplace, Nat.testBit_zero, List.getElem_concat_length rfl]
      cases v a <;> simp

/-- **The bits of a pattern are the values it was made of.** -/
theorem ofPattern_pattern (as : List Nat) (v : Valuation) {a : Nat} (h : a ∈ as) :
    ofPattern as (pattern as v) a = v a := by
  unfold ofPattern
  cases hplace : as.idxOf? a with
  | none => exact absurd h (by simpa using hplace)
  | some i =>
    obtain ⟨hi, ha, -⟩ := List.idxOf?_eq_some_iff.1 hplace
    rw [← ha, ← testBit_pattern as v hi]

/-- Every place among all combinations is the pattern of the values read off its bits. -/
theorem pattern_ofPattern {as : List Nat} (hnodup : as.Nodup) {bits : Nat}
    (h : bits < 2 ^ as.length) : pattern as (ofPattern as bits) = bits := by
  refine Nat.eq_of_testBit_eq fun j => ?_
  rcases Nat.lt_or_ge j as.length with hj | hj
  · have hi : as.length - 1 - j < as.length := by omega
    have hplace : as.length - 1 - (as.length - 1 - j) = j := by omega
    have hfirst : as.idxOf? as[as.length - 1 - j] = some (as.length - 1 - j) := by
      refine List.idxOf?_eq_some_iff.2 ⟨hi, rfl, fun k hk heq => ?_⟩
      exact absurd ((hnodup.getElem_inj_iff).1 heq) (Nat.ne_of_lt hk)
    rw [← hplace, testBit_pattern as _ hi, ofPattern, hfirst]
  · have hpow : 2 ^ as.length ≤ 2 ^ j := Nat.pow_le_pow_right (by decide) hj
    rw [Nat.testBit_lt_two_pow (Nat.lt_of_lt_of_le (pattern_lt as _) hpow),
      Nat.testBit_lt_two_pow (Nat.lt_of_lt_of_le h hpow)]

/-! ### The table of some rules -/

variable {α : Type} [Scalar α]

/-- Choosing a prior is keeping the greatest of the rules without antecedents. -/
theorem choosePrior_eq (other : GroundedRule α) (rules : List (GroundedRule α)) :
    choosePrior other rules =
      ((rules.filter (·.isUnit)).foldl (keepGreatest (·.ifTrue)) (Scalar.bottom, other)).2 := by
  rw [List.foldl_filter, choosePrior]
  congr 2
  funext kept r
  rw [keepGreatest]
  cases r.isUnit <;> simp

/-- The prior that is kept is one of the rules without antecedents, or the other one if none of them
is above the logarithm of zero. -/
theorem choosePrior_cases (other : GroundedRule α) (rules : List (GroundedRule α)) :
    (choosePrior other rules = other ∧ ∀ r ∈ rules, r.isUnit = true → ¬Scalar.bottom < r.ifTrue) ∨
      choosePrior other rules ∈ rules ∧ (choosePrior other rules).isUnit = true := by
  rw [choosePrior_eq]
  rcases foldl_keepGreatest_cases (·.ifTrue) (rules.filter (·.isUnit)) (Scalar.bottom, other) with
    ⟨hlast, hnone⟩ | ⟨-, hmem⟩
  · rw [hlast]
    exact .inl ⟨rfl, fun r hr hunit => hnone r (List.mem_filter.2 ⟨hr, hunit⟩)⟩
  · exact .inr (List.mem_filter.1 hmem)

theorem choosePrior_mem (other : GroundedRule α) (rules : List (GroundedRule α)) :
    choosePrior other rules = other ∨
      choosePrior other rules ∈ rules ∧ (choosePrior other rules).isUnit = true :=
  (choosePrior_cases other rules).imp_left And.left

theorem choosePrior_antecedents (c : Nat) (d : α) (rules : List (GroundedRule α)) :
    (choosePrior (.default c d) rules).antecedents = [] := by
  rcases choosePrior_mem (.default c d) rules with heq | ⟨-, hunit⟩
  · rw [heq]
    rfl
  · exact List.isEmpty_iff.1 hunit

omit [Scalar α] in
theorem mem_mostSpecificFirst {rules : List (GroundedRule α)} {r : GroundedRule α} :
    r ∈ mostSpecificFirst rules ↔ r ∈ rules :=
  List.mem_mergeSort

omit [Scalar α] in
/-- The antecedents of rules depend only on which there are. -/
theorem antecedentsOf_congr {rules rules' : List (GroundedRule α)}
    (h : ∀ a, (∃ r ∈ rules, a ∈ r.antecedents) ↔ ∃ r ∈ rules', a ∈ r.antecedents) :
    antecedentsOf rules = antecedentsOf rules' :=
  sort_eraseDups_congr fun a => by simpa using h a

/-- The rows of the table of some rules: the prior that is kept, and the rules with antecedents. -/
def rowsOf (c : Nat) (d : α) (rules : List (GroundedRule α)) : List (GroundedRule α) :=
  mostSpecificFirst (choosePrior (.default c d) rules :: rules.filter fun r => !r.isUnit)

theorem mem_rowsOf {c : Nat} {d : α} {rules : List (GroundedRule α)} {r : GroundedRule α} :
    r ∈ rowsOf c d rules ↔
      r = choosePrior (.default c d) rules ∨ r ∈ rules ∧ r.isUnit = false := by
  simp [rowsOf, mem_mostSpecificFirst]

theorem antecedentsOf_rowsOf (c : Nat) (d : α) (rules : List (GroundedRule α)) :
    antecedentsOf (rowsOf c d rules) = antecedentsOf rules := by
  refine antecedentsOf_congr fun a => ⟨?_, ?_⟩
  · rintro ⟨r, hr, ha⟩
    rcases mem_rowsOf.1 hr with rfl | ⟨hmem, -⟩
    · rw [choosePrior_antecedents] at ha
      exact absurd ha (by simp)
    · exact ⟨r, hmem, ha⟩
  · rintro ⟨r, hr, ha⟩
    refine ⟨r, mem_rowsOf.2 (.inr ⟨hr, ?_⟩), ha⟩
    rw [GroundedRule.isUnit, List.isEmpty_eq_false_iff]
    exact List.ne_nil_of_mem ha

/-- **Rules of one consequent form a table**: of their priors one is kept, and the antecedents are
theirs. -/
theorem ofRules_eq {rules : List (GroundedRule α)} {c : Nat} (hne : rules ≠ [])
    (hc : ∀ r ∈ rules, r.consequent = c) (m : MergeMethod) (d : α) :
    ofRules rules m d = .ok
      ⟨choosePrior (.default c d) rules, rowsOf c d rules, m, antecedentsOf rules⟩ := by
  obtain ⟨r, rest, rfl⟩ := List.exists_cons_of_ne_nil hne
  have hr : r.consequent = c := hc r (by simp)
  have hprior : (choosePrior (.default c d) (r :: rest)).consequent = c := by
    rcases choosePrior_mem (.default c d) (r :: rest) with heq | ⟨hmem, -⟩
    · rw [heq]
      rfl
    · exact hc _ hmem
  have hsame : (rowsOf c d (r :: rest)).find? (fun s =>
      s.consequent != (choosePrior (.default c d) (r :: rest)).consequent) = none := by
    refine List.find?_eq_none.2 fun s hs => ?_
    rcases mem_rowsOf.1 hs with rfl | ⟨hmem, -⟩
    · simp
    · simp [hc s hmem, hprior]
  have hrows : rowsOf c d (r :: rest) = mostSpecificFirst (choosePrior
      (.default r.consequent d) (r :: rest) :: (r :: rest).filter fun r => !r.isUnit) := by
    rw [hr, rowsOf]
  rw [ofRules, cleanPriors]
  simp only [← hrows]
  rw [hr, hsame, antecedentsOf_rowsOf]

/-- The rules that count are told by the bits of the pattern. -/
theorem active_ofPattern {rules : List (GroundedRule α)} {m : MergeMethod} {d : α}
    {t : RuleTable α} (h : ofRules rules m d = .ok t) (v : Valuation) :
    t.active (ofPattern t.antecedents (t.key v)) = t.active v := by
  refine active_congr fun r hr a ha => ofPattern_pattern t.antecedents v ?_
  rw [antecedents_of_ofRules h]
  exact mem_antecedentsOf.2 ⟨r, hr, ha⟩

/-- Where one pattern is read, the same rules count. -/
theorem active_eq_of_key_eq {rules : List (GroundedRule α)} {m : MergeMethod} {d : α}
    {t : RuleTable α} (h : ofRules rules m d = .ok t) {v v' : Valuation}
    (hkey : t.key v = t.key v') : t.active v = t.active v' := by
  rw [← active_ofPattern h v, hkey, active_ofPattern h v']

end FactNet.RuleTable
