import FactNet.Proofs.Grounding.Clauses

/-!
# Grounded rules and what they say

The variables of a grounded rule are numbers, and which number a literal has depends on the order
of registration.  Read with the literals that the numbers stand for, a grounded rule is an
implication between literals, and which implications there are depends on the clauses alone.

Numbers and literals stand for each other, so what grounded rules have in common can be told from
what they say: two that say the same are equal, and the rules of one consequent are those that
say something of its literal.

## Main definitions

* `Implication`, `GroundedRule.spell` — an implication between literals, and the one that a grounded
  rule is read as.
* `implicationOf` — the implication that a clause is.
* `GroundState.literalOf` — the literal that a number stands for.

## Main results

* `Registry.spell_groundings` — **grounded rules say what the clauses say.**
* `Registry.spell_rulesOf` — those of one consequent say what is said of its literal.
* `GroundState.eq_of_spell_eq` — what a grounded rule says tells which rule it is.
-/

namespace FactNet

variable {α : Type}

/-- An implication between literals, with the log-probabilities of its consequent. -/
structure Implication (α : Type) where
  /-- What it is called. -/
  name : String
  /-- The log-probability that the consequent is true. -/
  ifTrue : α
  /-- The log-probability that the consequent is false. -/
  ifFalse : α
  /-- The consequent. -/
  consequent : Literal
  /-- The antecedents, in order. -/
  antecedents : List Literal

/-- A grounded rule read with the literals that its variables stand for. -/
def GroundedRule.spell (literalOf : Nat → Literal) (g : GroundedRule α) : Implication α where
  name := g.name
  ifTrue := g.ifTrue
  ifFalse := g.ifFalse
  consequent := literalOf g.consequent
  antecedents := g.antecedents.map literalOf

/-- The implication that a clause with its weight is, if it has a positive literal. -/
def implicationOf [Scalar α] [Numeral α] (c : GroundState.Weighted α) : Option (Implication α) :=
  (c.2.filter (·.truth)).getLast?.map fun head =>
    { name := (Rule.mk (LogProb.logSigmoid c.1 - LogProb.logSigmoid (-c.1)) c.2).text
      ifTrue := LogProb.clip (LogProb.logSigmoid c.1)
      ifFalse := LogProb.clip (LogProb.logSigmoid (-c.1))
      consequent := head.asTrue
      antecedents := (c.2.filter fun l => !l.truth).map Literal.asTrue }

namespace GroundState

variable {s : GroundState α}

/-- The literal that a number stands for. -/
def literalOf (s : GroundState α) (i : Nat) : Literal :=
  s.literals.toList.getD i default

/-- A literal is what its number stands for. -/
theorem literalOf_numberOf {l : Literal} (h : s.Knows l) : s.literalOf (s.numberOf l) = l.asTrue := by
  have hget := getElem?_numberOf h
  rw [← Array.getElem?_toList] at hget
  rw [literalOf, List.getD_eq_getElem?_getD, hget, Option.getD_some]

/-- A number is the place of the literal that it stands for. -/
theorem idxOf_literalOf (hs : s.Distinct) {i : Nat} (hi : i < s.literals.size) :
    s.literals.toList.idxOf (s.literalOf i) = i := by
  rw [← Array.length_toList] at hi
  rw [literalOf, List.getD_eq_getElem?_getD, List.getElem?_eq_getElem hi, Option.getD_some]
  exact List.Nodup.idxOf_getElem hs i hi

theorem literalOf_injOn (hs : s.Distinct) {i j : Nat} (hi : i < s.literals.size)
    (hj : j < s.literals.size) (h : s.literalOf i = s.literalOf j) : i = j := by
  rw [← idxOf_literalOf hs hi, h, idxOf_literalOf hs hj]

theorem numberOf_lt {l : Literal} (h : s.Knows l) : s.numberOf l < s.literals.size := by
  rw [← Array.length_toList]
  exact List.idxOf_lt_length_of_mem h

/-- The variables of a grounded rule have been given their numbers. -/
def Numbers (s : GroundState α) (g : GroundedRule α) : Prop :=
  g.consequent < s.literals.size ∧ ∀ a ∈ g.antecedents, a < s.literals.size

/-- What a grounded rule says tells which rule it is. -/
theorem eq_of_spell_eq (hs : s.Distinct) {g g' : GroundedRule α} (hg : s.Numbers g)
    (hg' : s.Numbers g') (h : g.spell s.literalOf = g'.spell s.literalOf) : g = g' := by
  obtain ⟨name, ifTrue, ifFalse, consequent, antecedents⟩ := g
  obtain ⟨name', ifTrue', ifFalse', consequent', antecedents'⟩ := g'
  simp only [GroundedRule.spell, Implication.mk.injEq] at h
  obtain ⟨rfl, rfl, rfl, hconsequent, hantecedents⟩ := h
  obtain rfl := literalOf_injOn hs hg.1 hg'.1 hconsequent
  have hback : ∀ as : List Nat, (∀ a ∈ as, a < s.literals.size) →
      (as.map s.literalOf).map s.literals.toList.idxOf = as := by
    intro as has
    rw [List.map_map]
    exact (List.map_congr_left fun a ha => idxOf_literalOf hs (has a ha)).trans (List.map_id as)
  rw [← hback antecedents hg.2, hantecedents, hback antecedents' hg'.2]

variable [Scalar α] [Numeral α]

/-- A clause is registered as the implication that it is. -/
theorem spell_weightedGroundingOf {c : Weighted α} (hc : ∀ l ∈ c.2, s.Knows l) :
    (s.weightedGroundingOf c).map (GroundedRule.spell s.literalOf) = implicationOf c := by
  unfold weightedGroundingOf groundingOf implicationOf
  rw [Option.map_map]
  refine Option.map_congr fun head hhead => ?_
  have hmem : head ∈ c.2 := List.mem_of_mem_filter (List.mem_of_getLast? hhead)
  have hbody : ((c.2.filter fun l => !l.truth).map s.numberOf).map s.literalOf =
      (c.2.filter fun l => !l.truth).map Literal.asTrue := by
    rw [List.map_map]
    exact List.map_congr_left fun l hl => literalOf_numberOf (hc l (List.mem_of_mem_filter hl))
  simp only [Function.comp_apply, GroundedRule.spell]
  rw [literalOf_numberOf (hc head hmem), hbody]

/-- What a clause is registered as has numbered variables. -/
theorem numbers_weightedGroundingOf {c : Weighted α} (hc : ∀ l ∈ c.2, s.Knows l)
    {g : GroundedRule α} (hg : s.weightedGroundingOf c = some g) : s.Numbers g := by
  obtain ⟨head, hhead, rfl⟩ := Option.map_eq_some_iff.1 hg
  have hmem : head ∈ c.2 := List.mem_of_mem_filter (List.mem_of_getLast? hhead)
  refine ⟨numberOf_lt (hc head hmem), fun a ha => ?_⟩
  obtain ⟨l, hl, rfl⟩ := List.mem_map.1 ha
  exact numberOf_lt (hc l (List.mem_of_mem_filter hl))

end GroundState

namespace Registry

open GroundState

variable [Scalar α] [Numeral α] {r : Registry α}

/-- The implications that the clauses are, in the order of the clauses. -/
def implications (r : Registry α) : List (Implication α) :=
  r.clauses.filterMap implicationOf

theorem numbers_of_mem_groundings {g : GroundedRule α}
    (hg : g ∈ r.groundAll.1.groundings.toList) : r.groundAll.1.Numbers g := by
  obtain ⟨-, hknows, hgroundings⟩ := r.groundings_groundAll
  rw [hgroundings] at hg
  obtain ⟨c, hc, hg⟩ := List.mem_filterMap.1 hg
  exact numbers_weightedGroundingOf (hknows c hc) hg

/-- **Grounded rules say what the clauses say.** -/
theorem spell_groundings (r : Registry α) :
    r.groundAll.1.groundings.toList.map (GroundedRule.spell r.groundAll.1.literalOf) =
      r.implications := by
  obtain ⟨-, hknows, hgroundings⟩ := r.groundings_groundAll
  rw [hgroundings, List.map_filterMap]
  exact List.filterMap_congr fun c hc => spell_weightedGroundingOf (hknows c hc)

/-- The grounded rules of a consequent, in their order. -/
def rulesOf (r : Registry α) (i : Nat) : List (GroundedRule α) :=
  r.groundAll.1.groundings.toList.filter fun g => g.consequent == i

/-- **The grounded rules of a consequent say what is said of its literal.** -/
theorem spell_rulesOf {i : Nat} (hi : i < r.groundAll.1.literals.size) :
    (r.rulesOf i).map (GroundedRule.spell r.groundAll.1.literalOf) =
      r.implications.filter fun x => x.consequent == r.groundAll.1.literalOf i := by
  rw [← spell_groundings, List.filter_map, rulesOf]
  congr 1
  refine List.filter_congr fun g hg => ?_
  rw [Function.comp_apply, Bool.eq_iff_iff, beq_iff_eq, beq_iff_eq]
  refine ⟨fun h => congrArg r.groundAll.1.literalOf h, fun h => ?_⟩
  exact literalOf_injOn r.groundings_groundAll.1 (numbers_of_mem_groundings hg).1 hi h

end Registry

end FactNet
