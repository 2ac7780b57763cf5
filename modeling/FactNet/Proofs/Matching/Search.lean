import Mathlib.Data.List.Basic
import FactNet.Matching.Search
import FactNet.Proofs.Domain
import FactNet.Proofs.Graph

/-!
# What the search for a rule does

A rule is true of a pair of entities in a graph if all its variables can stand for entities, those
of the consequent for the pair, so that every antecedent is a fact.  The search only ever looks at
antecedents from the variable that it is about to bind.  This module says what one look finds, and
that the first binding the search comes to is there exactly if there is any.

## Main definitions

* `Clause.HoldsIn` — an antecedent is a fact for what its variables stand for.
* `MatchRule.SatisfiedBy` — all antecedents are, with the consequent about a pair of entities.

## Main results

* `MatchRule.headFits_iff`, `MatchRule.tailFits_iff` — what is looked for at an end of an
  antecedent.
* `MatchRule.firstCompletion?_eq_head?` — **the search finds the first of all completions.**
* `MatchRule.get?_of_mem_completions` — what a completion binds.
* `MatchRule.get?_of_completed`, `MatchRule.exists_get?_of_completed` — what a completion of the
  free variables binds.
* `MatchRule.occursIn_iff` — a rule is found if its consequent is consistent and has a completion.
-/

namespace FactNet

/-- The first result that some of the elements have is the first one if the others have none. -/
theorem findSome?_filter {β γ : Type} (p : β → Bool) (f : β → Option γ) (xs : List β) :
    (xs.filter p).findSome? f = xs.findSome? fun x => if p x then f x else none := by
  induction xs with
  | nil => rfl
  | cons x xs ih => cases h : p x <;> simp [h, List.findSome?_cons, ih]

/-! ### Bindings -/

namespace Bindings

variable {b : Bindings} {x y : String} {e : Entity}

/-- A variable that is bound is bound to that entity, and no other one is changed. -/
theorem get?_bind : (b.bind x e).get? y = if y = x then some e else b.get? y := by
  unfold bind get?
  rw [List.find?_cons]
  by_cases hyx : y = x
  · simp [hyx]
  · have hother : (x == y) = false := by simpa using Ne.symm hyx
    have hkept : ∀ old : String × Entity,
        decide ((old.1 != x) = true ∧ (old.1 == y) = true) = (old.1 == y) := by
      intro old
      rw [Bool.eq_iff_iff, decide_eq_true_iff, and_iff_right_iff_imp, bne_iff_ne, beq_iff_eq]
      exact fun h => h ▸ hyx
    rw [if_neg hyx, hother, List.find?_filter]
    simp only [hkept]

theorem allows_iff : b.allows x e = true ↔ ∀ bound, b.get? x = some bound → e = bound := by
  unfold allows
  split
  · next h => simp [h]
  · next bound h => simp [h]

end Bindings

/-! ### Rules that are true of a pair -/

/-- An antecedent is a fact of a graph, between entities of its types, if its variables stand for
certain entities. -/
structure Clause.HoldsIn {α : Type} (c : Clause) (g : FactGraph α) (σ : String → Entity) :
    Prop where
  /-- The head has the type that is asked for. -/
  head : fitsType c.headType (σ c.headVar) = true
  /-- The tail has the type that is asked for. -/
  tail : fitsType c.tailType (σ c.tailVar) = true
  /-- The relation is a fact of the graph. -/
  fact : ∃ f ∈ g.facts, f.head = σ c.headVar ∧ f.relation = c.relation ∧ f.tail = σ c.tailVar

/-- All antecedents of a rule are facts of a graph, between entities of their types, if its
variables stand for certain entities and its consequent is about a pair of them. -/
structure MatchRule.SatisfiedBy {α : Type} (r : MatchRule α) (g : FactGraph α)
    (head tail : Entity) (σ : String → Entity) : Prop where
  /-- The consequent is about the head. -/
  head : σ r.consequent.headVar = head
  /-- The consequent is about the tail. -/
  tail : σ r.consequent.tailVar = tail
  /-- The antecedents are facts. -/
  antecedents : ∀ c ∈ r.antecedents, c.HoldsIn g σ

/-! ### One look -/

namespace MatchRule

variable {α : Type} {r : MatchRule α} {g : FactGraph α} {b b' : Bindings} {c : Clause} {x : String}
  {e head tail : Entity}

theorem headFits_iff : headFits g b c e = true ↔ fitsType c.headType e = true ∧
    ∃ f ∈ g.facts, f.head = e ∧ f.relation = c.relation ∧
      ∀ bound, b.get? c.tailVar = some bound → f.tail = bound := by
  simp only [headFits, Bool.and_eq_true, List.any_eq_true, FactGraph.mem_outgoing, beq_iff_eq,
    Bindings.allows_iff, and_assoc]

theorem tailFits_iff : tailFits g b c e = true ↔ fitsType c.tailType e = true ∧
    ∃ f ∈ g.facts, f.tail = e ∧ f.relation = c.relation ∧
      ∀ bound, b.get? c.headVar = some bound → f.head = bound := by
  simp only [tailFits, Bool.and_eq_true, List.any_eq_true, FactGraph.mem_incoming, beq_iff_eq,
    Bindings.allows_iff, and_assoc]

theorem isConsistent_iff : r.isConsistent g b x e = true ↔ ∀ c ∈ r.antecedents,
    (c.headVar = x → headFits g b c e = true) ∧ (c.tailVar = x → tailFits g b c e = true) := by
  simp only [isConsistent, List.all_eq_true, Bool.and_eq_true, Bool.or_eq_true, bne_iff_ne,
    ← imp_iff_not_or, ne_eq]

/-! ### All looks -/

theorem mem_freeVariables : x ∈ r.freeVariables b ↔
    (∃ c ∈ r.antecedents, x = c.headVar ∨ x = c.tailVar) ∧ b.get? x = none := by
  simp [freeVariables, mem_sortedTexts, Clause.vars]

theorem nodup_freeVariables : (r.freeVariables b).Nodup :=
  (pairwise_sortedTexts _).imp ne_of_lt

theorem mem_completions_cons {xs : List String} : b' ∈ r.completions g (x :: xs) b ↔
    ∃ e ∈ g.vertices, r.isConsistent g b x e = true ∧ b' ∈ r.completions g xs (b.bind x e) := by
  simp only [completions, List.mem_flatMap, List.mem_filter, and_assoc]

/-- **The search finds the first of all completions**, if there is one. -/
theorem firstCompletion?_eq_head? (r : MatchRule α) (g : FactGraph α) (xs : List String)
    (b : Bindings) : r.firstCompletion? g xs b = (r.completions g xs b).head? := by
  induction xs generalizing b with
  | nil => rfl
  | cons x xs ih =>
    simp only [firstCompletion?, completions, List.head?_flatMap, findSome?_filter, ih]

/-- A completion binds its variables to vertices and leaves the others as they are. -/
theorem get?_of_mem_completions {xs : List String} (hb' : b' ∈ r.completions g xs b)
    (y : String) : (y ∉ xs → b'.get? y = b.get? y) ∧
      (y ∈ xs → ∃ e ∈ g.vertices, b'.get? y = some e) := by
  induction xs generalizing b with
  | nil =>
    obtain rfl : b' = b := List.mem_singleton.1 hb'
    exact ⟨fun _ => rfl, fun hy => by cases hy⟩
  | cons x xs ih =>
    obtain ⟨e, he, -, hrest⟩ := mem_completions_cons.1 hb'
    obtain ⟨hkept, hbound⟩ := ih hrest
    rw [List.mem_cons, not_or]
    refine ⟨fun ⟨hyx, hy⟩ => ?_, fun hy => ?_⟩
    · rw [hkept hy, Bindings.get?_bind, if_neg hyx]
    · by_cases hlater : y ∈ xs
      · exact hbound hlater
      · obtain rfl := hy.resolve_right hlater
        exact ⟨e, he, by rw [hkept hlater, Bindings.get?_bind, if_pos rfl]⟩

/-- A completion of the free variables changes no variable that is bound. -/
theorem get?_of_completed (hb' : b' ∈ r.completions g (r.freeVariables b) b)
    (hx : b.get? x = some e) : b'.get? x = some e := by
  rw [(get?_of_mem_completions hb' x).1 fun hfree => ?_, hx]
  rw [(mem_freeVariables.1 hfree).2] at hx
  cases hx

/-- A completion of the free variables binds all variables of the antecedents. -/
theorem exists_get?_of_completed (hb' : b' ∈ r.completions g (r.freeVariables b) b)
    (hc : c ∈ r.antecedents) (hx : x = c.headVar ∨ x = c.tailVar) : ∃ e, b'.get? x = some e := by
  cases hbound : b.get? x with
  | some e => exact ⟨e, get?_of_completed hb' hbound⟩
  | none =>
    obtain ⟨e, -, he⟩ := (get?_of_mem_completions hb' x).2
      (mem_freeVariables.2 ⟨⟨c, hc, hx⟩, hbound⟩)
    exact ⟨e, he⟩

/-- A rule is found if both ends of its consequent are consistent and the rest can be completed. -/
theorem occursIn_iff : r.occursIn g head tail = true ↔
    r.isConsistent g (r.bindConsequent head tail) r.consequent.headVar head = true ∧
    r.isConsistent g (r.bindConsequent head tail) r.consequent.tailVar tail = true ∧
    ∃ b', b' ∈ r.completions g (r.freeVariables (r.bindConsequent head tail))
      (r.bindConsequent head tail) := by
  unfold occursIn consistentBindings
  dsimp only
  rw [if_pos rfl, firstCompletion?_eq_head?, Bool.and_eq_true, Bool.and_eq_true, and_assoc]
  cases h : r.completions g (r.freeVariables (r.bindConsequent head tail))
    (r.bindConsequent head tail) with
  | nil => simp
  | cons b' bs => simp

/-- The variables of the consequent are the ones that are bound first. -/
theorem get?_bindConsequent : (r.bindConsequent head tail).get? x =
    if x = r.consequent.tailVar then some tail
    else if x = r.consequent.headVar then some head else none := by
  simp only [bindConsequent, Bindings.get?_bind]
  rfl

end MatchRule

end FactNet
