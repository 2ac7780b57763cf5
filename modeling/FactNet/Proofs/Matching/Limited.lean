import Mathlib.Data.List.Pairwise
import FactNet.Proofs.Adjacency
import FactNet.Proofs.Matching.Search

/-!
# The search with a limit

The search for a rule is usually written as one recursion that takes the limit along: it looks for
the first free variable, tries the vertices for it one after another, adds what each try finds to
a list that all tries share, and leaves the list as soon as it has something in it if one result
is enough.  The free variables are asked for anew at every level.

That comes to the same as listing all completions, or finding the first of them, for variables
that are listed once.  So the two ways to search look at the same bindings in the same order: what
is found with the limit is the first of what is found without it.

## Main definitions

* `tryEach` — tries that share a list, and may stop at the first that adds to it.
* `MatchRule.search` — the recursion with the limit.
* `MatchRule.Completes` — bindings that looks at one free variable after another lead to.
* `MatchRule.Extends` — bindings of all variables that leave those there were.

## Main results

* `tryEach_unlimited`, `tryEach_limited` — what tries find, with the limit and without.
* `MatchRule.freeVariables_bind` — binding the first free variable leaves the others free.
* `MatchRule.consistentBindings_eq_search` — **the two ways to search are the same.**
* `MatchRule.mem_completions_iff` — the completions are the bindings that looks lead to.
* `MatchRule.pairwise_completions` — **no completion is listed twice.**
* `MatchRule.consistentBindings_limit` — **what is found with the limit is the first of what is
  found without it**, which are different bindings of all variables.
-/

namespace FactNet

/-! ### Tries that share a list -/

/-- Tries candidates that pass a test one after another.  What each of them leads to is added to
what has been found, and if one result is enough, the first that is found ends the tries. -/
def tryEach {β γ : Type} (limitOne : Bool) (test : β → Bool) (find : β → List γ) :
    List β → List γ → List γ
  | [], found => found
  | e :: es, found =>
    if test e then
      if limitOne && !(found ++ find e).isEmpty then found ++ find e
      else tryEach limitOne test find es (found ++ find e)
    else tryEach limitOne test find es found

section Tries

variable {β γ : Type} (test : β → Bool) (find : β → List γ)

/-- Without the limit, everything is found. -/
theorem tryEach_unlimited (es : List β) (found : List γ) :
    tryEach false test find es found = found ++ (es.filter test).flatMap find := by
  induction es generalizing found with
  | nil => simp [tryEach]
  | cons e es ih => cases h : test e <;> simp [tryEach, h, ih]

/-- With the limit, the first candidate that leads to something decides. -/
theorem tryEach_limited (es : List β) :
    tryEach true test find es [] =
      (((es.filter test).map find).find? fun found => !found.isEmpty).getD [] := by
  induction es with
  | nil => rfl
  | cons e es ih =>
    cases h : test e with
    | false => simpa [tryEach, h] using ih
    | true => cases hfind : find e <;> simp [tryEach, h, hfind, ih]

/-- If each candidate leads to the first of its results, the tries find the first of all. -/
theorem tryEach_limited_take_one (es : List β) :
    tryEach true test (fun e => (find e).take 1) es [] =
      ((es.filter test).flatMap find).take 1 := by
  rw [tryEach_limited]
  induction es.filter test with
  | nil => rfl
  | cons e es ih => cases hfind : find e <;> simp_all

end Tries

namespace MatchRule

variable {α : Type} {r : MatchRule α} {g : FactGraph α} {b b' : Bindings} {x : String}
  {xs : List String} {e : Entity}

/-! ### Free variables -/

/-- Binding the first free variable leaves the others free, in their order. -/
theorem freeVariables_bind (h : r.freeVariables b = x :: xs) (e : Entity) :
    r.freeVariables (b.bind x e) = xs := by
  have hsorted : (x :: xs).Pairwise (· < ·) := h ▸ pairwise_sortedTexts _
  refine List.Pairwise.eq_of_mem_iff (pairwise_sortedTexts _) hsorted.of_cons fun y => ?_
  have hy : y ∈ r.freeVariables b ↔ y ∈ x :: xs := by rw [h]
  have hx : x ∉ xs := fun hx => lt_irrefl x ((List.pairwise_cons.1 hsorted).1 x hx)
  change y ∈ r.freeVariables (b.bind x e) ↔ y ∈ xs
  rw [mem_freeVariables, List.mem_cons] at hy
  rw [mem_freeVariables, Bindings.get?_bind]
  by_cases hyx : y = x
  · simp [hyx, hx]
  · rw [if_neg hyx, hy, or_iff_right hyx]

theorem length_freeVariables_bind (h : r.freeVariables b = x :: xs) (e : Entity) :
    (r.freeVariables (b.bind x e)).length < (r.freeVariables b).length := by
  rw [freeVariables_bind h, h, List.length_cons]
  exact Nat.lt_succ_self _

/-! ### One recursion for both ways -/

/-- The bindings of all variables that looks for one free variable after another lead to, or the
first of them alone. -/
def search (r : MatchRule α) (g : FactGraph α) (limitOne : Bool) (b : Bindings) :
    List Bindings :=
  match _h : r.freeVariables b with
  | [] => [b]
  | x :: _ =>
    tryEach limitOne (r.isConsistent g b x) (fun e => search r g limitOne (b.bind x e))
      g.vertices []
termination_by (r.freeVariables b).length
decreasing_by exact length_freeVariables_bind _h e

theorem search_nil (h : r.freeVariables b = []) (limitOne : Bool) :
    r.search g limitOne b = [b] := by
  rw [search]
  split
  · rfl
  · next hcons => cases h.symm.trans hcons

theorem search_cons (h : r.freeVariables b = x :: xs) (limitOne : Bool) :
    r.search g limitOne b = tryEach limitOne (r.isConsistent g b x)
      (fun e => r.search g limitOne (b.bind x e)) g.vertices [] := by
  rw [search]
  split
  · next hnil => cases hnil.symm.trans h
  · next hcons =>
    obtain ⟨rfl, -⟩ := List.cons.inj (hcons.symm.trans h)
    rfl

/-- Without the limit, the recursion lists the completions. -/
theorem search_unlimited (h : r.freeVariables b = xs) :
    r.search g false b = r.completions g xs b := by
  induction xs generalizing b with
  | nil => exact search_nil h false
  | cons x xs ih =>
    rw [search_cons h, tryEach_unlimited, List.nil_append, completions]
    simp only [ih (freeVariables_bind h _)]

/-- With the limit, the recursion finds the first completion. -/
theorem search_limited (h : r.freeVariables b = xs) :
    r.search g true b = (r.completions g xs b).take 1 := by
  induction xs generalizing b with
  | nil => exact search_nil h true
  | cons x xs ih =>
    have hfind : (fun e => r.search g true (b.bind x e)) =
        fun e => (r.completions g xs (b.bind x e)).take 1 :=
      funext fun e => ih (freeVariables_bind h e)
    rw [search_cons h, hfind, tryEach_limited_take_one, completions]

/-- **The recursion with the limit finds what the search for listed variables finds**, either
way. -/
theorem consistentBindings_eq_search (r : MatchRule α) (g : FactGraph α) (b : Bindings)
    (limitOne : Bool) : r.consistentBindings g b limitOne = r.search g limitOne b := by
  cases limitOne with
  | false => exact (search_unlimited rfl).symm
  | true =>
    rw [search_limited rfl, consistentBindings, if_pos rfl, firstCompletion?_eq_head?]
    cases r.completions g (r.freeVariables b) b <;> rfl

/-! ### What is found -/

/-- Bindings come from others by binding the first free variable to a vertex that is consistent,
again and again until no variable is free. -/
inductive Completes (r : MatchRule α) (g : FactGraph α) : Bindings → Bindings → Prop where
  /-- No variable is free. -/
  | done {b : Bindings} (hfree : r.freeVariables b = []) : Completes r g b b
  /-- The first free variable is bound, and the rest comes from there. -/
  | bind {b b' : Bindings} {x : String} {xs : List String} {e : Entity}
      (hfree : r.freeVariables b = x :: xs) (he : e ∈ g.vertices)
      (hconsistent : r.isConsistent g b x e = true)
      (hrest : Completes r g (b.bind x e) b') : Completes r g b b'

/-- Bindings leave others as they are and bind the variables that these leave free to vertices. -/
structure Extends (r : MatchRule α) (g : FactGraph α) (b b' : Bindings) : Prop where
  /-- What was bound is bound to the same entity. -/
  agrees : ∀ x e, b.get? x = some e → b'.get? x = some e
  /-- What was free is bound to a vertex. -/
  bound : ∀ x ∈ r.freeVariables b, ∃ e ∈ g.vertices, b'.get? x = some e
  /-- Variables that the antecedents do not mention are not touched. -/
  others : ∀ x ∉ r.freeVariables b, b'.get? x = b.get? x
  /-- No variable is free. -/
  complete : r.freeVariables b' = []

/-- The completions are the bindings that looks lead to. -/
theorem mem_completions_iff (h : r.freeVariables b = xs) :
    b' ∈ r.completions g xs b ↔ r.Completes g b b' := by
  induction xs generalizing b with
  | nil =>
    rw [completions, List.mem_singleton]
    constructor
    · rintro rfl
      exact .done h
    · intro hb'
      cases hb' with
      | done => rfl
      | bind hfree => cases h.symm.trans hfree
  | cons x xs ih =>
    rw [mem_completions_cons]
    constructor
    · rintro ⟨e, he, hconsistent, hrest⟩
      exact .bind h he hconsistent ((ih (freeVariables_bind h e)).1 hrest)
    · intro hb'
      cases hb' with
      | done hfree => cases h.symm.trans hfree
      | bind hfree he hconsistent hrest =>
        obtain ⟨rfl, rfl⟩ := List.cons.inj (h.symm.trans hfree)
        exact ⟨_, he, hconsistent, (ih (freeVariables_bind h _)).2 hrest⟩

/-- A completion of the free variables extends the bindings. -/
theorem extends_of_completed (hb' : b' ∈ r.completions g (r.freeVariables b) b) :
    r.Extends g b b' where
  agrees _ _ := get?_of_completed hb'
  bound x hx := (get?_of_mem_completions hb' x).2 hx
  others x hx := (get?_of_mem_completions hb' x).1 hx
  complete := by
    refine List.eq_nil_iff_forall_not_mem.2 fun x hx => ?_
    obtain ⟨⟨c, hc, hx⟩, hnone⟩ := mem_freeVariables.1 hx
    obtain ⟨e, he⟩ := exists_get?_of_completed hb' hc hx
    cases hnone.symm.trans he

/-- **No completion is listed twice**: any two differ in what they bind a variable to. -/
theorem pairwise_completions (hvertices : g.vertices.Nodup) (hxs : xs.Nodup) :
    (r.completions g xs b).Pairwise fun b' b'' => ∃ x ∈ xs, b'.get? x ≠ b''.get? x := by
  induction xs generalizing b with
  | nil => exact List.pairwise_singleton _ b
  | cons x xs ih =>
    obtain ⟨hx, hxs⟩ := List.nodup_cons.1 hxs
    rw [completions, List.pairwise_flatMap]
    constructor
    · intro e _
      refine (ih hxs).imp fun hdiffer => ?_
      obtain ⟨y, hy, hne⟩ := hdiffer
      exact ⟨y, List.mem_cons_of_mem x hy, hne⟩
    · -- completions from different vertices differ in the variable that is bound first
      refine (hvertices.filter _).imp fun hne b' hb' b'' hb'' => ⟨x, List.mem_cons_self, ?_⟩
      rw [(get?_of_mem_completions hb' x).1 hx, (get?_of_mem_completions hb'' x).1 hx,
        Bindings.get?_bind, Bindings.get?_bind, if_pos rfl, if_pos rfl]
      exact fun h => hne (Option.some.inj h)

/-- **What is found with the limit is the first of what is found without it**, in every graph that
additions make and for all bindings that there are before.  Both are found by the one recursion
that takes the limit along.  Without the limit the bindings are just those that looks for one
free variable after another lead to; each binds all variables and agrees with those there were,
and any two differ in the entity of a variable that was free. -/
theorem consistentBindings_limit [Scalar α] (additions : List (Addition α)) (r : MatchRule α)
    (b : Bindings) :
    let g := FactGraph.extendAll additions
    let all := r.consistentBindings g b false
    (∀ limitOne, r.consistentBindings g b limitOne = r.search g limitOne b) ∧
    (∀ b', b' ∈ all ↔ r.Completes g b b') ∧
    (∀ b' ∈ all, r.Extends g b b') ∧
    (all.Pairwise fun b' b'' => ∃ x ∈ r.freeVariables b, b'.get? x ≠ b''.get? x) ∧
    r.consistentBindings g b true = all.take 1 := by
  intro g all
  have hall : all = r.completions g (r.freeVariables b) b := rfl
  have hvertices : g.vertices.Nodup := (FactGraph.made_extendAll additions).nodup_vertices
  rw [hall]
  refine ⟨consistentBindings_eq_search r g b, fun b' => mem_completions_iff rfl,
    fun b' => extends_of_completed, pairwise_completions hvertices nodup_freeVariables, ?_⟩
  rw [consistentBindings_eq_search, search_limited rfl]

end MatchRule

end FactNet
