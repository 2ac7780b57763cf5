import FactNet.Proofs.Distinct
import FactNet.Proofs.Growth
import FactNet.Proofs.Ranked

/-!
# The best fact of each key

Whatever is added to an empty graph, vertices and facts in any order, what it comes to can be told
from the list of additions.  Its vertices are the entities that they mention.  For every head,
relation and tail that a fact has been added for, one fact stays: of those with a score the first
with the highest, and the first of all if none has one.  So the keys and their scores do not depend
on the order of the additions, though the facts that stay, and their places, do.

A fact is told apart from a better one by its standing: the rank of its score, and below all ranks
if it has none.

## Main definitions

* `Addition`, `FactGraph.extend`, `FactGraph.extendAll` — additions, and the graph after them.
* `Fact.Outranks` — a fact is better than another.
* `Fact.IsBestOf` — a fact is the best of its key among some, and the first of these.
* `FactGraph.KeepsBest` — a graph is what its additions should come to.

## Main results

* `Fact.outranks_iff`, `Fact.outlasts_iff` — the better fact has the higher standing.
* `FactGraph.ofFacts_eq_extendAll` — graphs of facts are such graphs.
* `FactGraph.add_cases` — what adding a fact can do.
* `FactGraph.KeepsBest.add` — **one more fact keeps it so.**
* `FactGraph.KeepsBest.perm_standings` — **keys and scores do not depend on the order.**
* `FactGraph.perm_edges` — every fact is listed once.
* `FactGraph.extendAll_keeps_best` — **a graph keeps the best fact of each key.**
-/

namespace FactNet

open Scalar

/-! ### Additions -/

/-- What is added to a graph. -/
inductive Addition (α : Type) where
  /-- A vertex. -/
  | vertex (e : Entity)
  /-- A fact, with its two entities. -/
  | fact (f : Fact α)

namespace Addition

variable {α : Type}

/-- The entities that an addition mentions, in order. -/
def entities : Addition α → List Entity
  | .vertex e => [e]
  | .fact f => [f.head, f.tail]

/-- The fact that is added, if it is one. -/
def fact? : Addition α → Option (Fact α)
  | .vertex _ => none
  | .fact f => some f

end Addition

/-! ### Better facts -/

namespace Fact

variable {α β : Type} {rank : α → β} {P : α → Prop} {f f' old new : Fact α}

/-- The score of a fact is one of some numbers, if it has one. -/
def ScoreIn (P : α → Prop) (f : Fact α) : Prop := ∀ s ∈ f.score, P s

instance [DecidablePred P] (f : Fact α) : Decidable (f.ScoreIn P) :=
  inferInstanceAs (Decidable (∀ s ∈ f.score, P s))

/-- The rank of the score of a fact, below all ranks if it has none. -/
def standing (rank : α → β) (f : Fact α) : WithBot β :=
  match f.score with
  | none => ⊥
  | some s => rank s

theorem standing_eq_iff :
    f.standing rank = f'.standing rank ↔ f.score.map rank = f'.score.map rank := by
  unfold standing
  cases f.score <;> cases f'.score <;> simp

variable [Scalar α]

/-- A fact has a score, and the other one has none or a lower one. -/
def Outranks (new old : Fact α) : Prop :=
  ∃ s, new.score = some s ∧ ∀ t, old.score = some t → t < s

/-- A fact is the best of its key among some, and it is the first of these. -/
structure IsBestOf (given : List (Fact α)) (f : Fact α) : Prop where
  /-- None of its key outranks it. -/
  none_above : ∀ f' ∈ given, f'.key = f.key → ¬f'.Outranks f
  /-- It outranks those of its key before it. -/
  first : ∃ before after, given = before ++ f :: after ∧
    ∀ f' ∈ before, f'.key = f.key → f.Outranks f'

variable [LinearOrder β]

/-- The better fact has the higher standing. -/
theorem outranks_iff (hrank : TotallyRanked rank P) (hnew : new.ScoreIn P) (hold : old.ScoreIn P) :
    new.Outranks old ↔ old.standing rank < new.standing rank := by
  unfold Outranks standing
  cases hs : new.score with
  | none => simp
  | some s =>
    cases ht : old.score with
    | none => simp
    | some t => simp [hrank.lt_iff (hold t ht) (hnew s hs)]

/-- A fact outlasts those of no higher standing. -/
theorem outlasts_iff (hrank : TotallyRanked rank P) (hnew : new.ScoreIn P) (hold : old.ScoreIn P) :
    old.outlasts new = true ↔ new.standing rank ≤ old.standing rank := by
  unfold outlasts standing
  cases hs : new.score with
  | none => simp
  | some s =>
    cases ht : old.score with
    | none => simp
    | some t => simp [hrank.le_iff (hnew s hs) (hold t ht)]

namespace IsBestOf

variable {given : List (Fact α)}

theorem mem (h : f.IsBestOf given) : f ∈ given := by
  obtain ⟨before, after, rfl, -⟩ := h.first
  simp

/-- No fact of its key has a higher standing. -/
theorem standing_le (hrank : TotallyRanked rank P) (hP : ∀ f ∈ given, f.ScoreIn P)
    (h : f.IsBestOf given) (hf' : f' ∈ given) (hkey : f'.key = f.key) :
    f'.standing rank ≤ f.standing rank :=
  not_lt.1 fun hlt =>
    h.none_above f' hf' hkey ((outranks_iff hrank (hP f' hf') (hP f h.mem)).2 hlt)

/-- It stays the best if what is added does not outrank it. -/
theorem concat (h : f.IsBestOf given) (hnew : new.key = f.key → ¬new.Outranks f) :
    f.IsBestOf (given ++ [new]) where
  none_above := List.forall_mem_append.2 ⟨h.none_above, List.forall_mem_singleton.2 hnew⟩
  first := by
    obtain ⟨before, after, rfl, hfirst⟩ := h.first
    exact ⟨before, after ++ [new], by simp, hfirst⟩

/-- What is added is the best if its standing is above that of all of its key. -/
theorem of_standing_lt (hrank : TotallyRanked rank P) (hP : ∀ f ∈ given ++ [new], f.ScoreIn P)
    (hall : ∀ f' ∈ given, f'.key = new.key → f'.standing rank < new.standing rank) :
    new.IsBestOf (given ++ [new]) where
  none_above f' hf' hkey := by
    have hPnew := hP new (by simp)
    rw [outranks_iff hrank (hP f' hf') hPnew]
    rcases List.mem_append.1 hf' with hf' | hf'
    · exact lt_asymm (hall f' hf' hkey)
    · rw [List.mem_singleton.1 hf']
      exact lt_irrefl _
  first := by
    refine ⟨given, [], rfl, fun f' hf' hkey => ?_⟩
    rw [outranks_iff hrank (hP new (by simp)) (hP f' (List.mem_append_left _ hf'))]
    exact hall f' hf' hkey

/-- There is one best fact of a key. -/
theorem unique (h : f.IsBestOf given) (h' : f'.IsBestOf given) (hkey : f'.key = f.key) :
    f' = f := by
  obtain ⟨before, after, hsplit, hfirst⟩ := h.first
  obtain ⟨before', after', hsplit', hfirst'⟩ := h'.first
  -- neither of the two stands before the other
  have hf : f ∉ before' := fun hmem =>
    h.none_above f' h'.mem hkey (hfirst' f hmem hkey.symm)
  have hf' : f' ∉ before := fun hmem =>
    h'.none_above f h.mem hkey.symm (hfirst f' hmem hkey)
  obtain ⟨between, hbefore, hcons⟩ | ⟨between, hbefore, hcons⟩ :=
    List.append_eq_append_iff.1 (hsplit.symm.trans hsplit')
  · cases between with
    | nil => exact (List.cons.inj hcons).1.symm
    | cons g between =>
      obtain ⟨rfl, -⟩ := List.cons.inj hcons
      exact absurd (by simp [hbefore]) hf
  · cases between with
    | nil => exact (List.cons.inj hcons).1
    | cons g between =>
      obtain ⟨rfl, -⟩ := List.cons.inj hcons
      exact absurd (by simp [hbefore]) hf'

end IsBestOf

end Fact

namespace FactGraph

variable {α β : Type} {rank : α → β} {P : α → Prop}
variable {g : FactGraph α} {f : Fact α} {additions : List (Addition α)}

/-! ### What an addition does -/

theorem map_key_replaceFact (facts : List (Fact α)) (f : Fact α) :
    (replaceFact facts f).map Fact.key = facts.map Fact.key := by
  unfold replaceFact
  rw [List.map_map]
  refine List.map_congr_left fun old _ => ?_
  rw [Function.comp_apply]
  split
  · next h => exact (eq_of_beq h).symm
  · rfl

/-- What stands where a fact has taken the place of that with its key. -/
theorem mem_replaceFact {facts : List (Fact α)} {f' : Fact α} : f' ∈ replaceFact facts f ↔
    (f' = f ∧ ∃ old ∈ facts, old.key = f.key) ∨ (f' ∈ facts ∧ f'.key ≠ f.key) := by
  unfold replaceFact
  rw [List.mem_map]
  constructor
  · rintro ⟨old, hold, rfl⟩
    split
    · next h => exact .inl ⟨rfl, old, hold, eq_of_beq h⟩
    · next h => exact .inr ⟨hold, fun heq => h (beq_iff_eq.2 heq)⟩
  · rintro (⟨rfl, old, hold, hkey⟩ | ⟨hf', hkey⟩)
    · exact ⟨old, hold, if_pos (beq_iff_eq.2 hkey)⟩
    · exact ⟨f', hf', if_neg fun h => hkey (eq_of_beq h)⟩

section Additions

variable [Scalar α]

/-- The graph with what is added. -/
def extend (g : FactGraph α) : Addition α → FactGraph α
  | .vertex e => g.addVertex e
  | .fact f => (g.add f).1

/-- The graph that some additions make of the empty one. -/
def extendAll (additions : List (Addition α)) : FactGraph α := additions.foldl extend {}

theorem extendAll_concat (additions : List (Addition α)) (a : Addition α) :
    extendAll (additions ++ [a]) = (extendAll additions).extend a := List.foldl_append

/-- The graph of some facts is what adding them one after another makes. -/
theorem ofFacts_eq_extendAll (facts : List (Fact α)) :
    ofFacts facts = extendAll (facts.map .fact) := by
  rw [extendAll, List.foldl_map]
  rfl

/-- Additions make a graph. -/
theorem made_extendAll (additions : List (Addition α)) : (extendAll additions).Made := by
  induction additions using List.reverseRecOn with
  | nil => exact .empty
  | append_singleton additions a ih =>
    rw [extendAll_concat]
    cases a with
    | vertex e => exact ih.addVertex e
    | fact f => exact ih.add f

theorem vertices_add : (g.add f).1.vertices = ((g.addVertex f.head).addVertex f.tail).vertices := by
  unfold add
  dsimp only
  split
  · rfl
  · split <;> rfl

/-- The facts after one more fact, and whether they have changed. -/
theorem facts_add (g : FactGraph α) (f : Fact α) :
    ((g.add f).1.facts, (g.add f).2) =
      match g.find? f.key with
      | none => (g.facts ++ [f], true)
      | some old => if old.outlasts f then (g.facts, false) else (replaceFact g.facts f, true) := by
  have hfind : ((g.addVertex f.head).addVertex f.tail).find? f.key = g.find? f.key := by
    simp [find?]
  unfold add
  dsimp only
  rw [hfind]
  cases g.find? f.key with
  | none => simp
  | some old =>
    dsimp only
    split <;> simp

theorem add_of_find?_eq_none (hnone : g.find? f.key = none) :
    (g.add f).1.facts = g.facts ++ [f] ∧ (g.add f).2 = true := by
  have h := facts_add g f
  rw [hnone] at h
  exact Prod.mk.inj h

variable {old : Fact α}

theorem add_of_outlasts (hold : g.find? f.key = some old) (hstays : old.outlasts f = true) :
    (g.add f).1.facts = g.facts ∧ (g.add f).2 = false := by
  have h := facts_add g f
  rw [hold] at h
  exact Prod.mk.inj (h.trans (if_pos hstays))

theorem add_of_not_outlasts (hold : g.find? f.key = some old) (hleaves : old.outlasts f = false) :
    (g.add f).1.facts = replaceFact g.facts f ∧ (g.add f).2 = true := by
  have h := facts_add g f
  rw [hold] at h
  exact Prod.mk.inj (h.trans (if_neg (by simp [hleaves])))

/-- What adding a fact can do: the fact is put after the others, or the one with its key stays, or
it takes the place of that one. -/
theorem add_cases (g : FactGraph α) (f : Fact α) :
    ((∀ old ∈ g.facts, old.key ≠ f.key) ∧
      (g.add f).1.facts = g.facts ++ [f] ∧ (g.add f).2 = true) ∨
    ∃ old ∈ g.facts, old.key = f.key ∧
      ((old.outlasts f = true ∧ (g.add f).1.facts = g.facts ∧ (g.add f).2 = false) ∨
        (old.outlasts f = false ∧ (g.add f).1.facts = replaceFact g.facts f ∧
          (g.add f).2 = true)) := by
  cases hfind : g.find? f.key with
  | none => exact .inl ⟨by simpa [find?] using hfind, add_of_find?_eq_none hfind⟩
  | some old =>
    refine .inr ⟨old, List.mem_of_find?_eq_some hfind, by simpa using List.find?_some hfind, ?_⟩
    cases hlast : old.outlasts f with
    | true => exact .inl ⟨rfl, add_of_outlasts hfind hlast⟩
    | false => exact .inr ⟨rfl, add_of_not_outlasts hfind hlast⟩

end Additions

/-! ### Every fact is listed once -/

/-- What different keys pick out of a list is the list, if every key of it is among them. -/
theorem perm_flatMap_filter {γ κ : Type} [BEq κ] [LawfulBEq κ] {key : γ → κ} {ks : List κ}
    (hks : ks.Nodup) {xs : List γ} (h : ∀ x ∈ xs, key x ∈ ks) :
    (ks.flatMap fun k => xs.filter fun x => key x == k).Perm xs := by
  induction ks generalizing xs with
  | nil =>
    cases xs with
    | nil => exact .refl _
    | cons x xs => exact absurd (h x (List.mem_cons_self ..)) List.not_mem_nil
  | cons k ks ih =>
    obtain ⟨hk, hks⟩ := List.nodup_cons.1 hks
    -- the other keys pick the same of what the first leaves
    have hrest : (ks.flatMap fun k' => xs.filter fun x => key x == k') =
        ks.flatMap fun k' => (xs.filter fun x => !key x == k).filter fun x => key x == k' := by
      refine List.flatMap_congr fun k' hk' => ?_
      rw [List.filter_filter]
      refine List.filter_congr fun x _ => ?_
      by_cases hx : key x = k'
      · have hne : k' ≠ k := fun heq => hk (heq ▸ hk')
        simp [hx, hne]
      · simp [hx]
    rw [List.flatMap_cons, hrest]
    refine ((ih hks fun x hx => ?_).append_left _).trans (List.filter_append_perm _ xs)
    obtain ⟨hx, hne⟩ := List.mem_filter.1 hx
    exact (List.mem_cons.1 (h x hx)).resolve_left fun heq => by simp [heq] at hne

/-- Bringing equal keys together leaves out nothing and repeats nothing. -/
theorem perm_gathered {γ κ : Type} [BEq κ] [LawfulBEq κ] (key : γ → κ) (xs : List γ) :
    (gathered key xs).Perm xs := by
  refine perm_flatMap_filter (nodup_eraseDups _) fun x hx => ?_
  rw [List.mem_eraseDups]
  exact List.mem_map.2 ⟨x, hx, rfl⟩

/-- Every fact is listed once, if the vertices are different and have all heads among them. -/
theorem perm_edges (hnodup : g.vertices.Nodup) (h : ∀ f ∈ g.facts, f.head ∈ g.vertices) :
    g.edges.Perm g.facts :=
  (List.Perm.flatMap_left _ fun _ _ => perm_gathered _ _).trans (perm_flatMap_filter hnodup h)

/-! ### The best facts are kept -/

/-- The facts among some additions, in order. -/
def given (additions : List (Addition α)) : List (Fact α) := additions.filterMap Addition.fact?

@[simp] theorem given_concat_vertex (e : Entity) :
    given (additions ++ [.vertex e]) = given additions := by
  simp [given, Addition.fact?]

@[simp] theorem given_concat_fact : given (additions ++ [.fact f]) = given additions ++ [f] := by
  simp [given, Addition.fact?]

theorem vertices_addVertex_eq {es : List Entity} (h : g.vertices = es.eraseDups) (e : Entity) :
    (g.addVertex e).vertices = (es ++ [e]).eraseDups := by
  rw [vertices_addVertex, eraseDups_concat, h]
  simp only [List.contains_iff_mem, List.mem_eraseDups]

variable [Scalar α]

/-- A graph is what its additions should come to: the entities that they mention, and for each key
that a fact has been added for the best fact, both in the order in which they first occurred. -/
structure KeepsBest (additions : List (Addition α)) (g : FactGraph α) : Prop where
  vertices : g.vertices = (additions.flatMap Addition.entities).eraseDups
  keys : g.facts.map Fact.key = ((given additions).map Fact.key).eraseDups
  best : ∀ f ∈ g.facts, f.IsBestOf (given additions)

namespace KeepsBest

theorem empty : KeepsBest ([] : List (Addition α)) {} where
  vertices := rfl
  keys := rfl
  best _ h := by cases h

theorem addVertex (h : g.KeepsBest additions) (e : Entity) :
    (g.addVertex e).KeepsBest (additions ++ [.vertex e]) := by
  refine ⟨?_, ?_, ?_⟩
  · rw [List.flatMap_append]
    exact vertices_addVertex_eq h.vertices e
  · rw [given_concat_vertex, facts_addVertex, h.keys]
  · rw [given_concat_vertex, facts_addVertex]
    exact h.best

theorem mem_keys (h : g.KeepsBest additions) {key : FactKey} :
    key ∈ g.facts.map Fact.key ↔ key ∈ (given additions).map Fact.key := by
  rw [h.keys, List.mem_eraseDups]

theorem nodup_keys (h : g.KeepsBest additions) : (g.facts.map Fact.key).Nodup := by
  rw [h.keys]
  exact nodup_eraseDups _

theorem vertices_concat_fact (h : g.KeepsBest additions) (f : Fact α) :
    (g.add f).1.vertices =
      ((additions ++ [Addition.fact f]).flatMap Addition.entities).eraseDups := by
  rw [vertices_add, List.flatMap_append,
    vertices_addVertex_eq (vertices_addVertex_eq h.vertices f.head) f.tail, List.append_assoc]
  rfl

theorem keys_concat_fact (h : g.KeepsBest additions) (f : Fact α) :
    ((given additions ++ [f]).map Fact.key).eraseDups =
      if f.key ∈ g.facts.map Fact.key then g.facts.map Fact.key
      else g.facts.map Fact.key ++ [f.key] := by
  rw [List.map_append, List.map_singleton, eraseDups_concat, h.keys]
  simp only [List.mem_eraseDups]

/-- What has another key stays the best. -/
theorem isBestOf_concat_of_ne (h : g.KeepsBest additions) {old : Fact α} (hold : old ∈ g.facts)
    (hkey : old.key ≠ f.key) : old.IsBestOf (given additions ++ [f]) :=
  (h.best old hold).concat fun heq => absurd heq.symm hkey

section Ranked

variable [LinearOrder β] {old : Fact α}

/-- A fact with a new key is the best of its key. -/
theorem isBestOf_of_fresh (h : g.KeepsBest additions) (hrank : TotallyRanked rank P)
    (hP : ∀ f' ∈ given additions ++ [f], f'.ScoreIn P)
    (hfresh : ∀ old ∈ g.facts, old.key ≠ f.key) : f.IsBestOf (given additions ++ [f]) := by
  refine .of_standing_lt hrank hP fun f' hf' hkey => ?_
  -- nothing of this key has been added before
  obtain ⟨old, hold, heq⟩ := List.mem_map.1 (h.mem_keys.2 (List.mem_map.2 ⟨f', hf', hkey⟩))
  exact absurd heq (hfresh old hold)

/-- A fact that outlasts the new one stays the best of its key. -/
theorem isBestOf_of_outlasts (h : g.KeepsBest additions) (hrank : TotallyRanked rank P)
    (hP : ∀ f' ∈ given additions ++ [f], f'.ScoreIn P) (hold : old ∈ g.facts)
    (hstays : old.outlasts f = true) : old.IsBestOf (given additions ++ [f]) := by
  obtain ⟨hPgiven, hPf⟩ := List.forall_mem_append.1 hP
  have hPold := hPgiven old (h.best old hold).mem
  refine (h.best old hold).concat fun _ => ?_
  rw [Fact.outlasts_iff hrank (hPf f (List.mem_singleton_self f)) hPold] at hstays
  rw [Fact.outranks_iff hrank (hPf f (List.mem_singleton_self f)) hPold]
  exact not_lt.2 hstays

/-- A fact that takes the place of another one is better than all that this one was the best of. -/
theorem isBestOf_of_not_outlasts (h : g.KeepsBest additions) (hrank : TotallyRanked rank P)
    (hP : ∀ f' ∈ given additions ++ [f], f'.ScoreIn P) (hold : old ∈ g.facts)
    (hkey : old.key = f.key) (hleaves : old.outlasts f = false) :
    f.IsBestOf (given additions ++ [f]) := by
  obtain ⟨hPgiven, hPf⟩ := List.forall_mem_append.1 hP
  have hPold := hPgiven old (h.best old hold).mem
  have hlt : old.standing rank < f.standing rank := by
    rw [← not_le, ← Fact.outlasts_iff hrank (hPf f (List.mem_singleton_self f)) hPold, hleaves]
    exact Bool.false_ne_true
  refine .of_standing_lt hrank hP fun f' hf' hkey' => ?_
  calc f'.standing rank ≤ old.standing rank :=
        (h.best old hold).standing_le hrank hPgiven hf' (hkey'.trans hkey.symm)
    _ < f.standing rank := hlt

end Ranked

/-- **One more fact keeps it so.** -/
theorem add [LinearOrder β] (hrank : TotallyRanked rank P)
    (hP : ∀ f' ∈ given additions ++ [f], f'.ScoreIn P) (h : g.KeepsBest additions) :
    (g.add f).1.KeepsBest (additions ++ [.fact f]) := by
  obtain ⟨hfresh, hfacts, -⟩ | ⟨old, hold, hkey, ⟨hstays, hfacts, -⟩ | ⟨hleaves, hfacts, -⟩⟩ :=
    add_cases g f
  all_goals
    refine ⟨h.vertices_concat_fact f, ?_, ?_⟩
    all_goals rw [given_concat_fact, hfacts]
  · rw [h.keys_concat_fact, if_neg (by simpa using hfresh), List.map_append, List.map_singleton]
  · exact List.forall_mem_append.2 ⟨fun old hold => h.isBestOf_concat_of_ne hold (hfresh old hold),
      List.forall_mem_singleton.2 (h.isBestOf_of_fresh hrank hP hfresh)⟩
  · rw [h.keys_concat_fact, if_pos (List.mem_map.2 ⟨old, hold, hkey⟩)]
  · intro f' hf'
    by_cases hf'key : f'.key = f.key
    · obtain rfl : f' = old :=
        List.inj_on_of_nodup_map h.nodup_keys hf' hold (hf'key.trans hkey.symm)
      exact h.isBestOf_of_outlasts hrank hP hf' hstays
    · exact h.isBestOf_concat_of_ne hf' hf'key
  · rw [h.keys_concat_fact, if_pos (List.mem_map.2 ⟨old, hold, hkey⟩), map_key_replaceFact]
  · intro f' hf'
    obtain ⟨rfl, -⟩ | ⟨hf', hf'key⟩ := mem_replaceFact.1 hf'
    · exact h.isBestOf_of_not_outlasts hrank hP hold hkey hleaves
    · exact h.isBestOf_concat_of_ne hf' hf'key

/-- The facts that stay are the best of all that have been added. -/
theorem mem_facts_iff (h : g.KeepsBest additions) :
    f ∈ g.facts ↔ f.IsBestOf (given additions) := by
  refine ⟨h.best f, fun hf => ?_⟩
  obtain ⟨f', hf', hkey⟩ := List.mem_map.1 (h.mem_keys.2 (List.mem_map.2 ⟨f, hf.mem, rfl⟩))
  rw [← hf.unique (h.best f' hf') hkey]
  exact hf'

/-- There are as many facts as keys. -/
theorem size_eq (h : g.KeepsBest additions) :
    g.size = ((given additions).map Fact.key).toFinset.card := by
  have hsame : ((given additions).map Fact.key).toFinset = (g.facts.map Fact.key).toFinset := by
    ext key
    rw [List.mem_toFinset, List.mem_toFinset, h.mem_keys]
  rw [hsame, List.toFinset_card_of_nodup h.nodup_keys, List.length_map, size]

/-- **Keys and scores do not depend on the order** in which facts have been added. -/
theorem perm_standings [LinearOrder β] (hrank : TotallyRanked rank P)
    {additions' : List (Addition α)} {g' : FactGraph α}
    (hP : ∀ f ∈ given additions, f.ScoreIn P) (hperm : (given additions').Perm (given additions))
    (h : g.KeepsBest additions) (h' : g'.KeepsBest additions') :
    (g'.facts.map fun f => (f.key, f.score.map rank)).Perm
      (g.facts.map fun f => (f.key, f.score.map rank)) := by
  have hnodup {g : FactGraph α} (h : (g.facts.map Fact.key).Nodup) :
      (g.facts.map fun f => (f.key, f.score.map rank)).Nodup :=
    .of_map Prod.fst (by rwa [List.map_map])
  have hP' : ∀ f ∈ given additions', f.ScoreIn P := fun f hf => hP f (hperm.mem_iff.1 hf)
  -- two best facts of a key are as good as each other
  have hscore {f f' : Fact α} (hf : f ∈ g.facts) (hf' : f' ∈ g'.facts) (hkey : f'.key = f.key) :
      f'.score.map rank = f.score.map rank :=
    Fact.standing_eq_iff.1 <| le_antisymm
      ((h.best f hf).standing_le hrank hP (hperm.mem_iff.1 (h'.best f' hf').mem) hkey)
      ((h'.best f' hf').standing_le hrank hP' (hperm.mem_iff.2 (h.best f hf).mem) hkey.symm)
  have hkeys : ∀ key, key ∈ g'.facts.map Fact.key ↔ key ∈ g.facts.map Fact.key := fun key => by
    rw [h.mem_keys, h'.mem_keys, (hperm.map Fact.key).mem_iff]
  rw [List.perm_ext_iff_of_nodup (hnodup h'.nodup_keys) (hnodup h.nodup_keys)]
  rintro ⟨key, score⟩
  rw [List.mem_map, List.mem_map]
  constructor
  · rintro ⟨f', hf', heq⟩
    obtain ⟨f, hf, hkey⟩ := List.mem_map.1 ((hkeys f'.key).1 (List.mem_map.2 ⟨f', hf', rfl⟩))
    exact ⟨f, hf, by rw [← heq, hkey, hscore hf hf' hkey.symm]⟩
  · rintro ⟨f, hf, heq⟩
    obtain ⟨f', hf', hkey⟩ := List.mem_map.1 ((hkeys f.key).2 (List.mem_map.2 ⟨f, hf, rfl⟩))
    exact ⟨f', hf', by rw [← heq, hkey, hscore hf hf' hkey]⟩

/-- The answer of an addition says whether the facts have changed. -/
theorem add_changes_iff [LinearOrder β] (hrank : TotallyRanked rank P) (hf : f.ScoreIn P)
    (h : g.KeepsBest additions) :
    (g.add f).2 = true ↔ {f' | f' ∈ (g.add f).1.facts} ≠ {f' | f' ∈ g.facts} := by
  -- it has if the new fact is there and was not before
  have hnew (hmem : f ∈ (g.add f).1.facts) (hnot : f ∉ g.facts) :
      {f' | f' ∈ (g.add f).1.facts} ≠ {f' | f' ∈ g.facts} := fun heq =>
    hnot ((Set.ext_iff.1 heq f).1 hmem)
  obtain ⟨hfresh, hfacts, hanswer⟩ | ⟨old, hold, hkey, hcase⟩ := add_cases g f
  · have hnot : f ∉ g.facts := fun hmem => hfresh f hmem rfl
    exact iff_of_true hanswer (hnew (by simp [hfacts]) hnot)
  · obtain ⟨-, hfacts, hanswer⟩ | ⟨hleaves, hfacts, hanswer⟩ := hcase
    · exact iff_of_false (by simp [hanswer]) (by simp [hfacts])
    · have hnot : f ∉ g.facts := by
        intro hmem
        have heq : old = f := List.inj_on_of_nodup_map h.nodup_keys hold hmem hkey
        rw [heq, (Fact.outlasts_iff hrank hf hf).2 le_rfl] at hleaves
        exact Bool.noConfusion hleaves
      exact iff_of_true hanswer
        (hnew (hfacts ▸ mem_replaceFact.2 (.inl ⟨rfl, old, hold, hkey⟩)) hnot)

end KeepsBest

/-- Whatever is added, the graph keeps the best facts. -/
theorem keepsBest_extendAll [LinearOrder β] (hrank : TotallyRanked rank P)
    (hP : ∀ f ∈ given additions, f.ScoreIn P) : (extendAll additions).KeepsBest additions := by
  induction additions using List.reverseRecOn with
  | nil => exact .empty
  | append_singleton additions a ih =>
    rw [extendAll_concat]
    cases a with
    | vertex e => exact (ih (by simpa using hP)).addVertex e
    | fact f =>
      rw [given_concat_fact] at hP
      exact (ih fun f' hf' => hP f' (List.mem_append_left _ hf')).add hrank hP

/-! ### The graph of all additions -/

/-- **A graph keeps the best fact of each key.**  Whatever facts and vertices are added to an empty
graph: its vertices are the entities they mention, in the order in which they are first mentioned;
its facts are the best of those added, each with a key of its own and listed once; it has as many
as there are keys; the answer to one more fact says whether the facts have changed; and in whatever
order the additions are made, the keys and their scores are the same. -/
theorem extendAll_keeps_best [LinearOrder β] (hrank : TotallyRanked rank P)
    (additions : List (Addition α)) (hP : ∀ f ∈ given additions, f.ScoreIn P) :
    (extendAll additions).vertices = (additions.flatMap Addition.entities).eraseDups ∧
    (∀ f, f ∈ (extendAll additions).facts ↔ f.IsBestOf (given additions)) ∧
    (∀ f ∈ given additions, ∃! f', f' ∈ (extendAll additions).facts ∧ f'.key = f.key) ∧
    (extendAll additions).facts.Nodup ∧
    (extendAll additions).edges.Perm (extendAll additions).facts ∧
    (extendAll additions).size = ((given additions).map Fact.key).toFinset.card ∧
    (∀ f : Fact α, f.ScoreIn P → (((extendAll additions).add f).2 = true ↔
      {f' | f' ∈ ((extendAll additions).add f).1.facts} ≠
        {f' | f' ∈ (extendAll additions).facts})) ∧
    ∀ additions', additions'.Perm additions →
      ((extendAll additions').facts.map fun f => (f.key, f.score.map rank)).Perm
        ((extendAll additions).facts.map fun f => (f.key, f.score.map rank)) := by
  have hbest : (extendAll additions).KeepsBest additions := keepsBest_extendAll hrank hP
  refine ⟨hbest.vertices, fun f => hbest.mem_facts_iff, fun f hf => ?_, .of_map _ hbest.nodup_keys,
    perm_edges ?_ ?_, hbest.size_eq, fun f hf => hbest.add_changes_iff hrank hf,
    fun additions' hperm => ?_⟩
  · obtain ⟨f', hf', hkey⟩ := List.mem_map.1 (hbest.mem_keys.2 (List.mem_map.2 ⟨f, hf, rfl⟩))
    refine ⟨f', ⟨hf', hkey⟩, fun f'' hf'' => ?_⟩
    exact List.inj_on_of_nodup_map hbest.nodup_keys hf''.1 hf' (hf''.2.trans hkey.symm)
  · rw [hbest.vertices]
    exact nodup_eraseDups _
  · exact fun f hf => ((made_extendAll additions).mem_vertices hf).1
  · have hgiven : (given additions').Perm (given additions) := hperm.filterMap _
    exact hbest.perm_standings hrank hP hgiven <|
      keepsBest_extendAll hrank fun f hf => hP f (hgiven.mem_iff.1 hf)

/-- A fact without a score, added again with scores of which the second one is higher, and another
fact after it. -/
theorem extendAll_keeps_best_scores :
    let ann : Entity := ⟨"Ann", .person⟩
    let bob : Entity := ⟨"Bob", .person⟩
    let fact (relation : String) (score : Option Float) : Fact Float :=
      ⟨ann, relation, bob, score, none⟩
    let additions : List (Addition Float) := [.fact (fact "knows" none), .vertex bob,
      .fact (fact "knows" (some 0.25)), .fact (fact "knows" (some 0.5)),
      .fact (fact "likes" (some 0.5)), .fact (fact "knows" (some 0.25))]
    (∀ f ∈ given additions, f.ScoreIn fun x : Float => x.isNaN = false) ∧
      (extendAll additions).size = 2 ∧
      (∃! f, f ∈ (extendAll additions).facts ∧ f.key = (ann, "knows", bob)) ∧
      ((extendAll additions.reverse).facts.map fun f => (f.key, f.score.map Double.rank)).Perm
        ((extendAll additions).facts.map fun f => (f.key, f.score.map Double.rank)) := by
  intro ann bob fact additions
  have hP : ∀ f ∈ given additions, f.ScoreIn fun x : Float => x.isNaN = false := by decide
  obtain ⟨-, -, hone, -, -, hsize, -, hperm⟩ :=
    extendAll_keeps_best totallyRanked_float additions hP
  exact ⟨hP, hsize.trans (by decide), hone _ (List.mem_cons_self ..),
    hperm _ (List.reverse_perm _)⟩

end FactGraph

end FactNet
