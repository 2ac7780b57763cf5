import FactNet.Proofs.BestFacts

/-!
# The score that a key holds

A fact that is added again takes the place of the one with its key, unless it has no score or the
score of that one is at least its own.  So a key that holds a score holds one for good, and as long
as only numbers come the score never falls.

What is no number is not at least any score, and no score is at least it.  So it takes the place of
whatever a key holds, and gives way to whatever comes next: the key forgets the scores before it.
What a key holds at the end is the best of what has come since the last that was no number, and a
score can fall through one that is no number, never otherwise.

## Main definitions

* `FactGraph.heldScore?` — the score that a key holds.
* `scoresFor` — the scores that additions give to a key.
* `Scalar.kept` — which of two scores stays.
* `IsHeldAfter` — the score that is held after some scores have come.
* `FactGraph.NeverBelow` — a key never holds less than a score.

## Main results

* `FactGraph.find?_add_of_find?` — the fact with a key after another one with that key.
* `FactGraph.heldScore?_foldl_extend` — **a key that holds a score holds what stays of the scores
  that come.**
* `isHeldAfter_foldl_kept` — what stays is the best since the last that was no number.
* `FactGraph.neverBelow_iff` — **a score falls through what is no number, never otherwise.**
-/

namespace FactNet

open Scalar

variable {α : Type}

/-! ### Which score stays -/

/-- Which of two scores stays when the second one is added to the key of the first. -/
def Scalar.kept [Scalar α] (held new : α) : α := if new ≤ held then held else new

/-- The fact that stays has the score that stays. -/
theorem Fact.score_of_outlasts [Scalar α] {old new : Fact α} {s t : α} (hold : old.score = some s)
    (hnew : new.score = some t) :
    (if old.outlasts new then old else new).score = some (kept s t) := by
  have hstays : old.outlasts new = decide (t ≤ s) := by simp [outlasts, hold, hnew]
  unfold kept
  by_cases hle : t ≤ s
  · simp [hstays, hle, hold]
  · simp [hstays, hle, hnew]

namespace FactGraph

variable {g : FactGraph α} {f : Fact α} {key : FactKey}

/-- What is found for a key where a fact has taken the place of the one with its key. -/
theorem find?_replaceFact (facts : List (Fact α)) (f : Fact α) (key : FactKey) :
    (replaceFact facts f).find? (fun old => old.key == key) =
      (facts.find? fun old => old.key == key).map fun old => if f.key = key then f else old := by
  have hkey : ∀ old : Fact α, (if old.key == f.key then f else old).key = old.key := by
    intro old
    split
    · next h => exact (eq_of_beq h).symm
    · rfl
  have hsame : ((fun old : Fact α => old.key == key) ∘ fun old =>
      if old.key == f.key then f else old) = fun old => old.key == key := by
    funext old
    simp only [Function.comp_apply, hkey]
  unfold replaceFact
  rw [List.find?_map, hsame]
  cases hfind : facts.find? fun old => old.key == key with
  | none => rfl
  | some old =>
    have hold : old.key = key := by simpa using List.find?_some hfind
    by_cases heq : f.key = key
    · simp [hold, heq]
    · simp [hold, heq, Ne.symm heq]

section Adding

variable [Scalar α]

/-- A fact of another key changes nothing for a key. -/
theorem find?_add_of_ne (hne : f.key ≠ key) : (g.add f).1.find? key = g.find? key := by
  unfold find?
  cases hfind : g.find? f.key with
  | none =>
    rw [(add_of_find?_eq_none hfind).1]
    simp [List.find?_append, hne]
  | some old =>
    cases hlast : old.outlasts f with
    | true => rw [(add_of_outlasts hfind hlast).1]
    | false =>
      rw [(add_of_not_outlasts hfind hlast).1]
      simp [find?_replaceFact, hne]

/-- **The fact with a key after another one with that key**: the one that was there stays if it
outlasts the other. -/
theorem find?_add_of_find? {old : Fact α} (hold : g.find? f.key = some old) :
    (g.add f).1.find? f.key = some (if old.outlasts f then old else f) := by
  have hfind : g.facts.find? (fun f' => f'.key == f.key) = some old := hold
  unfold find?
  cases hlast : old.outlasts f with
  | true =>
    rw [(add_of_outlasts hold hlast).1]
    exact hfind
  | false =>
    rw [(add_of_not_outlasts hold hlast).1]
    simp [find?_replaceFact, hfind]

end Adding

/-! ### The score of a key -/

/-- The score of the fact with a key, if there is one and it has a score. -/
def heldScore? (g : FactGraph α) (key : FactKey) : Option α := (g.find? key).bind Fact.score

theorem heldScore?_addVertex (g : FactGraph α) (e : Entity) (key : FactKey) :
    (g.addVertex e).heldScore? key = g.heldScore? key := by
  simp [heldScore?, find?]

variable [Scalar α] {s t : α}

theorem heldScore?_add_of_ne (hne : f.key ≠ key) :
    (g.add f).1.heldScore? key = g.heldScore? key := by
  rw [heldScore?, find?_add_of_ne hne, heldScore?]

/-- A fact without a score takes the place of none that has one. -/
theorem heldScore?_add_of_none (hheld : g.heldScore? f.key = some s) (hnew : f.score = none) :
    (g.add f).1.heldScore? f.key = some s := by
  obtain ⟨old, hold, hs⟩ := Option.bind_eq_some_iff.1 hheld
  have hstays : old.outlasts f = true := by simp [Fact.outlasts, hnew]
  rw [heldScore?, find?_add_of_find? hold, if_pos hstays]
  exact hs

/-- **What a key holds after a fact with a score** is the one of the two scores that stays. -/
theorem heldScore?_add_of_some (hheld : g.heldScore? f.key = some s) (hnew : f.score = some t) :
    (g.add f).1.heldScore? f.key = some (kept s t) := by
  obtain ⟨old, hold, hs⟩ := Option.bind_eq_some_iff.1 hheld
  rw [heldScore?, find?_add_of_find? hold]
  exact Fact.score_of_outlasts hs hnew

end FactGraph

/-! ### The scores that come -/

/-- The scores that additions give to a key, in order. -/
def scoresFor (key : FactKey) (additions : List (Addition α)) : List α :=
  (FactGraph.given additions).filterMap fun f => if f.key = key then f.score else none

theorem FactGraph.mem_given {f : Fact α} {additions : List (Addition α)} :
    f ∈ given additions ↔ .fact f ∈ additions := by
  unfold given
  rw [List.mem_filterMap]
  constructor
  · rintro ⟨a, ha, hfact⟩
    cases a with
    | vertex e => cases hfact
    | fact f' => rwa [← Option.some.inj hfact]
  · intro hf
    exact ⟨.fact f, hf, rfl⟩

section ScoresFor

variable {key : FactKey} {f : Fact α} {additions : List (Addition α)}

theorem mem_scoresFor {s : α} : s ∈ scoresFor key additions ↔
    ∃ f ∈ FactGraph.given additions, f.key = key ∧ f.score = some s := by
  unfold scoresFor
  rw [List.mem_filterMap]
  constructor
  · rintro ⟨f, hf, hs⟩
    split at hs
    · next hkey => exact ⟨f, hf, hkey, hs⟩
    · exact absurd hs (by simp)
  · rintro ⟨f, hf, hkey, hs⟩
    exact ⟨f, hf, by rw [if_pos hkey, hs]⟩

theorem scoresFor_append (key : FactKey) (xs ys : List (Addition α)) :
    scoresFor key (xs ++ ys) = scoresFor key xs ++ scoresFor key ys := by
  simp [scoresFor, FactGraph.given]

theorem scoresFor_vertex (e : Entity) :
    scoresFor key (.vertex e :: additions) = scoresFor key additions := rfl

theorem scoresFor_fact_of_ne (hne : f.key ≠ key) :
    scoresFor key (.fact f :: additions) = scoresFor key additions := by
  simp [scoresFor, FactGraph.given, Addition.fact?, hne]

theorem scoresFor_fact (f : Fact α) (additions : List (Addition α)) :
    scoresFor f.key (.fact f :: additions) = f.score.toList ++ scoresFor f.key additions := by
  cases hs : f.score <;> simp [scoresFor, FactGraph.given, Addition.fact?, hs]

end ScoresFor

namespace FactGraph

variable [Scalar α] {g : FactGraph α} {key : FactKey} {s : α}

/-- **A key that holds a score holds one for good**: what stays of it and of the scores that come
for the key. -/
theorem heldScore?_foldl_extend (hheld : g.heldScore? key = some s)
    (additions : List (Addition α)) :
    (additions.foldl extend g).heldScore? key =
      some ((scoresFor key additions).foldl kept s) := by
  induction additions generalizing g s with
  | nil => exact hheld
  | cons a additions ih =>
    rw [List.foldl_cons]
    cases a with
    | vertex e =>
      have hsame : (g.addVertex e).heldScore? key = some s := by
        rw [heldScore?_addVertex, hheld]
      rw [scoresFor_vertex]
      exact ih hsame
    | fact f =>
      by_cases hkey : f.key = key
      · subst hkey
        rw [scoresFor_fact]
        cases hnew : f.score with
        | none => exact ih (heldScore?_add_of_none hheld hnew)
        | some t => exact ih (heldScore?_add_of_some hheld hnew)
      · rw [scoresFor_fact_of_ne hkey]
        exact ih ((heldScore?_add_of_ne hkey).trans hheld)

end FactGraph

/-! ### Scores that are no numbers -/

namespace Double

variable {x y : Float}

/-- What is no number takes the place of every score. -/
theorem kept_eq_of_isNaN (hy : y.isNaN = true) : kept x y = y := by
  have hle : ¬y ≤ x := by
    intro h
    have hnumber := (isNaN_of_le h).1
    rw [hy] at hnumber
    cases hnumber
  exact if_neg hle

/-- What is no number gives way to every score. -/
theorem kept_eq_of_isNaN_held (hx : x.isNaN = true) : kept x y = y := by
  have hle : ¬y ≤ x := by
    intro h
    have hnumber := (isNaN_of_le h).2
    rw [hx] at hnumber
    cases hnumber
  exact if_neg hle

/-- Of two numbers one stays that is at least both. -/
theorem le_kept (hx : x.isNaN = false) (hy : y.isNaN = false) :
    x ≤ kept x y ∧ y ≤ kept x y := by
  unfold kept
  by_cases hle : y ≤ x
  · rw [if_pos hle]
    exact ⟨Double.le_refl hx, hle⟩
  · rw [if_neg hle]
    exact ⟨Double.le_of_not_le hy hx hle, Double.le_refl hy⟩

theorem kept_eq_or (x y : Float) : kept x y = x ∨ kept x y = y := by
  unfold kept
  split
  · exact .inl rfl
  · exact .inr rfl

end Double

/-- What is held after some scores have come one after another: the last, if it is no number, and
otherwise the best of those since the last that was no number. -/
def IsHeldAfter (scores : List Float) (t : Float) : Prop :=
  (t.isNaN = true ∧ scores.getLast? = some t) ∨
    ∃ earlier recent, scores = earlier ++ recent ∧ (∀ x ∈ earlier.getLast?, x.isNaN = true) ∧
      t ∈ recent ∧ ∀ x ∈ recent, x ≤ t

namespace IsHeldAfter

variable {scores : List Float} {s t x : Float}

/-- One score is held. -/
theorem singleton (s : Float) : IsHeldAfter [s] s := by
  cases hs : s.isNaN with
  | true => exact .inl ⟨hs, rfl⟩
  | false =>
    refine .inr ⟨[], [s], rfl, by simp, by simp, ?_⟩
    intro x hx
    rw [List.mem_singleton.1 hx]
    exact Double.le_refl hs

/-- **One more score keeps it so.** -/
theorem concat (h : IsHeldAfter scores t) (x : Float) :
    IsHeldAfter (scores ++ [x]) (kept t x) := by
  cases hx : x.isNaN with
  | true =>
    rw [Double.kept_eq_of_isNaN hx]
    exact .inl ⟨hx, List.getLast?_concat⟩
  | false =>
    obtain ⟨ht, hlast⟩ | ⟨earlier, recent, rfl, hearlier, hmem, hall⟩ := h
    · -- everything before `x` is forgotten
      rw [Double.kept_eq_of_isNaN_held ht]
      refine .inr ⟨scores, [x], rfl, ?_, by simp, ?_⟩
      · intro y hy
        rw [hlast] at hy
        rwa [← Option.some.inj hy]
      · intro y hy
        rw [List.mem_singleton.1 hy]
        exact Double.le_refl hx
    · have ht := (Double.isNaN_of_le (hall t hmem)).1
      obtain ⟨hheld, hnew⟩ := Double.le_kept ht hx
      refine .inr ⟨earlier, recent ++ [x], List.append_assoc .., hearlier, ?_, ?_⟩
      · rcases Double.kept_eq_or t x with heq | heq
        · simp [heq, hmem]
        · simp [heq]
      · intro y hy
        rcases List.mem_append.1 hy with hy | hy
        · exact Double.le_trans (hall y hy) hheld
        · rw [List.mem_singleton.1 hy]
          exact hnew

end IsHeldAfter

/-- **What stays is the best since the last that was no number.** -/
theorem isHeldAfter_foldl_kept (s : Float) (xs : List Float) :
    IsHeldAfter (s :: xs) (xs.foldl kept s) := by
  induction xs using List.reverseRecOn with
  | nil => exact .singleton s
  | append_singleton xs x ih =>
    rw [List.foldl_append]
    exact ih.concat x

/-- Of numbers one stays that is at least the first. -/
theorem le_foldl_kept {s : Float} {xs : List Float} (hs : s.isNaN = false)
    (hxs : ∀ x ∈ xs, x.isNaN = false) : s ≤ xs.foldl kept s := by
  induction xs generalizing s with
  | nil => exact Double.le_refl hs
  | cons x xs ih =>
    obtain ⟨hx, hxs⟩ := List.forall_mem_cons.1 hxs
    have hle := (Double.le_kept hs hx).1
    exact Double.le_trans hle (ih (Double.isNaN_of_le hle).2 hxs)

namespace FactGraph

/-- Whatever part of some later additions has been made, a key holds a score that is at least the
given one. -/
def NeverBelow (before after : List (Addition Float)) (key : FactKey) (s : Float) : Prop :=
  ∀ earlier, earlier <+: after →
    ∃ t, (extendAll (before ++ earlier)).heldScore? key = some t ∧ s ≤ t

variable {before after : List (Addition Float)} {key : FactKey} {s : Float}

theorem heldScore?_extendAll_append (hheld : (extendAll before).heldScore? key = some s)
    (after : List (Addition Float)) :
    (extendAll (before ++ after)).heldScore? key =
      some ((scoresFor key after).foldl kept s) := by
  have hsplit : extendAll (before ++ after) = after.foldl extend (extendAll before) :=
    List.foldl_append
  rw [hsplit]
  exact heldScore?_foldl_extend hheld after

/-- **A score that a key holds falls through what is no number, never otherwise.**  Whatever has
been added to an empty graph, and whatever is added later: a key that holds a score holds one for
good, the best of this one and of those given to the key later, since the last that was no number;
and it never holds less than this one if and only if this one and all later ones are numbers. -/
theorem neverBelow_iff (hheld : (extendAll before).heldScore? key = some s)
    (after : List (Addition Float)) :
    (∃ t, (extendAll (before ++ after)).heldScore? key = some t ∧
      IsHeldAfter (s :: scoresFor key after) t) ∧
    (NeverBelow before after key s ↔ s.isNaN = false ∧
      ∀ f ∈ given after, f.key = key → f.ScoreIn fun x => x.isNaN = false) := by
  refine ⟨⟨_, heldScore?_extendAll_append hheld after, isHeldAfter_foldl_kept s _⟩, ?_, ?_⟩
  · intro h
    have hs : s ≤ s := by
      obtain ⟨t, ht, hle⟩ := h [] List.nil_prefix
      rw [List.append_nil, hheld] at ht
      rwa [← Option.some.inj ht] at hle
    refine ⟨(Double.isNaN_of_le hs).1, ?_⟩
    intro f hf hkey x hx
    by_contra hnan
    -- right after this fact its score is held
    obtain ⟨earlier, later, rfl⟩ := List.append_of_mem (mem_given.1 hf)
    obtain ⟨t, ht, hle⟩ := h (earlier ++ [.fact f]) ⟨later, by simp⟩
    have hlast : (scoresFor key (earlier ++ [.fact f])).foldl kept s = x := by
      rw [scoresFor_append, ← hkey, scoresFor_fact, Option.mem_def.1 hx, List.foldl_append]
      exact Double.kept_eq_of_isNaN (Bool.eq_true_of_not_eq_false hnan)
    rw [heldScore?_extendAll_append hheld, hlast] at ht
    rw [← Option.some.inj ht] at hle
    exact hnan (Double.isNaN_of_le hle).2
  · rintro ⟨hs, hall⟩ earlier hearlier
    refine ⟨_, heldScore?_extendAll_append hheld earlier, le_foldl_kept hs ?_⟩
    intro x hx
    obtain ⟨f, hf, hkey, hscore⟩ := mem_scoresFor.1 hx
    exact hall f ((hearlier.filterMap Addition.fact?).subset hf) hkey x hscore

/-- Ann knows Bob, with some scores one after another. -/
def acquaintance (scores : List (Option Float)) : List (Addition Float) :=
  scores.map fun score => .fact ⟨⟨"Ann", .person⟩, "knows", ⟨"Bob", .person⟩, score, none⟩

/-- The key of the fact that Ann knows Bob. -/
def acquaintanceKey : FactKey := (⟨"Ann", .person⟩, "knows", ⟨"Bob", .person⟩)

/-- A score that falls through one that is no number, and is never below once there are only
numbers. -/
theorem neverBelow_iff_acquaintance :
    (extendAll (acquaintance [none, some 0.9])).heldScore? acquaintanceKey = some 0.9 ∧
    (∃ t, (extendAll (acquaintance [none, some 0.9] ++
        acquaintance [some (0 / 0), some 0.1, none, some 0.4, some 0.3])).heldScore?
          acquaintanceKey = some t ∧ IsHeldAfter [0.9, 0 / 0, 0.1, 0.4, 0.3] t) ∧
    NeverBelow (acquaintance [none, some 0.9]) (acquaintance [some 0.1, none, some 0.95])
      acquaintanceKey 0.9 := by
  have hheld : (extendAll (acquaintance [none, some 0.9])).heldScore? acquaintanceKey =
      some 0.9 := by rfl
  refine ⟨hheld, (neverBelow_iff hheld _).1, (neverBelow_iff hheld _).2.2 ⟨by decide, ?_⟩⟩
  decide

/-- **A score can fall through one that is no number.** -/
theorem not_neverBelow_acquaintance :
    (extendAll (acquaintance [some 0.9])).heldScore? acquaintanceKey = some 0.9 ∧
      ¬NeverBelow (acquaintance [some 0.9]) (acquaintance [some (0 / 0), some 0.1])
        acquaintanceKey 0.9 := by
  refine ⟨by rfl, ?_⟩
  intro h
  obtain ⟨t, ht, hle⟩ := h _ (List.prefix_refl _)
  have hfallen : (extendAll (acquaintance [some 0.9] ++
      acquaintance [some (0 / 0), some 0.1])).heldScore? acquaintanceKey = some 0.1 := by rfl
  rw [hfallen] at ht
  rw [← Option.some.inj ht] at hle
  exact absurd hle (by decide)

end FactGraph

end FactNet
