import FactNet.Proofs.Ranked

/-!
# The first of the greatest

A pass over a list that keeps an item only if it is greater than what it has kept so far ends with
the first of the greatest items.  If none is greater than what the pass starts with, it ends with
that, which need not be an item.

That it ends with an item or with its start needs nothing of the numbers that are compared, that no
item is greater needs a strict order, and that it is the first needs ranks.

## Main definitions

* `keepGreatest` — what is kept after one more item.
* `IsFirstGreatest` — an item is greater than those before it, and none after it is greater.

## Main results

* `IsFirstGreatest.not_lt` — no item is greater.
* `foldl_keepGreatest_cases` — a pass ends with an item or with what it started with.
* `foldl_keepGreatest_of_comparable` — and no item is greater.
* `foldl_keepGreatest` — **a pass ends with the first of the greatest, or with what it started
  with.**
-/

namespace FactNet

open Scalar

variable {α β γ : Type} [Scalar α] {value : γ → α} {items : List γ} {c d : γ}

/-- What is kept, with its value, after one more item. -/
def keepGreatest (value : γ → α) (kept : α × γ) (c : γ) : α × γ :=
  if kept.1 < value c then (value c, c) else kept

/-- An item is greater than those before it, and none after it is greater. -/
def IsFirstGreatest (value : γ → α) (items : List γ) (c : γ) : Prop :=
  ∃ before after, items = before ++ c :: after ∧ (∀ d ∈ before, value d < value c) ∧
    ∀ d ∈ after, ¬value c < value d

/-! ### Something that is kept -/

/-- A pass ends with what it started with, if no item is greater, or with an item. -/
theorem foldl_keepGreatest_cases (value : γ → α) (items : List γ) (start : α × γ) :
    let last := items.foldl (keepGreatest value) start
    (last = start ∧ ∀ c ∈ items, ¬start.1 < value c) ∨
      (last.1 = value last.2 ∧ last.2 ∈ items) := by
  induction items using List.reverseRecOn with
  | nil => exact .inl ⟨rfl, List.forall_mem_nil _⟩
  | append_singleton items d ih =>
    rw [List.foldl_append, List.foldl_cons, List.foldl_nil, keepGreatest]
    split
    · exact .inr ⟨rfl, by simp⟩
    · next hnot =>
      rcases ih with ⟨hlast, hnone⟩ | ⟨hvalue, hmem⟩
      · rw [hlast] at hnot ⊢
        exact .inl ⟨rfl, List.forall_mem_append.2 ⟨hnone, List.forall_mem_singleton.2 hnot⟩⟩
      · exact .inr ⟨hvalue, List.mem_append_left _ hmem⟩

/-- Where numbers are told apart by comparing them, an item that is kept is greater than what the pass
started with, and no item is greater. -/
theorem foldl_keepGreatest_of_comparable {P : α → Prop} (hP : Comparable P) (start : α × γ)
    (hitems : ∀ c ∈ items, P (value c)) :
    let last := items.foldl (keepGreatest value) start
    (last = start ∧ ∀ c ∈ items, ¬start.1 < value c) ∨
      (last.1 = value last.2 ∧ last.2 ∈ items ∧ start.1 < last.1 ∧
        ∀ c ∈ items, ¬last.1 < value c) := by
  induction items using List.reverseRecOn with
  | nil => exact .inl ⟨rfl, List.forall_mem_nil _⟩
  | append_singleton items d ih =>
    obtain ⟨hitems, hd⟩ := List.forall_mem_append.1 hitems
    have hd := List.forall_mem_singleton.1 hd
    rw [List.foldl_append, List.foldl_cons, List.foldl_nil, keepGreatest]
    split
    · next hlt =>
      -- what is greater than the new item would have been greater than what it takes the place of
      have hgreatest : ∀ c ∈ items, ¬value d < value c := by
        intro c hc hgreater
        have habove := hP.trans hd (hitems c hc) hlt hgreater
        rcases ih hitems with ⟨hlast, hnone⟩ | ⟨-, -, -, hnone⟩
        · exact hnone c hc (hlast ▸ habove)
        · exact hnone c hc habove
      have hstarted : start.1 < value d := by
        rcases ih hitems with ⟨hlast, -⟩ | ⟨hvalue, hmem, hstarted, -⟩
        · exact hlast ▸ hlt
        · exact hP.trans (hvalue ▸ hitems _ hmem) hd hstarted hlt
      refine .inr ⟨rfl, by simp, hstarted, List.forall_mem_append.2 ⟨hgreatest, ?_⟩⟩
      exact List.forall_mem_singleton.2 (hP.irrefl hd)
    · next hnot =>
      rcases ih hitems with ⟨hlast, hnone⟩ | ⟨hvalue, hmem, hstarted, hnone⟩
      · rw [hlast] at hnot ⊢
        exact .inl ⟨rfl, List.forall_mem_append.2 ⟨hnone, List.forall_mem_singleton.2 hnot⟩⟩
      · refine .inr ⟨hvalue, List.mem_append_left _ hmem, hstarted, ?_⟩
        exact List.forall_mem_append.2 ⟨hnone, List.forall_mem_singleton.2 hnot⟩

/-! ### The first of the greatest -/

namespace IsFirstGreatest

theorem mem (h : IsFirstGreatest value items c) : c ∈ items := by
  obtain ⟨before, after, rfl, -⟩ := h
  simp

/-- It stays so if what is added is not greater. -/
theorem concat (h : IsFirstGreatest value items c) (hd : ¬value c < value d) :
    IsFirstGreatest value (items ++ [d]) c := by
  obtain ⟨before, after, rfl, hbefore, hafter⟩ := h
  refine ⟨before, after ++ [d], by simp, hbefore, ?_⟩
  exact List.forall_mem_append.2 ⟨hafter, List.forall_mem_singleton.2 hd⟩

variable [LinearOrder β] {rank : α → β} {P : α → Prop}

/-- **No item is greater.** -/
theorem not_lt (hrank : Ranked rank P) (hP : ∀ c ∈ items, P (value c))
    (h : IsFirstGreatest value items c) (hd : d ∈ items) : ¬value c < value d := by
  have hc := hP c h.mem
  have hd' := hP d hd
  obtain ⟨before, after, rfl, hbefore, hafter⟩ := h
  rcases List.mem_append.1 hd with hd | hd
  · exact hrank.asymm hd' hc (hbefore d hd)
  · rcases List.mem_cons.1 hd with rfl | hd
    · exact fun hlt => hrank.asymm hc hc hlt hlt
    · exact hafter d hd

end IsFirstGreatest

variable [LinearOrder β] {rank : α → β} {P : α → Prop}

/-- **A pass ends with the first of the greatest**, or with what it started with if no item is
greater. -/
theorem foldl_keepGreatest (hrank : Ranked rank P) (start : α × γ) (hstart : P start.1)
    (hP : ∀ c ∈ items, P (value c)) :
    let last := items.foldl (keepGreatest value) start
    (last = start ∧ ∀ c ∈ items, ¬start.1 < value c) ∨
      (last.1 = value last.2 ∧ start.1 < last.1 ∧ IsFirstGreatest value items last.2) := by
  induction items using List.reverseRecOn with
  | nil => exact .inl ⟨rfl, List.forall_mem_nil _⟩
  | append_singleton items d ih =>
    obtain ⟨hitems, hd⟩ := List.forall_mem_append.1 hP
    have hd := List.forall_mem_singleton.1 hd
    rw [List.foldl_append, List.foldl_cons, List.foldl_nil, keepGreatest]
    -- the last item is compared with what the others come to
    rcases ih hitems with ⟨hlast, hnone⟩ | ⟨hvalue, hstarted, hfirst⟩
    · rw [hlast]
      split
      · next hlt =>
        refine .inr ⟨rfl, hlt, items, [], rfl, fun c hc => ?_, List.forall_mem_nil _⟩
        exact hrank.lt_of_not_lt (hitems c hc) hstart hd (hnone c hc) hlt
      · next hnot =>
        exact .inl ⟨rfl, List.forall_mem_append.2 ⟨hnone, List.forall_mem_singleton.2 hnot⟩⟩
    · have hkept := hitems _ hfirst.mem
      split
      · next hlt =>
        rw [hvalue] at hlt hstarted
        refine .inr ⟨rfl, ?_, items, [], rfl, fun c hc => ?_, List.forall_mem_nil _⟩
        · exact hrank.lt_of_not_lt hstart hkept hd (hrank.asymm hstart hkept hstarted) hlt
        · exact hrank.lt_of_not_lt (hitems c hc) hkept hd (hfirst.not_lt hrank hitems hc) hlt
      · next hnot =>
        exact .inr ⟨hvalue, hstarted, hfirst.concat (hvalue ▸ hnot)⟩

end FactNet
