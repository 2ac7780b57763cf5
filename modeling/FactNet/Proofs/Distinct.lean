import Mathlib.Data.List.Induction
import Mathlib.Data.List.Sort

/-!
# Lists without repetition

A list from which the repetitions are erased keeps the first occurrence of each element.  So lists
with the same elements keep the same ones, in some order, and lists with the same first
occurrences keep the same ones in the same order.  The second holds of whatever is made of
such lists element by element.

## Main definitions

* `firsts` — the first occurrences of the elements of a list, whether or not they can be compared.
* `Likeness` — a way in which lists are alike that is passed on to what is made of their elements.

## Main results

* `eraseDups_concat_any`, `eraseDups_concat` — one more element is kept if it is new.
* `nodup_eraseDups`, `eraseDups_sublist` — what is kept has no repetition and its order.
* `find?_key_eq_some_iff` — where no two elements share a key, the one with a key is found for it.
* `perm_eraseDups`, `sort_eraseDups_congr` — **what is kept depends on which elements there are.**
* `firsts_append_congr`, `firsts_flatMap_congr` — **lists made of lists with the same first
  occurrences have the same first occurrences.**
* `eraseDups_congr` — the same are kept of them.
* `countP_eraseDups` — of what is told to be the same one is kept.
* `likeness_mem`, `likeness_firsts` — having the same elements and having the same first
  occurrences are ways to be alike.
-/

namespace FactNet

/-! ### Elements that are told to be the same -/

/-- What is kept stands in its order, whatever is told to be the same. -/
theorem eraseDups_sublist {β : Type} [BEq β] (xs : List β) : xs.eraseDups.Sublist xs := by
  induction hn : xs.length using Nat.strongRecOn generalizing xs with
  | _ n ih =>
    cases xs with
    | nil => exact List.Sublist.refl _
    | cons x xs =>
      have hle : (xs.filter fun y => !y == x).length < n := by
        rw [← hn]
        exact Nat.lt_succ_of_le (List.length_filter_le _ _)
      rw [List.eraseDups_cons]
      exact ((ih _ hle _ rfl).trans List.filter_sublist).cons_cons x

section Same

variable {β : Type} [BEq β] [PartialEquivBEq β] {xs : List β} {x y : β}

/-- What is told to be the same is told to be there alike. -/
theorem any_beq_congr (h : (x == y) = true) : xs.any (· == x) = xs.any (· == y) := by
  rw [Bool.eq_iff_iff, List.any_eq_true, List.any_eq_true]
  constructor
  · rintro ⟨z, hz, hzx⟩
    exact ⟨z, hz, PartialEquivBEq.trans hzx h⟩
  · rintro ⟨z, hz, hzy⟩
    exact ⟨z, hz, PartialEquivBEq.trans hzy (PartialEquivBEq.symm h)⟩

/-- **One more element is kept if none before it is told to be the same.** -/
theorem eraseDups_concat_any (xs : List β) (x : β) :
    (xs ++ [x]).eraseDups =
      if xs.any (· == x) then xs.eraseDups else xs.eraseDups ++ [x] := by
  induction hn : xs.length using Nat.strongRecOn generalizing xs with
  | _ n ih =>
    cases xs with
    | nil => rfl
    | cons z xs =>
      rw [List.cons_append, List.eraseDups_cons, List.eraseDups_cons, List.filter_append,
        List.any_cons]
      by_cases hsame : (x == z) = true
      · simp [hsame, PartialEquivBEq.symm hsame]
      · have hother : (z == x) = false := by
          rw [Bool.eq_false_iff]
          exact fun h => hsame (PartialEquivBEq.symm h)
        -- what is the same as `x` is not the same as `z`, so it is left
        have hany : (xs.filter fun y => !y == z).any (· == x) = xs.any (· == x) := by
          rw [List.any_filter]
          refine List.any_congr rfl fun y => ?_
          by_cases hy : (y == x) = true
          · have hyz : (y == z) = false := by
              rw [Bool.eq_false_iff]
              exact fun h => hsame (PartialEquivBEq.trans (PartialEquivBEq.symm hy) h)
            simp [hy, hyz]
          · simp [hy]
        have hle : (xs.filter fun y => !y == z).length < n := by
          rw [← hn]
          exact Nat.lt_succ_of_le (List.length_filter_le _ _)
        have hkept : [x].filter (fun y => !y == z) = [x] := by simp [hsame]
        rw [hkept, ih _ hle _ rfl, hany, hother, Bool.false_or]
        split <;> rfl

/-- **All elements are kept just if no two are told to be the same.** -/
theorem eraseDups_eq_self_iff : xs.eraseDups = xs ↔ xs.Pairwise fun x y => (x == y) = false := by
  induction xs using List.reverseRecOn with
  | nil => simp
  | append_singleton xs x ih =>
    rw [eraseDups_concat_any, List.pairwise_append]
    cases hany : xs.any (· == x) with
    | true =>
      obtain ⟨y, hy, hsame⟩ := List.any_eq_true.1 hany
      refine iff_of_false (fun heq => ?_) (fun h => ?_)
      · have hle := (eraseDups_sublist xs).length_le
        have hlength := congrArg List.length heq
        simp at hlength
        omega
      · rw [h.2.2 y hy x (by simp)] at hsame
        cases hsame
    | false =>
      have hnone : ∀ y ∈ xs, ∀ z ∈ [x], (y == z) = false := by
        intro y hy z hz
        rw [List.mem_singleton.1 hz]
        exact Bool.eq_false_of_not_eq_true (List.any_eq_false.1 hany y hy)
      rw [if_neg Bool.false_ne_true, List.append_left_inj, ih]
      exact ⟨fun h => ⟨h, List.pairwise_singleton _ _, hnone⟩, fun h => h.1⟩

end Same

variable {α : Type} [BEq α] [LawfulBEq α]

/-- **One more element is kept if it is new.** -/
theorem eraseDups_concat (xs : List α) (x : α) :
    (xs ++ [x]).eraseDups = if x ∈ xs then xs.eraseDups else xs.eraseDups ++ [x] := by
  have hany : xs.any (· == x) = true ↔ x ∈ xs := by simp
  rw [eraseDups_concat_any]
  simp only [hany]

/-- What is kept has no repetition. -/
theorem nodup_eraseDups (xs : List α) : xs.eraseDups.Nodup := by
  induction xs using List.reverseRecOn with
  | nil => simp
  | append_singleton xs x ih =>
    rw [eraseDups_concat]
    split
    · exact ih
    · next h =>
      refine List.nodup_append.2 ⟨ih, by simp, fun a ha b hb => ?_⟩
      obtain rfl := List.mem_singleton.1 hb
      rintro rfl
      exact h (List.mem_eraseDups.1 ha)

/-- Where no two elements share a key, the one that is found for a key is the one with it. -/
theorem find?_key_eq_some_iff {β : Type} {key : β → α} {xs : List β} (h : (xs.map key).Nodup)
    {k : α} {x : β} : (xs.find? fun y => key y == k) = some x ↔ x ∈ xs ∧ key x = k := by
  refine ⟨fun hx => ⟨List.mem_of_find?_eq_some hx, by simpa using List.find?_some hx⟩, ?_⟩
  rintro ⟨hx, rfl⟩
  cases hfind : xs.find? fun y => key y == key x with
  | none => exact absurd (beq_self_eq_true (key x)) (List.find?_eq_none.1 hfind x hx)
  | some y =>
    have hkey : key y = key x := by simpa using List.find?_some hfind
    rw [List.inj_on_of_nodup_map h (List.mem_of_find?_eq_some hfind) hx hkey]

/-- **What is kept depends, up to its order, on which elements there are.** -/
theorem perm_eraseDups {xs ys : List α} (h : ∀ a, a ∈ xs ↔ a ∈ ys) :
    xs.eraseDups.Perm ys.eraseDups := by
  rw [List.perm_ext_iff_of_nodup (nodup_eraseDups _) (nodup_eraseDups _)]
  simpa [List.mem_eraseDups] using h

/-- Sorted and without repetition, numbers depend only on which there are. -/
theorem sort_eraseDups_congr {xs ys : List Nat} (h : ∀ a, a ∈ xs ↔ a ∈ ys) :
    xs.mergeSort.eraseDups = ys.mergeSort.eraseDups := by
  have hsorted : ∀ zs : List Nat, zs.mergeSort.eraseDups.Pairwise (· ≤ ·) := fun zs =>
    (List.pairwise_mergeSort' (· ≤ ·) zs).sublist (eraseDups_sublist _)
  exact (perm_eraseDups (by simpa using h)).eq_of_pairwise' (hsorted xs) (hsorted ys)

/-- What has no repetition is kept. -/
theorem eraseDups_eq_self {xs : List α} (h : xs.Nodup) : xs.eraseDups = xs := by
  induction xs using List.reverseRecOn with
  | nil => rfl
  | append_singleton xs x ih =>
    obtain ⟨hxs, -, hne⟩ := List.nodup_append.1 h
    rw [eraseDups_concat, if_neg fun hx => hne x hx x (by simp) rfl, ih hxs]

/-- Erasing repetitions before more is added changes nothing. -/
theorem eraseDups_append_left (xs ys : List α) :
    (xs.eraseDups ++ ys).eraseDups = (xs ++ ys).eraseDups := by
  induction ys using List.reverseRecOn with
  | nil => rw [List.append_nil, List.append_nil, eraseDups_eq_self (nodup_eraseDups xs)]
  | append_singleton ys y ih =>
    rw [← List.append_assoc, ← List.append_assoc, eraseDups_concat, eraseDups_concat, ih]
    simp [List.mem_eraseDups]

/-! ### First occurrences -/

section Firsts

variable {β γ : Type} {xs xs' ys ys' : List β}

open Classical in
/-- The first occurrences of the elements of a list. -/
noncomputable def firsts (xs : List β) : List β := xs.eraseDups

@[simp] theorem mem_firsts {x : β} : x ∈ firsts xs ↔ x ∈ xs := by
  classical
  exact List.mem_eraseDups

@[simp] theorem firsts_nil : firsts ([] : List β) = [] := rfl

theorem nodup_firsts (xs : List β) : (firsts xs).Nodup := by
  classical
  unfold firsts
  exact nodup_eraseDups xs

/-- Elements that can be compared have the same first occurrences. -/
theorem eraseDups_eq_firsts [hbeq : BEq β] [LawfulBEq β] (xs : List β) :
    xs.eraseDups = firsts xs := by
  classical
  unfold firsts
  congr
  exact lawful_beq_subsingleton hbeq instBEqOfDecidableEq

theorem mem_iff_of_firsts_eq (h : firsts xs = firsts ys) (x : β) : x ∈ xs ↔ x ∈ ys := by
  rw [← mem_firsts, h, mem_firsts]

theorem firsts_concat_of_mem {x : β} (h : x ∈ xs) : firsts (xs ++ [x]) = firsts xs := by
  classical
  rw [firsts, firsts, eraseDups_concat, if_pos h]

theorem firsts_concat_of_notMem {x : β} (h : x ∉ xs) : firsts (xs ++ [x]) = firsts xs ++ [x] := by
  classical
  rw [firsts, firsts, eraseDups_concat, if_neg h]

theorem perm_firsts (h : ∀ x, x ∈ xs ↔ x ∈ ys) : (firsts xs).Perm (firsts ys) := by
  classical
  exact perm_eraseDups h

/-- What tells elements apart makes different things of their first occurrences. -/
theorem firsts_map {f : β → γ} (hf : ∀ a ∈ xs, ∀ b ∈ xs, f a = f b → a = b) :
    firsts (xs.map f) = (firsts xs).map f := by
  induction xs using List.reverseRecOn with
  | nil => rfl
  | append_singleton xs x ih =>
    have hxs := ih fun a ha b hb => hf a (List.mem_append_left _ ha) b (List.mem_append_left _ hb)
    rw [List.map_append, List.map_singleton]
    by_cases hx : x ∈ xs
    · rw [firsts_concat_of_mem hx, firsts_concat_of_mem (List.mem_map_of_mem hx), hxs]
    · have hnew : f x ∉ xs.map f := by
        intro h
        obtain ⟨a, ha, heq⟩ := List.mem_map.1 h
        exact hx (hf a (List.mem_append_left _ ha) x (by simp) heq ▸ ha)
      rw [firsts_concat_of_notMem hx, firsts_concat_of_notMem hnew, hxs, List.map_append,
        List.map_singleton]

/-- What has occurred before makes no difference. -/
theorem firsts_append_of_subset (h : ys ⊆ xs) : firsts (xs ++ ys) = firsts xs := by
  induction ys using List.reverseRecOn with
  | nil => rw [List.append_nil]
  | append_singleton ys y ih =>
    have ⟨hys, hy⟩ := List.append_subset.1 h
    rw [← List.append_assoc, firsts_concat_of_mem (List.mem_append_left _ (by simpa using hy)),
      ih hys]

theorem firsts_append_left (xs ys : List β) : firsts (firsts xs ++ ys) = firsts (xs ++ ys) := by
  classical
  exact eraseDups_append_left xs ys

theorem firsts_append_right (xs ys : List β) : firsts (xs ++ firsts ys) = firsts (xs ++ ys) := by
  induction ys using List.reverseRecOn with
  | nil => rw [firsts_nil]
  | append_singleton ys y ih =>
    by_cases hy : y ∈ ys
    · rw [firsts_concat_of_mem hy, ih, ← List.append_assoc,
        firsts_concat_of_mem (List.mem_append_right _ hy)]
    · rw [firsts_concat_of_notMem hy, ← List.append_assoc, ← List.append_assoc]
      by_cases hx : y ∈ xs
      · rw [firsts_concat_of_mem (List.mem_append_left _ hx),
          firsts_concat_of_mem (List.mem_append_left _ hx), ih]
      · rw [firsts_concat_of_notMem (by simp [hx, hy]),
          firsts_concat_of_notMem (by simp [hx, hy]), ih]

/-- **Joined lists have the first occurrences of their parts.** -/
theorem firsts_append_congr (h : firsts xs = firsts xs') (h' : firsts ys = firsts ys') :
    firsts (xs ++ ys) = firsts (xs' ++ ys') := by
  rw [← firsts_append_left, ← firsts_append_right, h, h', firsts_append_right, firsts_append_left]

theorem firsts_flatMap_firsts (xs : List β) (f : β → List γ) :
    firsts ((firsts xs).flatMap f) = firsts (xs.flatMap f) := by
  induction xs using List.reverseRecOn with
  | nil => rfl
  | append_singleton xs x ih =>
    rw [List.flatMap_append, List.flatMap_singleton]
    by_cases hx : x ∈ xs
    · have hsubset : f x ⊆ xs.flatMap f := fun y hy => List.mem_flatMap.2 ⟨x, hx, hy⟩
      rw [firsts_concat_of_mem hx, ih, firsts_append_of_subset hsubset]
    · rw [firsts_concat_of_notMem hx, List.flatMap_append, List.flatMap_singleton]
      exact firsts_append_congr ih rfl

/-- **What is made of first occurrences has the first occurrences of what is made of all.** -/
theorem firsts_flatMap_congr {f g : β → List γ} (h : firsts xs = firsts xs')
    (hf : ∀ x ∈ xs, firsts (f x) = firsts (g x)) :
    firsts (xs.flatMap f) = firsts (xs'.flatMap g) := by
  have hsame : firsts (xs.flatMap f) = firsts (xs.flatMap g) := by
    clear h
    induction xs with
    | nil => rfl
    | cons x xs ih =>
      have ⟨hx, hxs⟩ := List.forall_mem_cons.1 hf
      exact firsts_append_congr hx (ih hxs)
  rw [hsame, ← firsts_flatMap_firsts xs, h, firsts_flatMap_firsts]

theorem firsts_filter (p : β → Bool) (xs : List β) :
    firsts (xs.filter p) = (firsts xs).filter p := by
  induction xs using List.reverseRecOn with
  | nil => rfl
  | append_singleton xs x ih =>
    rw [List.filter_append, List.filter_singleton]
    cases hp : p x
    · by_cases hx : x ∈ xs
      · simp [firsts_concat_of_mem hx, ih]
      · simp [firsts_concat_of_notMem hx, ih, hp]
    · by_cases hx : x ∈ xs
      · rw [firsts_concat_of_mem hx, ← ih]
        exact firsts_concat_of_mem (List.mem_filter.2 ⟨hx, hp⟩)
      · rw [firsts_concat_of_notMem hx, List.filter_append, ← ih]
        simpa [hp] using firsts_concat_of_notMem (x := x) fun h => hx (List.mem_of_mem_filter h)

theorem firsts_cons (x : β) (xs : List β) : ∃ p : β → Bool,
    (∀ y, p y = true ↔ y ≠ x) ∧ firsts (x :: xs) = x :: firsts (xs.filter p) := by
  classical
  refine ⟨fun y => !y == x, fun y => by simp, ?_⟩
  unfold firsts
  rw [List.eraseDups_cons]

/-- What is kept is among the elements, whatever is told to be the same. -/
theorem eraseDups_subset [BEq β] (xs : List β) : xs.eraseDups ⊆ xs := (eraseDups_sublist xs).subset

/-- For every element one is kept that is told to be the same, or the element itself. -/
theorem exists_mem_eraseDups [BEq β] {f : β → γ} (hf : ∀ x y, (x == y) = true → f x = f y)
    {xs : List β} {x : β} (hx : x ∈ xs) : ∃ y ∈ xs.eraseDups, f y = f x := by
  induction hn : xs.length using Nat.strongRecOn generalizing xs with
  | _ n ih =>
    cases xs with
    | nil => cases hx
    | cons z xs =>
      rw [List.eraseDups_cons]
      have hle : (xs.filter fun y => !y == z).length < n := by
        rw [← hn]
        exact Nat.lt_succ_of_le (List.length_filter_le _ _)
      rcases List.mem_cons.1 hx with rfl | hx
      · exact ⟨x, List.mem_cons_self, rfl⟩
      · by_cases hsame : (x == z) = true
        · exact ⟨z, List.mem_cons_self, (hf x z hsame).symm⟩
        · obtain ⟨y, hy, heq⟩ := ih _ hle (List.mem_filter.2 ⟨hx, by simpa using hsame⟩) rfl
          exact ⟨y, List.mem_cons_of_mem z hy, heq⟩

/-- Where every element is told to be itself, repetitions of the same are erased, whatever else is
told to be the same. -/
theorem eraseDups_firsts [BEq β] (n : Nat) : ∀ xs : List β, xs.length ≤ n →
    (∀ x ∈ xs, (x == x) = true) → (firsts xs).eraseDups = xs.eraseDups := by
  induction n with
  | zero =>
    intro xs hlength _
    rw [List.length_eq_zero_iff.1 (Nat.le_zero.1 hlength)]
    rfl
  | succ n ih =>
    intro xs hlength hself
    cases xs with
    | nil => rfl
    | cons x xs =>
      have ⟨hx, hxs⟩ := List.forall_mem_cons.1 hself
      obtain ⟨p, hp, hfirsts⟩ := firsts_cons x xs
      -- what is not told to be `x` is not `x`
      have hfilter : (xs.filter p).filter (fun y => !y == x) = xs.filter fun y => !y == x := by
        rw [List.filter_filter]
        refine List.filter_congr fun y _ => ?_
        by_cases hyx : y = x
        · rw [hyx, hx]
          rfl
        · rw [(hp y).2 hyx, Bool.and_true]
      have hle : (xs.filter fun y => !y == x).length ≤ n :=
        (List.length_filter_le _ _).trans (Nat.le_of_succ_le_succ hlength)
      rw [hfirsts, List.eraseDups_cons, List.eraseDups_cons, ← firsts_filter, hfilter,
        ih _ hle fun y hy => hxs y (List.mem_of_mem_filter hy)]

/-- **Of lists with the same first occurrences the same is kept**, where every element is told to be
itself. -/
theorem eraseDups_congr [BEq β] (h : firsts xs = firsts ys) (hself : ∀ x ∈ xs, (x == x) = true) :
    xs.eraseDups = ys.eraseDups := by
  rw [← eraseDups_firsts xs.length xs (Nat.le_refl _) hself, h,
    eraseDups_firsts ys.length ys (Nat.le_refl _) fun x hx =>
      hself x ((mem_iff_of_firsts_eq h x).2 hx)]

/-- Elements that are told apart have the same first occurrences. -/
theorem eraseDups_eq_firsts_of [BEq β] (h : ∀ x ∈ xs, ∀ y ∈ xs, (x == y) = true ↔ x = y) :
    xs.eraseDups = firsts xs := by
  have hnodup : ∀ ys : List β, ys.Nodup → (∀ x ∈ ys, ∀ y ∈ ys, (x == y) = true ↔ x = y) →
      ys.eraseDups = ys := by
    intro ys hys htold
    induction ys with
    | nil => rfl
    | cons y ys ih =>
      obtain ⟨hy, hys⟩ := List.nodup_cons.1 hys
      have hnew : ys.filter (fun z => !z == y) = ys := by
        refine List.filter_eq_self.2 fun z hz => ?_
        rw [Bool.not_eq_true', Bool.eq_false_iff, Ne,
          htold z (List.mem_cons_of_mem y hz) y List.mem_cons_self]
        exact fun heq => hy (heq ▸ hz)
      rw [List.eraseDups_cons, hnew, ih hys fun x hx z hz =>
        htold x (List.mem_cons_of_mem y hx) z (List.mem_cons_of_mem y hz)]
  rw [← eraseDups_firsts xs.length xs (Nat.le_refl _) fun x hx => (h x hx x hx).2 rfl]
  exact hnodup _ (nodup_firsts xs) fun x hx y hy => h x (mem_firsts.1 hx) y (mem_firsts.1 hy)

/-- What is told to be the same as an element is kept once. -/
theorem countP_eraseDups [BEq β] [PartialEquivBEq β] {xs : List β} {x : β} (hx : x ∈ xs)
    (hself : (x == x) = true) : xs.eraseDups.countP (x == ·) = 1 := by
  induction hn : xs.length using Nat.strongRecOn generalizing xs with
  | _ n ih =>
    cases xs with
    | nil => cases hx
    | cons y xs =>
      rw [List.eraseDups_cons]
      have hle : (xs.filter fun z => !z == y).length < n := by
        rw [← hn]
        exact Nat.lt_succ_of_le (List.length_filter_le _ _)
      by_cases hsame : (x == y) = true
      · -- nothing else that is the same is left
        rw [List.countP_cons_of_pos hsame, List.countP_eq_zero.2 fun z hz hxz => ?_]
        have hkept := (List.mem_filter.1 (eraseDups_subset _ hz)).2
        rw [PartialEquivBEq.trans (PartialEquivBEq.symm hxz) hsame] at hkept
        cases hkept
      · have hlater : x ∈ xs := (List.mem_cons.1 hx).resolve_left fun heq => hsame (heq ▸ hself)
        rw [List.countP_cons_of_neg hsame]
        exact ih _ hle (List.mem_filter.2 ⟨hlater, by simpa using hsame⟩) rfl

/-- A way in which lists are alike that is passed on to what is made of them element by element. -/
structure Likeness (R : ∀ {β : Type}, List β → List β → Prop) : Prop where
  /-- A list is like itself. -/
  refl : ∀ {β : Type} (xs : List β), R xs xs
  /-- Lists joined of lists that are alike are alike. -/
  append : ∀ {β : Type} {xs xs' ys ys' : List β}, R xs xs' → R ys ys' → R (xs ++ ys) (xs' ++ ys')
  /-- So are lists of what the elements are replaced with. -/
  flatMap : ∀ {β γ : Type} {xs xs' : List β} {f g : β → List γ}, R xs xs' →
    (∀ x ∈ xs, R (f x) (g x)) → R (xs.flatMap f) (xs'.flatMap g)
  /-- The first occurrences of lists that are alike are alike. -/
  firsts : ∀ {β : Type} {xs xs' : List β}, R xs xs' → R (firsts xs) (firsts xs')

namespace Likeness

variable {R : ∀ {β : Type}, List β → List β → Prop}

theorem filterMap (hR : Likeness R) (h : R xs xs') (f : β → Option γ) :
    R (xs.filterMap f) (xs'.filterMap f) := by
  rw [List.filterMap_eq_flatMap_toList, List.filterMap_eq_flatMap_toList]
  exact hR.flatMap h fun _ _ => hR.refl _

theorem map (hR : Likeness R) (h : R xs xs') (f : β → γ) : R (xs.map f) (xs'.map f) := by
  rw [List.map_eq_flatMap, List.map_eq_flatMap]
  exact hR.flatMap h fun _ _ => hR.refl _

theorem filter (hR : Likeness R) (h : R xs xs') (p : β → Bool) :
    R (xs.filter p) (xs'.filter p) := by
  rw [← List.filterMap_eq_filter]
  exact hR.filterMap h _

end Likeness

/-- Having the same elements is a way to be alike. -/
theorem likeness_mem : Likeness fun xs ys => ∀ x, x ∈ xs ↔ x ∈ ys where
  refl _ _ := Iff.rfl
  append h h' x := by rw [List.mem_append, List.mem_append, h, h']
  flatMap h hf y := by
    rw [List.mem_flatMap, List.mem_flatMap]
    constructor
    · rintro ⟨x, hx, hy⟩
      exact ⟨x, (h x).1 hx, (hf x hx y).1 hy⟩
    · rintro ⟨x, hx, hy⟩
      exact ⟨x, (h x).2 hx, (hf x ((h x).2 hx) y).2 hy⟩
  firsts h x := by rw [mem_firsts, mem_firsts, h]

/-- Having the same first occurrences is a way to be alike. -/
theorem likeness_firsts : Likeness fun xs ys => firsts xs = firsts ys where
  refl _ := rfl
  append := firsts_append_congr
  flatMap := firsts_flatMap_congr
  firsts h := by rw [h]

end Firsts

end FactNet
