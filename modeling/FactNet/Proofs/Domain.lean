import Mathlib.Data.List.Sort
import Mathlib.Data.String.Basic
import FactNet.Domain

/-!
# Domains in order

The constants of a type stay in order, each once, whatever is added to them and in whatever
order.

## Main definitions

* `Domains.Ordered` — the constants of every type stand in order.
* `Domains.Keyed` — every type is named once.

## Main results

* `pairwise_insertText` — a text put in its place keeps the order.
* `mem_sortedTexts`, `pairwise_sortedTexts` — texts put in order.
* `Domains.Ordered.add` — adding a constant keeps the order.
* `Domains.Ordered.nodup_get` — a type has each of its constants once.
* `Domains.Ordered.get_eq` — **which constants a type has tells how they stand.**
* `Domains.get_add` — a constant is put in its place among those of its type.
* `Domains.add_eq_self` — **adding a constant that a type has changes nothing.**
-/

namespace FactNet

/-- A text put in its place keeps the order. -/
theorem pairwise_insertText (s : String) {ts : List String} (h : ts.Pairwise (· < ·)) :
    (insertText s ts).Pairwise (· < ·) := by
  induction ts with
  | nil => exact List.pairwise_singleton _ s
  | cons t ts ih =>
    obtain ⟨ht, hts⟩ := List.pairwise_cons.mp h
    rw [insertText]
    split
    · exact h
    · next hne =>
      split
      · next hlt =>
        refine List.pairwise_cons.mpr ⟨fun u hu => ?_, h⟩
        rcases List.mem_cons.mp hu with rfl | hu
        · exact hlt
        · exact lt_trans hlt (ht u hu)
      · next hlt =>
        refine List.pairwise_cons.mpr ⟨fun u hu => ?_, ih hts⟩
        rcases mem_insertText.mp hu with rfl | hu
        · exact lt_of_le_of_ne (not_lt.mp hlt) (Ne.symm hne)
        · exact ht u hu

/-- A text that has its place among ordered texts keeps it. -/
theorem insertText_of_mem {s : String} {ts : List String} (h : ts.Pairwise (· < ·)) (hs : s ∈ ts) :
    insertText s ts = ts := by
  induction ts with
  | nil => cases hs
  | cons t ts ih =>
    obtain ⟨ht, hts⟩ := List.pairwise_cons.mp h
    rw [insertText]
    split
    · rfl
    · next hne =>
      have hmem : s ∈ ts := (List.mem_cons.mp hs).resolve_left hne
      rw [if_neg (not_lt_of_gt (ht s hmem)), ih hts hmem]

/-- Ordered texts are the same texts. -/
theorem mem_sortedTexts {x : String} {ts : List String} : x ∈ sortedTexts ts ↔ x ∈ ts := by
  have hfold : ∀ acc : List String,
      x ∈ ts.foldl (fun acc t => insertText t acc) acc ↔ x ∈ acc ∨ x ∈ ts := by
    induction ts with
    | nil => simp
    | cons t ts ih =>
      intro acc
      rw [List.foldl_cons, ih, mem_insertText, List.mem_cons]
      tauto
  simpa [sortedTexts] using hfold []

/-- Ordered texts are in order, each once. -/
theorem pairwise_sortedTexts (ts : List String) : (sortedTexts ts).Pairwise (· < ·) := by
  have hfold : ∀ acc : List String, acc.Pairwise (· < ·) →
      (ts.foldl (fun acc t => insertText t acc) acc).Pairwise (· < ·) := by
    induction ts with
    | nil => exact fun _ h => h
    | cons t ts ih => exact fun acc h => ih _ (pairwise_insertText t h)
  exact hfold [] .nil

namespace Domains

/-- The constants of every type stand in order. -/
def Ordered (d : Domains) : Prop :=
  ∀ e ∈ d.entries, e.2.Pairwise (· < ·)

variable {d : Domains}

theorem ordered_empty : Ordered {} := by
  intro e he
  cases he

theorem Ordered.declare (h : d.Ordered) (type : String) : (d.declare type).Ordered := by
  unfold Domains.declare
  split
  · exact h
  · intro e he
    rcases List.mem_append.mp he with he | he
    · exact h e he
    · rw [List.mem_singleton.mp he]
      exact .nil

/-- Adding a constant keeps the order. -/
theorem Ordered.add (h : d.Ordered) (type value : String) : (d.add type value).Ordered := by
  intro e he
  obtain ⟨e', he', rfl⟩ := List.mem_map.mp he
  have hold := h.declare type e' he'
  split
  · exact pairwise_insertText value hold
  · exact hold

theorem Ordered.addAll (h : d.Ordered) (type : String) (values : List String) :
    (d.addAll type values).Ordered := by
  unfold Domains.addAll
  generalize hd : d.declare type = d'
  have hd' : d'.Ordered := hd ▸ h.declare type
  clear hd
  induction values generalizing d' with
  | nil => exact hd'
  | cons v values ih => exact ih _ (hd'.add type v)

/-- The constants of a type stand in order. -/
theorem Ordered.pairwise_get (h : d.Ordered) (type : String) :
    (d.get type).Pairwise (· < ·) := by
  unfold get get?
  cases hfind : d.entries.find? fun e => e.1 == type with
  | none => exact .nil
  | some e => exact h e (List.mem_of_find?_eq_some hfind)

/-- A type has each of its constants once. -/
theorem Ordered.nodup_get (h : d.Ordered) (type : String) : (d.get type).Nodup :=
  (h.pairwise_get type).imp fun hlt => ne_of_lt hlt

/-- **Which constants a type has tells how they stand.** -/
theorem Ordered.get_eq {d' : Domains} (h : d.Ordered) (h' : d'.Ordered) {type : String}
    (hmem : ∀ value, value ∈ d.get type ↔ value ∈ d'.get type) : d.get type = d'.get type :=
  ((List.perm_ext_iff_of_nodup (h.nodup_get type) (h'.nodup_get type)).2 hmem).eq_of_pairwise'
    ((h.pairwise_get type).imp le_of_lt) ((h'.pairwise_get type).imp le_of_lt)

/-! ### The constants of a type -/

/-- Naming a type gives it no constants. -/
@[simp] theorem get_declare (d : Domains) (type type' : String) :
    (d.declare type).get type' = d.get type' := by
  unfold declare
  split
  · rfl
  · unfold get get?
    rw [List.find?_append]
    cases d.entries.find? fun e => e.1 == type' with
    | some e => rfl
    | none => by_cases htype : type = type' <;> simp [htype]

theorem exists_find?_declare (d : Domains) (type : String) :
    ∃ e, (d.declare type).entries.find? (fun e => e.1 == type) = some e := by
  rw [← Option.isSome_iff_exists, List.find?_isSome]
  unfold declare
  split
  · next h => simpa using h
  · exact ⟨(type, []), by simp⟩

/-- **A constant is put in its place among those of its type.** -/
theorem get_add (d : Domains) (type value type' : String) :
    (d.add type value).get type' =
      if type' = type then insertText value (d.get type) else d.get type' := by
  have hfind : (d.add type value).get? type' = ((d.declare type).get? type').map fun ts =>
      if type' = type then insertText value ts else ts := by
    unfold get? add
    rw [List.find?_map]
    -- the type of an entry stays when a constant is added to it
    have hkey : ((fun e : String × List String => e.1 == type') ∘ fun e =>
        if e.1 == type then (e.1, insertText value e.2) else e) = fun e => e.1 == type' := by
      funext e
      rw [Function.comp_apply]
      split <;> rfl
    rw [hkey, Option.map_map, Option.map_map]
    refine Option.map_congr fun e he => ?_
    have htype : e.1 = type' := by simpa using List.find?_some he
    rw [Function.comp_apply, Function.comp_apply, ← htype]
    by_cases h : e.1 = type <;> simp [h]
  have hget : ∀ type', (d.declare type).get type' = d.get type' := d.get_declare type
  rw [get, hfind]
  split
  · next h =>
    subst h
    obtain ⟨e, he⟩ := d.exists_find?_declare type'
    rw [← hget, get, get?, he]
    rfl
  · rw [← hget, get, Option.map_id']

/-- The constants of a type are those it had and the one that is added to it. -/
theorem mem_get_add {d : Domains} {type value type' value' : String} :
    value' ∈ (d.add type value).get type' ↔
      value' ∈ d.get type' ∨ value' = value ∧ type' = type := by
  rw [get_add]
  split
  · next h =>
    subst h
    rw [mem_insertText, or_comm]
    exact or_congr_right (and_iff_left rfl).symm
  · next h => exact (or_iff_left fun hsame => h hsame.2).symm

/-! ### Types -/

/-- Every type is named once. -/
def Keyed (d : Domains) : Prop := (d.entries.map (·.1)).Nodup

theorem keyed_empty : Keyed {} := List.nodup_nil

theorem Keyed.declare (h : d.Keyed) (type : String) : (d.declare type).Keyed := by
  unfold Domains.declare
  split
  · exact h
  · next hnew =>
    unfold Keyed
    rw [List.map_append, List.map_singleton]
    refine List.nodup_append.2 ⟨h, List.nodup_singleton _, fun t ht t' ht' heq => hnew ?_⟩
    obtain ⟨e, he, rfl⟩ := List.mem_map.1 ht
    exact List.any_eq_true.2 ⟨e, he, beq_iff_eq.2 (heq.trans (List.mem_singleton.1 ht'))⟩

theorem Keyed.add (h : d.Keyed) (type value : String) : (d.add type value).Keyed := by
  have hkeys : (d.add type value).entries.map (·.1) = (d.declare type).entries.map (·.1) := by
    unfold Domains.add
    rw [List.map_map]
    refine List.map_congr_left fun e _ => ?_
    rw [Function.comp_apply]
    split <;> rfl
  rw [Keyed, hkeys]
  exact h.declare type

/-- **Adding a constant that a type has changes nothing.** -/
theorem add_eq_self (hkeyed : d.Keyed) (hordered : d.Ordered) {type value : String}
    (h : value ∈ d.get type) : d.add type value = d := by
  unfold get get? at h
  cases hfind : d.entries.find? fun e => e.1 == type with
  | none =>
    rw [hfind] at h
    cases h
  | some e =>
    rw [hfind] at h
    have hmem := List.mem_of_find?_eq_some hfind
    have htype : e.1 = type := by simpa using List.find?_some hfind
    have hany : (d.entries.any fun e => e.1 == type) = true :=
      List.any_eq_true.2 ⟨e, hmem, beq_iff_eq.2 htype⟩
    have hnamed : d.declare type = d := if_pos hany
    have hentries : (d.entries.map fun e =>
        if e.1 == type then (e.1, insertText value e.2) else e) = d.entries := by
      refine (List.map_congr_left fun e' he' => ?_).trans (List.map_id _)
      split
      · next hsame =>
        -- the type is named once
        obtain rfl : e' = e := List.inj_on_of_nodup_map hkeyed he' hmem
          ((beq_iff_eq.1 hsame).trans htype.symm)
        rw [insertText_of_mem (hordered e' hmem) h]
        rfl
      · rfl
    rw [add, hnamed, hentries]

end Domains

end FactNet
