import Mathlib.Data.List.Basic
import FactNet.Pairs
import FactNet.Proofs.Distinct

/-!
# Pairs and the values that count

Of the values that a name is given the last one counts.  Keeping every name once changes none of
them, and where no name is given two values they do not depend on the order.

## Main results

* `Pairs.last?_collapse` — **keeping every name once changes no value.**
* `Pairs.mem_collapse`, `Pairs.find?_collapse` — the values that are kept are those that count.
* `Pairs.last?_eq_some_iff` — where no name is given two values, the one that is given counts.
* `Pairs.last?_congr`, `Pairs.collapse_congr` — and neither the order of the pairs nor their
  repetition does.
* `Pairs.last?_filterMap`, `Pairs.last?_map` — the values that names are given by a rule, and under
  other names.
-/

namespace FactNet.Pairs

variable {κ β : Type} [BEq κ] [LawfulBEq κ]

omit [LawfulBEq κ] in
/-- Values given later count. -/
theorem last?_append (ps qs : List (κ × β)) (k : κ) :
    last? (ps ++ qs) k = (last? qs k).or (last? ps k) := by
  unfold last?
  rw [List.reverse_append, List.find?_append]
  cases qs.reverse.find? fun e => e.1 == k <;> rfl

omit [LawfulBEq κ] in
theorem last?_concat (ps : List (κ × β)) (k k' : κ) (b : β) :
    last? (ps ++ [(k', b)]) k = if k' == k then some b else last? ps k := by
  rw [last?_append]
  cases h : k' == k <;> simp [last?, h]

/-- The value that counts is given. -/
theorem mem_of_last?_eq_some {ps : List (κ × β)} {k : κ} {b : β} (h : last? ps k = some b) :
    (k, b) ∈ ps := by
  obtain ⟨e, he, rfl⟩ := Option.map_eq_some_iff.1 h
  have hkey : e.1 = k := by simpa using List.find?_some he
  exact hkey ▸ List.mem_reverse.1 (List.mem_of_find?_eq_some he)

/-- A name has a value that counts when it is given one. -/
theorem isSome_last? {ps : List (κ × β)} {k : κ} : (last? ps k).isSome = true ↔ ∃ b, (k, b) ∈ ps := by
  rw [last?, Option.isSome_map, List.find?_isSome]
  constructor
  · rintro ⟨⟨k', b⟩, he, heq⟩
    obtain rfl : k' = k := by simpa using heq
    exact ⟨b, List.mem_reverse.1 he⟩
  · rintro ⟨b, he⟩
    exact ⟨(k, b), List.mem_reverse.2 he, beq_self_eq_true k⟩

/-- Where no name is given two values, the one that is given counts. -/
theorem last?_eq_some_iff {ps : List (κ × β)} {k : κ} {b : β}
    (h : ∀ b', (k, b) ∈ ps → (k, b') ∈ ps → b' = b) : last? ps k = some b ↔ (k, b) ∈ ps := by
  refine ⟨mem_of_last?_eq_some, fun hmem => ?_⟩
  obtain ⟨b', hb'⟩ := Option.isSome_iff_exists.1 (isSome_last?.2 ⟨b, hmem⟩)
  rw [hb', h b' hmem (mem_of_last?_eq_some hb')]

/-- Where no name is given two values, the order of the pairs does not count. -/
theorem last?_congr {ps qs : List (κ × β)} (hmem : ∀ e, e ∈ ps ↔ e ∈ qs)
    (hone : ∀ k b b', (k, b) ∈ ps → (k, b') ∈ ps → b' = b) (k : κ) : last? ps k = last? qs k := by
  refine Option.ext fun b => ?_
  rw [last?_eq_some_iff fun b' => hone k b b', hmem,
    last?_eq_some_iff fun b' hb hb' => hone k b b' ((hmem _).2 hb) ((hmem _).2 hb')]

/-- The values that names are given by a rule. -/
theorem last?_filterMap (f : κ → Option β) (ks : List κ) (k : κ) :
    last? (ks.filterMap fun k => (f k).map fun b => (k, b)) k = if k ∈ ks then f k else none := by
  induction ks using List.reverseRecOn with
  | nil => rfl
  | append_singleton ks k' ih =>
    rw [List.filterMap_append]
    by_cases hk : k' = k
    · subst hk
      cases hf : f k' with
      | none => simp [hf, ih]
      | some b => simp [hf, last?_concat]
    · have hmem : k ∈ ks ++ [k'] ↔ k ∈ ks := by simp [Ne.symm hk]
      rw [if_congr hmem rfl rfl, ← ih]
      cases hf : f k' with
      | none => simp [hf]
      | some b => simp [hf, last?_concat, hk]

/-- Names can be exchanged for others, as long as the name that is asked for is told apart. -/
theorem last?_map {κ' : Type} [BEq κ'] [LawfulBEq κ'] (f : κ → κ') (ps : List (κ × β)) {k : κ}
    (hf : ∀ e ∈ ps, f e.1 = f k → e.1 = k) :
    last? (ps.map fun e => (f e.1, e.2)) (f k) = last? ps k := by
  induction ps using List.reverseRecOn with
  | nil => rfl
  | append_singleton ps e ih =>
    have hlast : (f e.1 == f k) = (e.1 == k) := by
      rw [Bool.eq_iff_iff, beq_iff_eq, beq_iff_eq]
      exact ⟨hf e (by simp), congrArg f⟩
    rw [List.map_append, List.map_singleton, last?_concat, last?_concat, hlast,
      ih fun e' he' => hf e' (List.mem_append_left _ he')]

/-- **Keeping every name once changes no value.** -/
theorem last?_collapse (ps : List (κ × β)) (k : κ) : last? (collapse ps) k = last? ps k := by
  rw [collapse, last?_filterMap]
  split
  · rfl
  · next hnot =>
    cases h : last? ps k with
    | none => rfl
    | some b =>
      refine absurd (List.mem_eraseDups.2 ?_) hnot
      exact List.mem_map.2 ⟨(k, b), mem_of_last?_eq_some h, rfl⟩

/-- The pairs that are kept are those whose value counts. -/
theorem mem_collapse {ps : List (κ × β)} {k : κ} {b : β} :
    (k, b) ∈ collapse ps ↔ last? ps k = some b := by
  rw [collapse, List.mem_filterMap]
  constructor
  · rintro ⟨k', -, heq⟩
    obtain ⟨b', hlast, heq⟩ := Option.map_eq_some_iff.1 heq
    cases heq
    exact hlast
  · intro hlast
    refine ⟨k, List.mem_eraseDups.2 ?_, by rw [hlast]; rfl⟩
    exact List.mem_map.2 ⟨(k, b), mem_of_last?_eq_some hlast, rfl⟩

/-- Once every name is kept once, the first value of a name is the one that counts. -/
theorem find?_collapse (ps : List (κ × β)) (k : κ) :
    ((collapse ps).find? fun e => e.1 == k).map (·.2) = last? ps k := by
  cases hfind : (collapse ps).find? fun e => e.1 == k with
  | some e =>
    obtain rfl : e.1 = k := by simpa using List.find?_some hfind
    exact (mem_collapse.1 (List.mem_of_find?_eq_some hfind)).symm
  | none =>
    cases hlast : last? ps k with
    | none => rfl
    | some b =>
      have hnot := List.find?_eq_none.1 hfind (k, b) (mem_collapse.2 hlast)
      exact absurd (beq_self_eq_true k) hnot

/-- Where every name is given one value, every pair is kept. -/
theorem collapse_eq_self {ps : List (κ × β)} (h : (ps.map (·.1)).Nodup) : collapse ps = ps := by
  rw [collapse, eraseDups_eq_self h, List.filterMap_map]
  have hlast : ∀ e ∈ ps, (last? ps e.1).map (fun b => (e.1, b)) = some e := by
    intro e he
    have hone : ∀ b', (e.1, e.2) ∈ ps → (e.1, b') ∈ ps → b' = e.2 := fun b' _ he' =>
      congrArg Prod.snd (List.inj_on_of_nodup_map h he' he rfl)
    rw [(last?_eq_some_iff hone).2 he, Option.map_some]
  exact (List.filterMap_congr hlast).trans List.filterMap_some

/-- **Repeating a pair changes nothing**, where no name is given two values. -/
theorem collapse_congr {ps qs : List (κ × β)} (h : firsts ps = firsts qs)
    (hone : ∀ k b b', (k, b) ∈ ps → (k, b') ∈ ps → b' = b) : collapse ps = collapse qs := by
  have hkeys : firsts (ps.map (·.1)) = firsts (qs.map (·.1)) := likeness_firsts.map h _
  have hvalues : last? ps = last? qs := funext (last?_congr (mem_iff_of_firsts_eq h) hone)
  rw [collapse, collapse, eraseDups_eq_firsts, eraseDups_eq_firsts, hkeys, hvalues]

end FactNet.Pairs
