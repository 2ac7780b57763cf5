import Mathlib.Data.List.Induction
import Mathlib.Data.List.Nodup
import FactNet.Matching.Engine
import FactNet.Proofs.Growth

/-!
# What matching infers

For every vertex but the pivot, and every relation that rules add, the first rule that suits the two
entities decides whether there is a fact.  Of the facts that are found, each key is kept once.  None
of them is in the graph, and all of them are added together.

## Main results

* `Inference.mem_of_mem_firstOfEach`, `Inference.exists_mem_firstOfEach`,
  `Inference.nodup_firstOfEach` — what is kept was there, and every key is kept once.
* `Matcher.inferredBy_eq_some_iff` — **what the rules for a relation add about two entities.**
* `Matcher.exists_of_mem_inferred`, `Matcher.exists_mem_inferred` — what is inferred is added by
  some rule, and what some rule adds is inferred.
* `Matcher.mem_inferred_iff` — if every relation is filed once, the two are the same.
* `Matcher.growsBy_apply` — **the graph grows by the inferred facts.**
-/

namespace FactNet

variable {α : Type}

/-! ### Each fact once -/

namespace Inference

variable {is : List (Inference α)} {i : Inference α}

theorem firstOfEach_concat (is : List (Inference α)) (i : Inference α) :
    firstOfEach (is ++ [i]) =
      if (firstOfEach is).any fun k => k.fact.key == i.fact.key then firstOfEach is
      else firstOfEach is ++ [i] :=
  List.foldl_append

theorem mem_of_mem_firstOfEach (h : i ∈ firstOfEach is) : i ∈ is := by
  induction is using List.reverseRecOn with
  | nil => exact h
  | append_singleton is i' ih =>
    rw [firstOfEach_concat] at h
    split at h
    · exact List.mem_append_left _ (ih h)
    · exact List.mem_append.2 ((List.mem_append.1 h).imp_left ih)

/-- Every key is kept. -/
theorem exists_mem_firstOfEach (h : i ∈ is) : ∃ k ∈ firstOfEach is, k.fact.key = i.fact.key := by
  induction is using List.reverseRecOn with
  | nil => cases h
  | append_singleton is i' ih =>
    rw [firstOfEach_concat]
    rcases List.mem_append.1 h with h | h
    · obtain ⟨k, hk, hkey⟩ := ih h
      refine ⟨k, ?_, hkey⟩
      split
      · exact hk
      · exact List.mem_append_left _ hk
    · obtain rfl := List.mem_singleton.1 h
      split
      · next hany => simpa using hany
      · exact ⟨i, by simp, rfl⟩

/-- Every key is kept once. -/
theorem nodup_firstOfEach (is : List (Inference α)) :
    ((firstOfEach is).map fun i => i.fact.key).Nodup := by
  induction is using List.reverseRecOn with
  | nil => exact .nil
  | append_singleton is i ih =>
    rw [firstOfEach_concat]
    split
    · exact ih
    · next hany =>
      rw [List.map_append, List.map_singleton, ← List.concat_eq_append, List.nodup_concat]
      exact ⟨by simpa using hany, ih⟩

end Inference

/-! ### Inferred facts -/

namespace Matcher

variable [Scalar α] {m : Matcher α} {g : FactGraph α} {pivot sink : Entity} {relation : String}
  {rules : List (MatchRule α)} {i : Inference α}

/-- **What the rules for a relation add about two entities** is what the first of them adds that
suits the two, if that is probable enough and the fact is not there. -/
theorem inferredBy_eq_some_iff : m.inferredBy g pivot sink relation rules = some i ↔
    admits relation pivot sink = true ∧ g.contains (pivot, relation, sink) = false ∧
      ∃ r, rules.find? (·.suits g pivot sink) = some r ∧ m.minProb < r.probability ∧
        i = ⟨r.conclude g relation pivot sink, r⟩ := by
  have hguard : ∀ r : MatchRule α,
      (decide (m.minProb < r.probability) && !g.contains (pivot, relation, sink)) = true ↔
        m.minProb < r.probability ∧ g.contains (pivot, relation, sink) = false := by simp
  unfold inferredBy
  constructor
  · intro h
    split at h
    · next hadmits =>
      split at h
      · cases h
      · next r hfind =>
        split at h
        · next hprob =>
          obtain ⟨hprob, hfresh⟩ := (hguard r).1 hprob
          exact ⟨hadmits, hfresh, r, hfind, hprob, (Option.some.inj h).symm⟩
        · cases h
    · cases h
  · rintro ⟨hadmits, hfresh, r, hfind, hprob, rfl⟩
    rw [if_pos hadmits, hfind]
    exact if_pos ((hguard r).2 ⟨hprob, hfresh⟩)

/-- The key of a fact that is added tells what it is about. -/
theorem key_of_inferredBy (h : m.inferredBy g pivot sink relation rules = some i) :
    i.fact.key = (pivot, relation, sink) := by
  obtain ⟨-, -, r, -, -, rfl⟩ := inferredBy_eq_some_iff.1 h
  rfl

/-- What is inferred is added by the rules for a relation, about the pivot and another vertex. -/
theorem exists_of_mem_inferred (h : i ∈ m.inferred g pivot) :
    ∃ sink ∈ g.vertices, sink ≠ pivot ∧
      ∃ e ∈ m.book.rules, m.inferredBy g pivot sink e.1 e.2 = some i := by
  obtain ⟨sink, hsink, h⟩ := List.mem_flatMap.1 (Inference.mem_of_mem_firstOfEach h)
  obtain ⟨hsink, hne⟩ := List.mem_filter.1 hsink
  obtain ⟨e, he, hi⟩ := List.mem_filterMap.1 h
  exact ⟨sink, hsink, by simpa using hne, e, he, hi⟩

theorem head_of_mem_inferred (h : i ∈ m.inferred g pivot) : i.fact.head = pivot := by
  obtain ⟨sink, -, -, e, -, hby⟩ := exists_of_mem_inferred h
  exact congrArg Prod.fst (key_of_inferredBy hby)

/-- What is added by the rules for a relation, about the pivot and another vertex, is inferred. -/
theorem exists_mem_inferred (hsink : sink ∈ g.vertices) (hne : sink ≠ pivot)
    (hrules : (relation, rules) ∈ m.book.rules)
    (h : m.inferredBy g pivot sink relation rules = some i) :
    ∃ i' ∈ m.inferred g pivot, i'.fact.key = i.fact.key := by
  refine Inference.exists_mem_firstOfEach (List.mem_flatMap.2 ⟨sink, ?_, ?_⟩)
  · exact List.mem_filter.2 ⟨hsink, by simpa using hne⟩
  · exact List.mem_filterMap.2 ⟨(relation, rules), hrules, h⟩

/-- If every relation is filed once, nothing that the rules add is passed over. -/
theorem mem_inferred_iff (hkeys : (m.book.rules.map (·.1)).Nodup) : i ∈ m.inferred g pivot ↔
    ∃ sink ∈ g.vertices, sink ≠ pivot ∧
      ∃ e ∈ m.book.rules, m.inferredBy g pivot sink e.1 e.2 = some i := by
  refine ⟨exists_of_mem_inferred, ?_⟩
  rintro ⟨sink, hsink, hne, ⟨relation, rules⟩, he, hby⟩
  obtain ⟨k, hk, hkey⟩ := exists_mem_inferred hsink hne he hby
  -- what has the same key is about the same vertex and by the rules for the same relation
  obtain ⟨sink', -, -, e', he', hby'⟩ := exists_of_mem_inferred hk
  rw [key_of_inferredBy hby, key_of_inferredBy hby'] at hkey
  simp only [Prod.mk.injEq, true_and] at hkey
  obtain ⟨hrelation, rfl⟩ := hkey
  obtain rfl : e' = (relation, rules) := List.inj_on_of_nodup_map hkeys he' he hrelation
  obtain rfl : k = i := Option.some.inj (hby'.symm.trans hby)
  exact hk

/-- **The graph grows by the inferred facts.** -/
theorem growsBy_apply [Numeral α] (m : Matcher α) (g : FactGraph α) (pivot : Entity) :
    g.GrowsBy pivot ((m.inferred g pivot).map (·.fact)) (m.apply g pivot).1 := by
  refine FactGraph.growsBy_addAll ?_ ?_ ?_ ?_
  · rintro f hf
    obtain ⟨i, hi, rfl⟩ := List.mem_map.1 hf
    obtain ⟨sink, -, -, e, -, hby⟩ := exists_of_mem_inferred hi
    rw [key_of_inferredBy hby]
    exact (inferredBy_eq_some_iff.1 hby).2.1
  · rw [List.map_map]
    exact Inference.nodup_firstOfEach _
  · rintro f hf
    obtain ⟨i, hi, rfl⟩ := List.mem_map.1 hf
    exact head_of_mem_inferred hi
  · rintro f hf
    obtain ⟨i, hi, rfl⟩ := List.mem_map.1 hf
    obtain ⟨sink, hsink, -, e, -, hby⟩ := exists_of_mem_inferred hi
    have htail : i.fact.tail = sink := congrArg (·.2.2) (key_of_inferredBy hby)
    exact .inl (htail ▸ hsink)

end Matcher

end FactNet
