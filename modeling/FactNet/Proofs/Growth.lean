import Mathlib.Data.List.Induction
import Mathlib.Data.List.Nodup
import FactNet.Proofs.Graph

/-!
# Graphs that grow around an entity

Inference adds facts to a graph one after another.  Every one of them is about the pivot, is not in
the graph when it is added, and leads to a vertex or to the pivot itself.  Then nothing happens to
the facts that are there: the new ones stand after them, each with a key of its own, and no entity
but the pivot becomes a vertex.

## Main definitions

* `FactGraph.GrowsBy` — a graph is another one with some new facts about an entity.

## Main results

* `FactGraph.add_of_fresh` — what a fact that is not there adds.
* `FactGraph.GrowsBy.add` — **a graph that has grown grows by one more fact.**
* `FactGraph.growsBy_addAll` — so it grows by a list of facts.
-/

namespace FactNet

namespace FactGraph

variable {α : Type} {g g' : FactGraph α} {pivot : Entity} {added : List (Fact α)} {f : Fact α}

/-! ### What is there -/

theorem contains_iff {key : FactKey} : g.contains key = true ↔ ∃ f ∈ g.facts, f.key = key := by
  simp [contains, find?, List.find?_isSome]

theorem contains_eq_false_iff {key : FactKey} :
    g.contains key = false ↔ ∀ f ∈ g.facts, f.key ≠ key := by
  rw [← Bool.not_eq_true, contains_iff]
  simp

theorem vertices_addVertex (g : FactGraph α) (e : Entity) : (g.addVertex e).vertices =
    if g.vertices.contains e then g.vertices else g.vertices ++ [e] := by
  unfold addVertex hasVertex
  split <;> rfl

theorem addVertex_of_mem {e : Entity} (h : e ∈ g.vertices) : g.addVertex e = g :=
  if_pos (List.contains_iff_mem.2 h)

/-- A fact that is not there is put after the others. -/
theorem add_of_fresh [Scalar α] (h : g.contains f.key = false) :
    (g.add f).1 = ⟨((g.addVertex f.head).addVertex f.tail).vertices, g.facts ++ [f]⟩ := by
  have hnone : ((g.addVertex f.head).addVertex f.tail).find? f.key = none := by
    simpa [contains, find?] using h
  simp [add, hnone]

/-! ### Growing -/

/-- A graph is another one with some new facts about an entity. -/
structure GrowsBy (g : FactGraph α) (pivot : Entity) (added : List (Fact α)) (g' : FactGraph α) :
    Prop where
  /-- The new facts stand after the others. -/
  facts : g'.facts = g.facts ++ added
  /-- None of them was there before. -/
  fresh : ∀ f ∈ added, g.contains f.key = false
  /-- None of them is there twice. -/
  keys : (added.map Fact.key).Nodup
  /-- They are about the entity. -/
  heads : ∀ f ∈ added, f.head = pivot
  /-- They lead to a vertex or to the entity itself. -/
  tails : ∀ f ∈ added, f.tail ∈ g.vertices ∨ f.tail = pivot
  /-- No vertex is new but for the entity. -/
  vertices : g'.vertices = g.vertices ∨ g'.vertices = (g.addVertex pivot).vertices

namespace GrowsBy

theorem refl (g : FactGraph α) (pivot : Entity) : g.GrowsBy pivot [] g where
  facts := (List.append_nil _).symm
  fresh _ h := by cases h
  keys := .nil
  heads _ h := by cases h
  tails _ h := by cases h
  vertices := .inl rfl

/-- A key that is not there is neither that of an old fact nor that of a new one. -/
theorem contains_eq_false_iff (h : g.GrowsBy pivot added g') {key : FactKey} :
    g'.contains key = false ↔ g.contains key = false ∧ key ∉ added.map Fact.key := by
  rw [FactGraph.contains_eq_false_iff, FactGraph.contains_eq_false_iff, h.facts,
    List.forall_mem_append, List.mem_map]
  simp only [ne_eq, not_exists, not_and]

/-- The entity has become a vertex if it was none. -/
theorem vertices_addVertex (h : g.GrowsBy pivot added g') :
    (g'.addVertex pivot).vertices = (g.addVertex pivot).vertices := by
  rcases h.vertices with heq | heq
  · rw [FactGraph.vertices_addVertex, FactGraph.vertices_addVertex, heq]
  · have hmem : pivot ∈ g'.vertices := heq ▸ mem_vertices_addVertex.2 (.inr rfl)
    rw [addVertex_of_mem hmem, heq]

/-- **A graph that has grown grows by one more fact** that is not there. -/
theorem add [Scalar α] (h : g.GrowsBy pivot added g') (hfresh : g'.contains f.key = false)
    (hhead : f.head = pivot) (htail : f.tail ∈ g.vertices ∨ f.tail = pivot) :
    g.GrowsBy pivot (added ++ [f]) (g'.add f).1 := by
  obtain ⟨hold, hnew⟩ := h.contains_eq_false_iff.1 hfresh
  rw [add_of_fresh hfresh]
  refine ⟨by rw [h.facts, List.append_assoc], ?_, ?_, ?_, ?_, .inr ?_⟩
  · exact List.forall_mem_append.2 ⟨h.fresh, List.forall_mem_singleton.2 hold⟩
  · rw [List.map_append, List.map_singleton, ← List.concat_eq_append]
    exact h.keys.concat hnew
  · exact List.forall_mem_append.2 ⟨h.heads, List.forall_mem_singleton.2 hhead⟩
  · exact List.forall_mem_append.2 ⟨h.tails, List.forall_mem_singleton.2 htail⟩
  · -- the tail is there once the head is
    have hmem : f.tail ∈ (g'.addVertex pivot).vertices := by
      rw [h.vertices_addVertex, mem_vertices_addVertex]
      exact htail
    rw [hhead, addVertex_of_mem hmem, h.vertices_addVertex]

end GrowsBy

/-- A graph grows by a list of facts, if none of them is there and each has a key of its own. -/
theorem growsBy_addAll [Scalar α] {fs : List (Fact α)} (hfresh : ∀ f ∈ fs, g.contains f.key = false)
    (hkeys : (fs.map Fact.key).Nodup) (hheads : ∀ f ∈ fs, f.head = pivot)
    (htails : ∀ f ∈ fs, f.tail ∈ g.vertices ∨ f.tail = pivot) :
    g.GrowsBy pivot fs (g.addAll fs) := by
  induction fs using List.reverseRecOn with
  | nil => exact .refl g pivot
  | append_singleton fs f ih =>
    rw [List.forall_mem_append, List.forall_mem_singleton] at hfresh hheads htails
    rw [List.map_append, List.map_singleton, ← List.concat_eq_append, List.nodup_concat] at hkeys
    have hgrown := ih hfresh.1 hkeys.2 hheads.1 htails.1
    have hadd : g.addAll (fs ++ [f]) = ((g.addAll fs).add f).1 := List.foldl_append
    rw [hadd]
    exact hgrown.add (hgrown.contains_eq_false_iff.2 ⟨hfresh.2, hkeys.1⟩) hheads.2 htails.2

end FactGraph

end FactNet
