import Mathlib.Data.List.Basic
import FactNet.Graph

/-!
# What is in a fact graph

The facts at a vertex are those of the graph with the vertex at that end, however they are
listed.  A graph is made by adding vertices and facts, and whatever has been added, both ends of
each of its facts are vertices.

## Main definitions

* `FactGraph.Made` — the graphs that additions make.

## Main results

* `FactGraph.mem_outgoing`, `FactGraph.mem_incoming` — the facts at a vertex.
* `FactGraph.mem_facts_add` — a fact of a graph was there before or is the one just added.
* `FactGraph.Made.mem_vertices` — **the ends of a fact are vertices.**
-/

namespace FactNet

/-- Bringing equal keys together leaves the elements what they are. -/
@[simp] theorem mem_gathered {β κ : Type} [BEq κ] [LawfulBEq κ] {key : β → κ} {xs : List β}
    {x : β} : x ∈ gathered key xs ↔ x ∈ xs := by
  simp only [gathered, List.mem_flatMap, List.mem_eraseDups, List.mem_map, List.mem_filter,
    beq_iff_eq]
  constructor
  · rintro ⟨-, -, hx, -⟩
    exact hx
  · intro hx
    exact ⟨key x, ⟨x, hx, rfl⟩, hx, rfl⟩

/-- What a fact relates. -/
theorem Fact.key_eq_iff {α : Type} {f : Fact α} {head tail : Entity} {relation : String} :
    f.key = (head, relation, tail) ↔ f.head = head ∧ f.relation = relation ∧ f.tail = tail := by
  simp [Fact.key]

namespace FactGraph

variable {α : Type} {g : FactGraph α} {e : Entity} {f : Fact α}

@[simp] theorem mem_outgoing : f ∈ g.outgoing e ↔ f ∈ g.facts ∧ f.head = e := by
  simp [outgoing]

@[simp] theorem mem_incoming : f ∈ g.incoming e ↔ f ∈ g.facts ∧ f.tail = e := by
  simp [incoming]

/-! ### Additions -/

@[simp] theorem facts_addVertex : (g.addVertex e).facts = g.facts := by
  unfold addVertex
  split <;> rfl

@[simp] theorem mem_vertices_addVertex {e' : Entity} :
    e' ∈ (g.addVertex e).vertices ↔ e' ∈ g.vertices ∨ e' = e := by
  unfold addVertex hasVertex
  split
  · next h =>
    rw [List.contains_iff_mem] at h
    exact ⟨.inl, fun h' => h'.elim id fun heq => heq ▸ h⟩
  · simp

variable [Scalar α]

@[simp] theorem mem_vertices_add :
    e ∈ (g.add f).1.vertices ↔ e ∈ g.vertices ∨ e = f.head ∨ e = f.tail := by
  have hvertices : (g.add f).1.vertices = ((g.addVertex f.head).addVertex f.tail).vertices := by
    unfold add
    dsimp only
    split
    · rfl
    · split <;> rfl
  rw [hvertices, mem_vertices_addVertex, mem_vertices_addVertex, or_assoc]

/-- A fact of a graph was there before or is the one just added. -/
theorem mem_facts_add {f' : Fact α} (h : f' ∈ (g.add f).1.facts) : f' ∈ g.facts ∨ f' = f := by
  unfold add at h
  dsimp only at h
  split at h
  · simpa using h
  · split at h
    · exact .inl (by simpa using h)
    · obtain ⟨old, hold, rfl⟩ := List.mem_map.1 h
      split
      · exact .inr rfl
      · exact .inl (by simpa using hold)

/-- The graphs that are made by adding vertices and facts. -/
inductive Made : FactGraph α → Prop
  | empty : Made {}
  | addVertex {g : FactGraph α} (h : Made g) (e : Entity) : Made (g.addVertex e)
  | add {g : FactGraph α} (h : Made g) (f : Fact α) : Made (g.add f).1

/-- **The ends of a fact are vertices**, whatever has been added. -/
theorem Made.mem_vertices (h : g.Made) (hf : f ∈ g.facts) :
    f.head ∈ g.vertices ∧ f.tail ∈ g.vertices := by
  induction h with
  | empty => cases hf
  | addVertex _ e ih =>
    rw [facts_addVertex] at hf
    obtain ⟨hhead, htail⟩ := ih hf
    exact ⟨mem_vertices_addVertex.2 (.inl hhead), mem_vertices_addVertex.2 (.inl htail)⟩
  | add _ new ih =>
    rw [mem_vertices_add, mem_vertices_add]
    rcases mem_facts_add hf with hf | rfl
    · obtain ⟨hhead, htail⟩ := ih hf
      exact ⟨.inl hhead, .inl htail⟩
    · exact ⟨.inr (.inl rfl), .inr (.inr rfl)⟩

theorem Made.addAll (h : g.Made) (facts : List (Fact α)) : (g.addAll facts).Made := by
  induction facts generalizing g with
  | nil => exact h
  | cons f facts ih => exact ih (h.add f)

/-- The graph of some facts is made by adding them. -/
theorem made_ofFacts (facts : List (Fact α)) : (ofFacts facts).Made := Made.empty.addAll facts

end FactGraph

end FactNet
