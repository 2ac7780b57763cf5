import Mathlib.Logic.Function.Basic
import FactNet.Proofs.BestFacts

/-!
# Facts reached from either end

A fact graph lists its facts once and picks those at a vertex out of the list.  A graph that is to
be walked keeps two maps instead, from each entity to those that it has facts about and from each
entity to those that have facts about it.  Both maps refer to the facts from one entity to another
by the number of a record, so a fact that takes the place of another one is written once and seen
from both ends.

The two graphs show the same whatever is added to them.  That rests on the two maps being in step:
one refers to a record from a head to a tail just when the other one does from that tail to that
head, and no other pair of entities shares the record.

## Main definitions

* `Adjacency` — facts in records that two maps refer to.
* `Adjacency.add`, `Adjacency.addVertex`, `Adjacency.extendAll` — what makes such graphs.
* `Adjacency.Represents` — the two maps are in step, and the records hold the facts of a fact graph.
* `Views`, `Views.Agree` — what a graph shows of its facts, and whether it shows the same everywhere.

## Main results

* `Adjacency.Represents.addVertex`, `Adjacency.Represents.add` — **an addition keeps them in step.**
* `Adjacency.Represents.views_eq` — **what is in step is shown alike.**
* `FactGraph.views_agree` — **all views of a graph agree**, whatever has been added.
-/

namespace FactNet

/-! ### Views -/

/-- What a graph shows of its facts. -/
structure Views (α : Type) where
  /-- The vertices. -/
  vertices : List Entity
  /-- The facts about an entity. -/
  outgoing : Entity → List (Fact α)
  /-- The facts that reach an entity. -/
  incoming : Entity → List (Fact α)
  /-- The facts from one entity to another. -/
  between : Entity → Entity → List (Fact α)
  /-- Whether there is a fact with a key. -/
  contains : FactKey → Bool
  /-- The number of facts about an entity. -/
  outDegree : Entity → Nat
  /-- All facts. -/
  edges : List (Fact α)
  /-- The number of facts. -/
  size : Nat

/-- A graph shows the same facts everywhere. -/
structure Views.Agree {α : Type} (v : Views α) : Prop where
  /-- All facts are those about the vertices, one vertex after another. -/
  edges : v.edges = v.vertices.flatMap v.outgoing
  /-- A fact is seen from its head just if it is seen from its tail. -/
  incoming : ∀ head tail f, f ∈ v.outgoing head ∧ f.tail = tail ↔ f ∈ v.incoming tail ∧ f.head = head
  /-- It is seen from its head just if it is seen between the two. -/
  between : ∀ head tail f, f ∈ v.outgoing head ∧ f.tail = tail ↔ f ∈ v.between head tail
  /-- Everywhere it is the only one with its key. -/
  once : ∀ e e', ((v.outgoing e).map Fact.key).Nodup ∧ ((v.incoming e).map Fact.key).Nodup ∧
    ((v.between e e').map Fact.key).Nodup
  /-- A key is known just if there is a fact with it. -/
  contains : ∀ head relation tail, v.contains (head, relation, tail) = true ↔
    ∃ f ∈ v.between head tail, f.relation = relation
  outDegree : ∀ e, v.outDegree e = (v.outgoing e).length
  size : v.size = (v.vertices.map v.outDegree).sum

/-- What a fact graph shows. -/
def FactGraph.views {α : Type} (g : FactGraph α) : Views α :=
  ⟨g.vertices, g.outgoing, g.incoming, g.between, g.contains, g.outDegree, g.edges, g.size⟩

/-! ### Graphs of two maps -/

/-- Facts that are reached from either end.  The facts from one entity to another make a record,
which both maps refer to by its number. -/
structure Adjacency (α : Type) where
  /-- The vertices, in the order they were first mentioned. -/
  vertices : List Entity := []
  /-- The entities that an entity has facts about, each with the number of a record. -/
  successors : Entity → List (Entity × Nat) := fun _ => []
  /-- The entities that have facts about an entity, each with the number of a record. -/
  predecessors : Entity → List (Entity × Nat) := fun _ => []
  /-- The facts of each record, one for each relation, in the order their relations were first
  added. -/
  records : List (List (Fact α)) := []

namespace Adjacency

variable {α : Type}

/-! ### Questions -/

/-- The facts of a record. -/
def record (m : Adjacency α) (n : Nat) : List (Fact α) := (m.records[n]?).getD []

/-- The number of the record from one entity to another, if there is one. -/
def number? (m : Adjacency α) (head tail : Entity) : Option Nat :=
  ((m.successors head).find? fun s => s.1 == tail).map (·.2)

/-- The facts from one entity to another. -/
def between (m : Adjacency α) (head tail : Entity) : List (Fact α) :=
  match m.number? head tail with
  | none => []
  | some n => m.record n

/-- The fact with a key, if there is one. -/
def find? (m : Adjacency α) (key : FactKey) : Option (Fact α) :=
  (m.between key.1 key.2.2).find? fun f => f.relation == key.2.1

/-- Whether there is a fact with a key. -/
def contains (m : Adjacency α) (key : FactKey) : Bool := (m.find? key).isSome

/-- The facts about an entity. -/
def outgoing (m : Adjacency α) (e : Entity) : List (Fact α) :=
  (m.successors e).flatMap fun s => m.record s.2

/-- The facts that reach an entity. -/
def incoming (m : Adjacency α) (e : Entity) : List (Fact α) :=
  (m.predecessors e).flatMap fun s => m.record s.2

/-- The number of facts about an entity, counted by record. -/
def outDegree (m : Adjacency α) (e : Entity) : Nat :=
  ((m.successors e).map fun s => (m.record s.2).length).sum

/-- The number of facts that reach an entity, counted by record. -/
def inDegree (m : Adjacency α) (e : Entity) : Nat :=
  ((m.predecessors e).map fun s => (m.record s.2).length).sum

/-- All facts, by head. -/
def edges (m : Adjacency α) : List (Fact α) := m.vertices.flatMap m.outgoing

/-- The number of facts: every one is counted at both of its ends. -/
def size (m : Adjacency α) : Nat :=
  (m.vertices.map fun e => m.outDegree e + m.inDegree e).sum / 2

/-- What an adjacency shows. -/
def views (m : Adjacency α) : Views α :=
  ⟨m.vertices, m.outgoing, m.incoming, m.between, m.contains, m.outDegree, m.edges, m.size⟩

/-! ### Changes -/

/-- The graph with a vertex. -/
def addVertex (m : Adjacency α) (e : Entity) : Adjacency α :=
  if m.vertices.contains e then m else { m with vertices := m.vertices ++ [e] }

/-- The graph with other facts in a record. -/
def write (m : Adjacency α) (n : Nat) (facts : List (Fact α)) : Adjacency α :=
  { m with records := m.records.set n facts }

/-- The graph with a record of a fact alone, which both maps refer to. -/
def link (m : Adjacency α) (f : Fact α) : Adjacency α :=
  { m with
    successors :=
      Function.update m.successors f.head (m.successors f.head ++ [(f.tail, m.records.length)])
    predecessors :=
      Function.update m.predecessors f.tail (m.predecessors f.tail ++ [(f.head, m.records.length)])
    records := m.records ++ [[f]] }

/-- The graph with a fact that is put after the others of its record. -/
def append (m : Adjacency α) (f : Fact α) : Adjacency α :=
  match m.number? f.head f.tail with
  | none => m.link f
  | some n => m.write n (m.record n ++ [f])

/-- The graph with a fact in the place of that with its relation in its record. -/
def replace (m : Adjacency α) (f : Fact α) : Adjacency α :=
  match m.number? f.head f.tail with
  | none => m
  | some n =>
    m.write n ((m.record n).map fun old => if old.relation == f.relation then f else old)

section Additions

variable [Scalar α]

/-- The graph with a fact and its two entities, and whether the facts have changed. -/
def add (m : Adjacency α) (f : Fact α) : Adjacency α × Bool :=
  let m := (m.addVertex f.head).addVertex f.tail
  match m.find? f.key with
  | none => (m.append f, true)
  | some old => if old.outlasts f then (m, false) else (m.replace f, true)

/-- The graph with what is added. -/
def extend (m : Adjacency α) : Addition α → Adjacency α
  | .vertex e => m.addVertex e
  | .fact f => (m.add f).1

/-- The graph that some additions make of the empty one. -/
def extendAll (additions : List (Addition α)) : Adjacency α := additions.foldl extend {}

theorem extendAll_concat (additions : List (Addition α)) (a : Addition α) :
    extendAll (additions ++ [a]) = (extendAll additions).extend a := List.foldl_append

end Additions

/-! ### Maps in step -/

/-- The two maps are in step, and the records hold the facts of a fact graph. -/
structure Represents (m : Adjacency α) (g : FactGraph α) : Prop where
  vertices : m.vertices = g.vertices
  /-- An entity has a record for each entity that it has facts about. -/
  successors : ∀ e, (m.successors e).map Prod.fst =
    ((g.facts.filter fun f => f.head == e).map (·.tail)).eraseDups
  /-- An entity has a record for each entity that has facts about it. -/
  predecessors : ∀ e, (m.predecessors e).map Prod.fst =
    ((g.facts.filter fun f => f.tail == e).map (·.head)).eraseDups
  /-- The maps refer to the same records. -/
  linked : ∀ head tail n, (tail, n) ∈ m.successors head ↔ (head, n) ∈ m.predecessors tail
  /-- No two pairs of entities share a record. -/
  unshared : ∀ {head tail head' tail' n}, (tail, n) ∈ m.successors head →
    (tail', n) ∈ m.successors head' → head = head' ∧ tail = tail'
  /-- A record holds the facts between its two entities. -/
  held : ∀ head tail n, (tail, n) ∈ m.successors head → m.records[n]? = some (g.between head tail)

end Adjacency

namespace FactGraph

variable {α : Type} {g : FactGraph α} {f : Fact α} {head tail : Entity}

theorem mem_between : f ∈ g.between head tail ↔ f ∈ g.facts ∧ f.head = head ∧ f.tail = tail := by
  simp [between]

/-- The facts between two entities are those about the first that lead to the second. -/
theorem between_eq_filter_head (g : FactGraph α) (head tail : Entity) :
    g.between head tail =
      (g.facts.filter fun f => f.head == head).filter fun f => f.tail == tail := by
  rw [List.filter_filter, between]
  exact List.filter_congr fun f _ => Bool.and_comm _ _

/-- They are those that reach the second and are about the first. -/
theorem between_eq_filter_tail (g : FactGraph α) (head tail : Entity) :
    g.between head tail =
      (g.facts.filter fun f => f.tail == tail).filter fun f => f.head == head := by
  rw [List.filter_filter, between]

/-- The facts about an entity, by tail. -/
theorem outgoing_eq (g : FactGraph α) (e : Entity) : g.outgoing e =
    (((g.facts.filter fun f => f.head == e).map (·.tail)).eraseDups).flatMap (g.between e) := by
  rw [outgoing, gathered]
  exact List.flatMap_congr fun tail _ => (g.between_eq_filter_head e tail).symm

/-- The facts that reach an entity, by head. -/
theorem incoming_eq (g : FactGraph α) (e : Entity) : g.incoming e =
    (((g.facts.filter fun f => f.tail == e).map (·.head)).eraseDups).flatMap
      fun head => g.between head e := by
  rw [incoming, gathered]
  exact List.flatMap_congr fun head _ => (g.between_eq_filter_tail head e).symm

/-- A fact is looked up among those between its two entities. -/
theorem find?_eq_between (g : FactGraph α) (key : FactKey) :
    g.find? key = (g.between key.1 key.2.2).find? fun f => f.relation == key.2.1 := by
  rw [between, List.find?_filter, find?]
  congr 1
  funext f
  obtain ⟨head, relation, tail⟩ := key
  rw [Bool.eq_iff_iff]
  simp only [Fact.key, beq_iff_eq, Prod.mk.injEq, Bool.and_eq_true, decide_eq_true_eq]
  tauto

/-! ### What an addition does -/

/-- The vertices of a graph are different. -/
theorem Made.nodup_vertices [Scalar α] (h : g.Made) : g.vertices.Nodup := by
  have hstep {g : FactGraph α} (h : g.vertices.Nodup) (e : Entity) :
      (g.addVertex e).vertices.Nodup := by
    rw [vertices_addVertex]
    split
    · exact h
    · next he => exact List.concat_eq_append ▸ h.concat fun hmem => he (List.contains_iff_mem.2 hmem)
  induction h with
  | empty => exact .nil
  | addVertex _ e ih => exact hstep ih e
  | add _ f ih =>
    rw [vertices_add]
    exact hstep (hstep ih f.head) f.tail

/-- Each fact of a graph has a key of its own. -/
theorem Made.nodup_keys [Scalar α] (h : g.Made) : (g.facts.map Fact.key).Nodup := by
  induction h with
  | empty => exact .nil
  | addVertex _ e ih => rwa [facts_addVertex]
  | @add g _ f ih =>
    obtain ⟨hfresh, hfacts, -⟩ | ⟨old, hold, hkey, ⟨-, hfacts, -⟩ | ⟨-, hfacts, -⟩⟩ := add_cases g f
    · rw [hfacts, List.map_append, List.map_singleton, ← List.concat_eq_append]
      exact ih.concat (by simpa using hfresh)
    · rwa [hfacts]
    · rwa [hfacts, map_key_replaceFact]

/-- A fact that has changed the facts is one of them. -/
theorem mem_facts_of_add [Scalar α] (h : (g.add f).2 = true) : f ∈ (g.add f).1.facts := by
  obtain ⟨-, hfacts, -⟩ | ⟨old, hold, hkey, ⟨-, -, hanswer⟩ | ⟨-, hfacts, -⟩⟩ := add_cases g f
  · simp [hfacts]
  · rw [hanswer] at h
    cases h
  · rw [hfacts, mem_replaceFact]
    exact .inl ⟨rfl, old, hold, hkey⟩

theorem between_concat (g : FactGraph α) (f : Fact α) (head tail : Entity) :
    between { g with facts := g.facts ++ [f] } head tail =
      g.between head tail ++ if f.head = head ∧ f.tail = tail then [f] else [] := by
  rw [between, List.filter_append, List.filter_singleton, Bool.cond_eq_ite]
  simp only [between, Bool.and_eq_true, beq_iff_eq]

/-- A fact that takes the place of another one leaves all keys as they are, and so whatever is told
from them. -/
theorem map_filter_replaceFact {γ : Type} (facts : List (Fact α)) (f : Fact α)
    (p : FactKey → Bool) (k : FactKey → γ) :
    ((replaceFact facts f).filter fun f' => p f'.key).map (fun f' => k f'.key) =
      (facts.filter fun f' => p f'.key).map fun f' => k f'.key := by
  have hkeys (facts : List (Fact α)) : (facts.filter fun f' => p f'.key).map (fun f' => k f'.key) =
      ((facts.map Fact.key).filter p).map k := by
    rw [List.filter_map, List.map_map]
    rfl
  rw [hkeys, hkeys, map_key_replaceFact]

/-- Where no fact has its key, a fact takes no place. -/
theorem replaceFact_eq_self {facts : List (Fact α)} (h : ∀ old ∈ facts, old.key ≠ f.key) :
    replaceFact facts f = facts :=
  (List.map_congr_left fun old hold => if_neg fun hkey => h old hold (eq_of_beq hkey)).trans
    (List.map_id _)

theorem between_replaceFact (g : FactGraph α) (f : Fact α) (head tail : Entity) :
    between { g with facts := replaceFact g.facts f } head tail =
      replaceFact (g.between head tail) f := by
  unfold between replaceFact
  rw [List.filter_map]
  congr 1
  refine List.filter_congr fun old _ => ?_
  rw [Function.comp_apply]
  split
  · next h =>
    obtain ⟨hhead, hother⟩ := Prod.mk.inj (eq_of_beq h)
    obtain ⟨-, htail⟩ := Prod.mk.inj hother
    rw [hhead, htail]
  · rfl

end FactGraph

namespace Adjacency

variable {α : Type} {m : Adjacency α} {g : FactGraph α} {f : Fact α} {head tail : Entity} {n : Nat}

theorem mem_successors_link : (tail, n) ∈ (m.link f).successors head ↔
    (tail, n) ∈ m.successors head ∨ f.head = head ∧ f.tail = tail ∧ m.records.length = n := by
  by_cases h : f.head = head
  · subst h
    simp [link, Function.update_self, eq_comm]
  · simp [link, Function.update_of_ne (Ne.symm h), h]

theorem mem_predecessors_link : (head, n) ∈ (m.link f).predecessors tail ↔
    (head, n) ∈ m.predecessors tail ∨ f.head = head ∧ f.tail = tail ∧ m.records.length = n := by
  by_cases h : f.tail = tail
  · subst h
    simp [link, Function.update_self, eq_comm]
  · simp [link, Function.update_of_ne (Ne.symm h), h]

namespace Represents

/-! ### Records -/

theorem nodup_successors (h : m.Represents g) (e : Entity) :
    ((m.successors e).map Prod.fst).Nodup := by
  rw [h.successors]
  exact nodup_eraseDups _

theorem number?_eq_some_iff (h : m.Represents g) :
    m.number? head tail = some n ↔ (tail, n) ∈ m.successors head := by
  unfold number?
  constructor
  · intro hn
    obtain ⟨⟨t, k⟩, hfind, rfl⟩ := Option.map_eq_some_iff.1 hn
    obtain rfl : t = tail := by simpa using List.find?_some hfind
    exact List.mem_of_find?_eq_some hfind
  · intro hmem
    cases hfind : (m.successors head).find? fun s => s.1 == tail with
    | none => exact absurd (beq_self_eq_true tail) (List.find?_eq_none.1 hfind _ hmem)
    | some s =>
      have hname : s.1 = tail := by simpa using List.find?_some hfind
      rw [List.inj_on_of_nodup_map (h.nodup_successors head) (List.mem_of_find?_eq_some hfind) hmem
        hname, Option.map_some]

/-- There is no record where there are no facts. -/
theorem number?_eq_none_iff (h : m.Represents g) :
    m.number? head tail = none ↔ ∀ f ∈ g.facts, f.head = head → f.tail ≠ tail := by
  have hmem : (∃ n, (tail, n) ∈ m.successors head) ↔
      ∃ f ∈ g.facts, f.head = head ∧ f.tail = tail := by
    have hfst : (∃ n, (tail, n) ∈ m.successors head) ↔ tail ∈ (m.successors head).map Prod.fst := by
      simp
    rw [hfst, h.successors, List.mem_eraseDups]
    simp [and_assoc]
  rw [Option.eq_none_iff_forall_ne_some]
  simp only [ne_eq, h.number?_eq_some_iff]
  rw [← not_exists, hmem]
  push Not
  rfl

/-- The facts of a record are those between its two entities. -/
theorem record_eq (h : m.Represents g) (hn : (tail, n) ∈ m.successors head) :
    m.record n = g.between head tail := by
  rw [record, h.held head tail n hn, Option.getD_some]

theorem between_eq (h : m.Represents g) (head tail : Entity) :
    m.between head tail = g.between head tail := by
  unfold Adjacency.between
  split
  · next hnone =>
    rw [h.number?_eq_none_iff] at hnone
    exact (List.filter_eq_nil_iff.2 fun f hf => by simpa using hnone f hf).symm
  · next n hn => exact h.record_eq (h.number?_eq_some_iff.1 hn)

theorem find?_eq (h : m.Represents g) (key : FactKey) : m.find? key = g.find? key := by
  rw [g.find?_eq_between, Adjacency.find?, h.between_eq]

/-! ### Additions -/

theorem empty : ({} : Adjacency α).Represents {} where
  vertices := rfl
  successors _ := rfl
  predecessors _ := rfl
  linked _ _ _ := by simp
  unshared hn := by cases hn
  held _ _ _ hn := by cases hn

/-- Vertices are the same in both. -/
theorem addVertex (h : m.Represents g) (e : Entity) :
    (m.addVertex e).Represents (g.addVertex e) := by
  have hsame : m.vertices.contains e = g.hasVertex e := by rw [h.vertices, FactGraph.hasVertex]
  unfold Adjacency.addVertex FactGraph.addVertex
  rw [hsame]
  split
  · exact h
  · exact ⟨by rw [h.vertices], h.successors, h.predecessors, h.linked, h.unshared, h.held⟩

/-- What the facts say about every entity after one more fact, which says something new about its
own. -/
theorem eraseDups_filter_concat {facts : List (Fact α)} {k : Fact α → Entity}
    {l : Fact α → Entity} {f : Fact α} (hnew : ∀ f' ∈ facts, k f' = k f → l f' ≠ l f) (e : Entity) :
    (((facts ++ [f]).filter fun f' => k f' == e).map l).eraseDups =
      ((facts.filter fun f' => k f' == e).map l).eraseDups ++ if k f = e then [l f] else [] := by
  rw [List.filter_append, List.map_append, List.filter_singleton]
  by_cases he : k f = e
  · subst he
    rw [beq_self_eq_true, cond_true, List.map_singleton, eraseDups_concat, if_neg, if_pos rfl]
    simpa using hnew
  · rw [beq_false_of_ne he, cond_false, List.map_nil, List.append_nil, if_neg he, List.append_nil]

/-- A fact that repeats what another one says about its entity changes nothing of what the facts
say. -/
theorem eraseDups_filter_concat_of_mem {facts : List (Fact α)} {k : Fact α → Entity}
    {l : Fact α → Entity} {f f' : Fact α} (hf' : f' ∈ facts) (hk : k f' = k f) (hl : l f' = l f)
    (e : Entity) : (((facts ++ [f]).filter fun f' => k f' == e).map l).eraseDups =
      ((facts.filter fun f' => k f' == e).map l).eraseDups := by
  rw [List.filter_append, List.map_append, List.filter_singleton]
  by_cases he : k f = e
  · have hmem : l f ∈ (facts.filter fun f' => k f' == e).map l :=
      List.mem_map.2 ⟨f', List.mem_filter.2 ⟨hf', by rw [hk, he, beq_self_eq_true]⟩, hl⟩
    rw [he, beq_self_eq_true, cond_true, List.map_singleton, eraseDups_concat, if_pos hmem]
  · rw [beq_false_of_ne he, cond_false, List.map_nil, List.append_nil]

/-- A record has a number below that of the next one. -/
theorem lt_length_records (h : m.Represents g) (hn : (tail, n) ∈ m.successors head) :
    n < m.records.length :=
  (List.getElem?_eq_some_iff.1 (h.held head tail n hn)).1

/-- The records after a new one: it holds the fact, and those before hold what they held. -/
theorem held_link (h : m.Represents g) (hnone : m.number? f.head f.tail = none)
    (hn : (tail, n) ∈ (m.link f).successors head) :
    (m.link f).records[n]? =
      some (FactGraph.between { g with facts := g.facts ++ [f] } head tail) := by
  rw [FactGraph.between_concat]
  obtain hn | ⟨rfl, rfl, rfl⟩ := mem_successors_link.1 hn
  · have hother : ¬(f.head = head ∧ f.tail = tail) := by
      rintro ⟨rfl, rfl⟩
      rw [h.number?_eq_some_iff.2 hn] at hnone
      cases hnone
    rw [if_neg hother, List.append_nil, ← h.held head tail n hn]
    exact List.getElem?_append_left (h.lt_length_records hn)
  · rw [if_pos ⟨rfl, rfl⟩, ← h.between_eq, Adjacency.between, hnone, List.nil_append]
    exact List.getElem?_concat_length

/-- **A fact of two entities without a record** gets one, in both maps. -/
theorem link (h : m.Represents g) (hnone : m.number? f.head f.tail = none) :
    (m.link f).Represents { g with facts := g.facts ++ [f] } := by
  have hfresh := h.number?_eq_none_iff.1 hnone
  refine ⟨h.vertices, fun e => ?_, fun e => ?_, fun head tail n => ?_, ?_,
    fun head tail n => h.held_link hnone⟩
  · rw [eraseDups_filter_concat hfresh, ← h.successors]
    by_cases he : f.head = e
    · simp [Adjacency.link, he]
    · simp [Adjacency.link, Function.update_of_ne (Ne.symm he), he]
  · rw [eraseDups_filter_concat fun f' hf' htail hhead => hfresh f' hf' hhead htail,
      ← h.predecessors]
    by_cases he : f.tail = e
    · simp [Adjacency.link, he]
    · simp [Adjacency.link, Function.update_of_ne (Ne.symm he), he]
  · rw [mem_successors_link, mem_predecessors_link, h.linked]
  · intro head tail head' tail' n hn hn'
    rw [mem_successors_link] at hn hn'
    -- no record has the number of the new one
    obtain hn | ⟨rfl, rfl, rfl⟩ := hn <;> obtain hn' | ⟨rfl, rfl, heq⟩ := hn'
    · exact h.unshared hn hn'
    · exact absurd (h.lt_length_records hn) (by omega)
    · exact absurd (h.lt_length_records hn') (by omega)
    · exact ⟨rfl, rfl⟩

/-- **Other facts in a record** are facts of its two entities, seen from both of them. -/
theorem write (h : m.Represents g) (hn : (tail, n) ∈ m.successors head) {facts facts' : List (Fact α)}
    (hsuccessors : ∀ e, ((facts'.filter fun f => f.head == e).map (·.tail)).eraseDups =
      ((g.facts.filter fun f => f.head == e).map (·.tail)).eraseDups)
    (hpredecessors : ∀ e, ((facts'.filter fun f => f.tail == e).map (·.head)).eraseDups =
      ((g.facts.filter fun f => f.tail == e).map (·.head)).eraseDups)
    (hbetween : ∀ head' tail', FactGraph.between { g with facts := facts' } head' tail' =
      if head' = head ∧ tail' = tail then facts else g.between head' tail') :
    (m.write n facts).Represents { g with facts := facts' } := by
  refine ⟨h.vertices, fun e => (h.successors e).trans (hsuccessors e).symm,
    fun e => (h.predecessors e).trans (hpredecessors e).symm, h.linked, h.unshared,
    fun head' tail' k hk => ?_⟩
  rw [hbetween]
  by_cases hkn : k = n
  · subst hkn
    obtain ⟨rfl, rfl⟩ := h.unshared hk hn
    obtain ⟨hlt, -⟩ := List.getElem?_eq_some_iff.1 (h.held _ _ _ hn)
    rw [if_pos ⟨rfl, rfl⟩]
    exact List.getElem?_set_self hlt
  · have hother : ¬(head' = head ∧ tail' = tail) := by
      rintro ⟨rfl, rfl⟩
      have hk' := h.number?_eq_some_iff.2 hk
      exact hkn (Option.some.inj (hk'.symm.trans (h.number?_eq_some_iff.2 hn)))
    rw [if_neg hother, ← h.held head' tail' k hk]
    exact List.getElem?_set_ne (Ne.symm hkn)

/-- A fact put after the others is put after those of its record. -/
theorem append (h : m.Represents g) (f : Fact α) :
    (m.append f).Represents { g with facts := g.facts ++ [f] } := by
  unfold Adjacency.append
  split
  · next hnone => exact h.link hnone
  · next n hsome =>
    have hn := h.number?_eq_some_iff.1 hsome
    -- there is a fact between the two entities already
    obtain ⟨f', hf', hhead, htail⟩ : ∃ f' ∈ g.facts, f'.head = f.head ∧ f'.tail = f.tail := by
      by_contra hnot
      push Not at hnot
      rw [h.number?_eq_none_iff.2 hnot] at hsome
      cases hsome
    refine h.write hn (eraseDups_filter_concat_of_mem hf' hhead htail)
      (eraseDups_filter_concat_of_mem hf' htail hhead) fun head tail => ?_
    rw [FactGraph.between_concat, h.record_eq hn]
    by_cases hsame : head = f.head ∧ tail = f.tail
    · obtain ⟨rfl, rfl⟩ := hsame
      rw [if_pos ⟨rfl, rfl⟩, if_pos ⟨rfl, rfl⟩]
    · rw [if_neg hsame, if_neg fun h => hsame ⟨h.1.symm, h.2.symm⟩, List.append_nil]

/-- Between its own entities, a fact takes the place of the one with its relation. -/
theorem replaceFact_between (g : FactGraph α) (f : Fact α) :
    FactGraph.replaceFact (g.between f.head f.tail) f =
      (g.between f.head f.tail).map fun old => if old.relation == f.relation then f else old := by
  refine List.map_congr_left fun old hold => ?_
  obtain ⟨-, hhead, htail⟩ := FactGraph.mem_between.1 hold
  have hkey : (old.key == f.key) = (old.relation == f.relation) := by
    rw [Bool.eq_iff_iff, beq_iff_eq, beq_iff_eq, Fact.key, Fact.key, hhead, htail]
    simp
  rw [hkey]

/-- A fact in the place of another one is in its place in the record. -/
theorem replace (h : m.Represents g) (f : Fact α) :
    (m.replace f).Represents { g with facts := FactGraph.replaceFact g.facts f } := by
  have hends {old : Fact α} (hkey : old.key = f.key) : old.head = f.head ∧ old.tail = f.tail := by
    obtain ⟨hhead, hother⟩ := Prod.mk.inj hkey
    exact ⟨hhead, (Prod.mk.inj hother).2⟩
  unfold Adjacency.replace
  split
  · next hnone =>
    have hfresh := h.number?_eq_none_iff.1 hnone
    rw [FactGraph.replaceFact_eq_self fun old hold hkey =>
      hfresh old hold (hends hkey).1 (hends hkey).2]
    exact h
  · next n hsome =>
    have hn := h.number?_eq_some_iff.1 hsome
    refine h.write hn (fun e => ?_) (fun e => ?_) fun head tail => ?_
    · exact congrArg _ (FactGraph.map_filter_replaceFact g.facts f (fun key => key.1 == e) (·.2.2))
    · exact congrArg _ (FactGraph.map_filter_replaceFact g.facts f (fun key => key.2.2 == e) (·.1))
    · rw [FactGraph.between_replaceFact, h.record_eq hn]
      by_cases hsame : head = f.head ∧ tail = f.tail
      · obtain ⟨rfl, rfl⟩ := hsame
        rw [if_pos ⟨rfl, rfl⟩, replaceFact_between]
      · rw [if_neg hsame]
        refine FactGraph.replaceFact_eq_self fun old hold hkey => hsame ?_
        obtain ⟨-, rfl, rfl⟩ := FactGraph.mem_between.1 hold
        exact hends hkey

/-- **A fact keeps the two graphs the same**, and they give the same answer to it. -/
theorem add [Scalar α] (h : m.Represents g) (f : Fact α) :
    (m.add f).1.Represents (g.add f).1 ∧ (m.add f).2 = (g.add f).2 := by
  have hends := (h.addVertex f.head).addVertex f.tail
  unfold Adjacency.add FactGraph.add
  dsimp only
  rw [hends.find?_eq]
  cases ((g.addVertex f.head).addVertex f.tail).find? f.key with
  | none => exact ⟨hends.append f, rfl⟩
  | some old =>
    dsimp only
    split
    · exact ⟨hends, rfl⟩
    · exact ⟨hends.replace f, rfl⟩

/-- **The two graphs are the same after any additions.** -/
theorem extendAll [Scalar α] (additions : List (Addition α)) :
    (Adjacency.extendAll additions).Represents (FactGraph.extendAll additions) := by
  induction additions using List.reverseRecOn with
  | nil => exact .empty
  | append_singleton additions a ih =>
    rw [Adjacency.extendAll_concat, FactGraph.extendAll_concat]
    cases a with
    | vertex e => exact ih.addVertex e
    | fact f => exact (ih.add f).1

/-! ### What is shown -/

/-- Both maps lead to the facts at a vertex. -/
theorem outgoing_eq (h : m.Represents g) (e : Entity) : m.outgoing e = g.outgoing e := by
  rw [g.outgoing_eq, ← h.successors, List.flatMap_map, Adjacency.outgoing]
  exact List.flatMap_congr fun s hs => h.record_eq hs

theorem incoming_eq (h : m.Represents g) (e : Entity) : m.incoming e = g.incoming e := by
  rw [g.incoming_eq, ← h.predecessors, List.flatMap_map, Adjacency.incoming]
  exact List.flatMap_congr fun s hs => h.record_eq ((h.linked s.1 e s.2).2 hs)

theorem outDegree_eq (h : m.Represents g) (e : Entity) : m.outDegree e = g.outDegree e := by
  rw [FactGraph.outDegree, ← h.outgoing_eq, Adjacency.outgoing, List.length_flatMap,
    Adjacency.outDegree]

theorem inDegree_eq (h : m.Represents g) (e : Entity) :
    m.inDegree e = (g.incoming e).length := by
  rw [← h.incoming_eq, Adjacency.incoming, List.length_flatMap, Adjacency.inDegree]

/-- Every fact is counted at each of its ends. -/
theorem sum_degrees [Scalar α] (h : m.Represents g) (hmade : g.Made) :
    (m.vertices.map m.outDegree).sum = g.size ∧ (m.vertices.map m.inDegree).sum = g.size := by
  have hnodup := hmade.nodup_vertices
  rw [funext h.outDegree_eq, funext h.inDegree_eq, h.vertices]
  constructor
  · refine List.length_flatMap.symm.trans (List.Perm.length_eq ?_)
    exact FactGraph.perm_edges hnodup fun f hf => (hmade.mem_vertices hf).1
  · refine List.length_flatMap.symm.trans (List.Perm.length_eq ?_)
    exact (List.Perm.flatMap_left _ fun _ _ => FactGraph.perm_gathered _ _).trans
      (FactGraph.perm_flatMap_filter hnodup fun f hf => (hmade.mem_vertices hf).2)

/-- **What is in step is shown alike.** -/
theorem views_eq [Scalar α] (h : m.Represents g) (hmade : g.Made) : m.views = g.views := by
  have hcontains : m.contains = g.contains := by
    funext key
    rw [Adjacency.contains, h.find?_eq, FactGraph.contains]
  have hedges : m.edges = g.edges := by
    rw [Adjacency.edges, FactGraph.edges, h.vertices, funext h.outgoing_eq]
  have hsize : m.size = g.size := by
    obtain ⟨hout, hin⟩ := h.sum_degrees hmade
    rw [Adjacency.size, List.sum_map_add, hout, hin]
    omega
  rw [Adjacency.views, FactGraph.views, h.vertices, funext h.outgoing_eq, funext h.incoming_eq,
    funext fun head => funext (h.between_eq head), hcontains, funext h.outDegree_eq, hedges, hsize]

end Represents

end Adjacency

/-! ### All views -/

namespace FactGraph

variable {α : Type} [Scalar α] {g : FactGraph α}

/-- A graph that is made by additions shows the same facts everywhere. -/
theorem Made.agree (h : g.Made) : g.views.Agree where
  edges := rfl
  incoming head tail f := by
    change f ∈ g.outgoing head ∧ _ ↔ f ∈ g.incoming tail ∧ _
    rw [mem_outgoing, mem_incoming]
    tauto
  between head tail f := by
    change f ∈ g.outgoing head ∧ _ ↔ f ∈ g.between head tail
    rw [mem_outgoing, mem_between]
    tauto
  once e e' := by
    -- what is shown is some of the facts, in some order
    have hnodup {p : Fact α → Bool} {fs : List (Fact α)} (hperm : fs.Perm (g.facts.filter p)) :
        (fs.map Fact.key).Nodup :=
      (hperm.map Fact.key).nodup_iff.2 (h.nodup_keys.sublist (List.filter_sublist.map Fact.key))
    exact ⟨hnodup (perm_gathered _ _), hnodup (perm_gathered _ _), hnodup (.refl _)⟩
  contains head relation tail := by
    change (g.find? _).isSome = true ↔ ∃ f ∈ g.between head tail, _
    rw [find?_eq_between, List.find?_isSome]
    simp only [beq_iff_eq]
  outDegree _ := rfl
  size := by
    have hheads := fun f hf => (h.mem_vertices (f := f) hf).1
    exact (perm_edges h.nodup_vertices hheads).length_eq.symm.trans List.length_flatMap

/-- **All views of a graph agree**, whatever vertices and facts have been added to it.

Its facts are those about its vertices, one vertex after another.  A fact is among those about its
head just if it is among those that reach its tail, and just if it is among those between the two;
it is there once, being the only one with its key.  A key is known just if there is a fact with it,
and facts are counted by their heads.  The graph of two maps that the same additions make shows all
of this alike, and answers the next fact alike.  A fact that has been let in, whether or not it has
taken the place of another one, is seen from both of its ends. -/
theorem views_agree (additions : List (Addition α)) :
    let g := extendAll additions
    let m := Adjacency.extendAll additions
    g.views.Agree ∧ m.views = g.views ∧
    ∀ f, (m.add f).2 = (g.add f).2 ∧
      ((g.add f).2 = true → f ∈ (m.add f).1.outgoing f.head ∧ f ∈ (m.add f).1.incoming f.tail ∧
        f ∈ (m.add f).1.between f.head f.tail) := by
  intro g m
  have hmade : g.Made := made_extendAll additions
  have hrep : m.Represents g := .extendAll additions
  refine ⟨hmade.agree, hrep.views_eq hmade, fun f => ⟨(hrep.add f).2, fun hf => ?_⟩⟩
  have hnew := (hrep.add f).1
  have hmem : f ∈ (g.add f).1.facts := mem_facts_of_add hf
  rw [hnew.outgoing_eq, hnew.incoming_eq, hnew.between_eq, mem_outgoing, mem_incoming, mem_between]
  exact ⟨⟨hmem, rfl⟩, ⟨hmem, rfl⟩, hmem, rfl, rfl⟩

end FactGraph

end FactNet
