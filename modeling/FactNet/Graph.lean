import FactNet.Fact

/-!
# Fact graphs

The vertices of a fact graph are entities, in the order they were first mentioned, and its
edges are facts, at most one for each head, relation and tail.  A fact added again stays as
it is unless the new one has a better score; a fact that replaces another takes its place.

The facts about one head are listed by tail, the tails in the order of the first fact that
reaches them; the facts that reach one tail are listed by head in the same way.

## Main definitions

* `gathered` — a list with equal keys brought together.
* `FactGraph` — vertices and facts.
* `FactGraph.addVertex`, `FactGraph.add`, `FactGraph.ofFacts` — what makes graphs.
* `FactGraph.outgoing`, `FactGraph.incoming`, `FactGraph.between`, `FactGraph.edges` — the
  facts at a vertex, between two of them, and all of them.
-/

namespace FactNet

/-- The elements of a list, those with the same key brought together at the place of the first of
them. -/
def gathered {β κ : Type} [BEq κ] (key : β → κ) (xs : List β) : List β :=
  (xs.map key).eraseDups.flatMap fun k => xs.filter fun x => key x == k

/-- Entities, and facts between them. -/
structure FactGraph (α : Type) where
  /-- The vertices, in the order they were first mentioned. -/
  vertices : List Entity := []
  /-- The facts, in the order their keys were first added. -/
  facts : List (Fact α) := []
  deriving Repr, Inhabited

namespace FactGraph

variable {α : Type}

/-! ### Questions -/

/-- The fact with a key, if there is one. -/
def find? (g : FactGraph α) (key : FactKey) : Option (Fact α) :=
  g.facts.find? fun f => f.key == key

/-- Whether there is a fact with a key. -/
def contains (g : FactGraph α) (key : FactKey) : Bool :=
  (g.find? key).isSome

/-- Whether an entity is a vertex. -/
def hasVertex (g : FactGraph α) (e : Entity) : Bool :=
  g.vertices.contains e

/-- The facts from one entity to another. -/
def between (g : FactGraph α) (head tail : Entity) : List (Fact α) :=
  g.facts.filter fun f => f.head == head && f.tail == tail

/-- The facts about an entity. -/
def outgoing (g : FactGraph α) (e : Entity) : List (Fact α) :=
  gathered (·.tail) (g.facts.filter fun f => f.head == e)

/-- The facts that reach an entity. -/
def incoming (g : FactGraph α) (e : Entity) : List (Fact α) :=
  gathered (·.head) (g.facts.filter fun f => f.tail == e)

/-- The number of facts about an entity. -/
def outDegree (g : FactGraph α) (e : Entity) : Nat :=
  (g.outgoing e).length

/-- All facts, by head. -/
def edges (g : FactGraph α) : List (Fact α) :=
  g.vertices.flatMap g.outgoing

/-- The number of facts. -/
def size (g : FactGraph α) : Nat :=
  g.facts.length

/-- A graph in one line. -/
def text (g : FactGraph α) : String :=
  "EntityGraph(vertices=" ++ toString g.vertices.length ++ ", edges=" ++ toString g.size ++ ")"

/-! ### Changes -/

/-- The graph with a vertex. -/
def addVertex (g : FactGraph α) (e : Entity) : FactGraph α :=
  if g.hasVertex e then g else { g with vertices := g.vertices ++ [e] }

/-- The facts with one put in the place of that with its key. -/
def replaceFact (facts : List (Fact α)) (f : Fact α) : List (Fact α) :=
  facts.map fun old => if old.key == f.key then f else old

/-- The graph with a fact and its two entities, and whether the facts have changed. -/
def add [Scalar α] (g : FactGraph α) (f : Fact α) : FactGraph α × Bool :=
  let g := (g.addVertex f.head).addVertex f.tail
  match g.find? f.key with
  | none => ({ g with facts := g.facts ++ [f] }, true)
  | some old =>
    if old.outlasts f then (g, false) else ({ g with facts := replaceFact g.facts f }, true)

/-- The graph with several facts, added one after another. -/
def addAll [Scalar α] (g : FactGraph α) (facts : List (Fact α)) : FactGraph α :=
  facts.foldl (fun g f => (g.add f).1) g

/-- The graph of some facts. -/
def ofFacts [Scalar α] (facts : List (Fact α)) : FactGraph α :=
  addAll {} facts

end FactGraph

end FactNet
