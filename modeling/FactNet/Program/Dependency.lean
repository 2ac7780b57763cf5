import FactNet.Program.Basic

/-!
# Dependencies between predicates

A rule makes every predicate of its head depend on every predicate of its body; equalities
do not count.  The dependencies of a program form a directed graph, and the program is
acyclic when no predicate depends on itself through one rule or several.

To decide it, the edges whose source nothing leads to are taken away, and again, until no
edge is left or none can go.

## Main definitions

* `Rule.bodyNames`, `Rule.headNames`, `Rule.edges` — what a rule adds to the graph.
* `Program.nodes`, `Program.edges` — the graph of a program.
* `Reaches`, `HasCycle` — paths and cycles of a set of edges.
* `isAcyclic` — the decision.
-/

namespace FactNet

/-- A dependency of the second predicate on the first. -/
abbrev Edge := String × String

namespace Rule

variable {α : Type}

/-- The predicates of the body. -/
def bodyNames (r : Rule α) : List String :=
  (r.literals.filter fun l => !l.isEquality && !l.truth).map (·.name)

/-- The predicates of the head. -/
def headNames (r : Rule α) : List String :=
  (r.literals.filter fun l => !l.isEquality && l.truth).map (·.name)

/-- The dependencies that a rule makes. -/
def edges (r : Rule α) : List Edge :=
  r.bodyNames.flatMap fun a => r.headNames.map fun c => (a, c)

theorem mem_edges {r : Rule α} {a c : String} :
    (a, c) ∈ r.edges ↔ a ∈ r.bodyNames ∧ c ∈ r.headNames := by
  simp [edges]

end Rule

namespace Program

variable {α : Type}

/-- The predicates that a program declares or mentions. -/
def nodes (p : Program α) : List String :=
  p.predicates.map (·.name) ++ p.rules.flatMap fun r => r.bodyNames ++ r.headNames

/-- The dependencies that the rules of a program make. -/
def edges (p : Program α) : List Edge :=
  p.rules.flatMap Rule.edges

end Program

/-! ### Cycles -/

/-- Some edges lead from one predicate to another. -/
def Reaches (edges : List Edge) : String → String → Prop :=
  Relation.TransGen fun a b => (a, b) ∈ edges

/-- Some predicate is led back to itself. -/
def HasCycle (edges : List Edge) : Prop :=
  ∃ a, Reaches edges a a

/-- The edges whose source some edge leads to. -/
def peel (edges : List Edge) : List Edge :=
  edges.filter fun e => edges.any fun f => f.2 == e.1

/-- The edges left after peeling some number of times. -/
def peelTimes : Nat → List Edge → List Edge
  | 0, edges => edges
  | n + 1, edges => peelTimes n (peel edges)

/-- Whether a set of edges has no cycle. -/
def isAcyclic (edges : List Edge) : Bool :=
  (peelTimes edges.length edges).isEmpty

theorem mem_peel {edges : List Edge} {a b : String} :
    (a, b) ∈ peel edges ↔ (a, b) ∈ edges ∧ ∃ z, (z, a) ∈ edges := by
  simp [peel]

/-- Whether a program is acyclic. -/
def Program.isAcyclic {α : Type} (p : Program α) : Bool :=
  FactNet.isAcyclic p.edges

end FactNet
