import FactNet.Domain
import FactNet.Graph
import FactNet.Matching.Rule

/-!
# Finding rules in a graph

The consequent of a rule is bound to a pair of entities, and the other variables of its
antecedents are then bound to vertices one after another, in the order of their names.  A
vertex is consistent with the bindings so far when every antecedent that mentions its
variable can still be an edge of the graph.

## Main definitions

* `Bindings` — the entities of some variables.
* `MatchRule.isConsistent` — whether a variable may be bound to an entity.
* `MatchRule.completions` — all ways to bind the free variables.
* `MatchRule.firstCompletion?` — the first of them.
* `MatchRule.occursIn` — whether a rule is found for a pair of entities.
-/

namespace FactNet

/-- The entities that some variables are bound to. -/
abbrev Bindings := List (String × Entity)

namespace Bindings

/-- The entity that a variable is bound to. -/
def get? (b : Bindings) (x : String) : Option Entity :=
  (b.find? fun e => e.1 == x).map (·.2)

/-- The bindings with a variable bound to an entity. -/
def bind (b : Bindings) (x : String) (e : Entity) : Bindings :=
  (x, e) :: b.filter fun old => old.1 != x

/-- Whether an entity is the one a variable is bound to, if it is bound. -/
def allows (b : Bindings) (x : String) (e : Entity) : Bool :=
  match b.get? x with
  | none => true
  | some bound => e == bound

end Bindings

namespace MatchRule

variable {α : Type}

/-- The bindings of the variables of the consequent; a variable that stands for both entities is
bound to the second. -/
def bindConsequent (r : MatchRule α) (head tail : Entity) : Bindings :=
  (Bindings.bind [] r.consequent.headVar head).bind r.consequent.tailVar tail

/-- The variables of the antecedents that are not bound, in the order of their names. -/
def freeVariables (r : MatchRule α) (b : Bindings) : List String :=
  sortedTexts ((r.antecedents.flatMap Clause.vars).filter fun x => (b.get? x).isNone)

/-- Whether an antecedent can be an edge of the graph with an entity as the head. -/
def headFits (g : FactGraph α) (b : Bindings) (c : Clause) (e : Entity) : Bool :=
  fitsType c.headType e &&
    (g.outgoing e).any fun f => f.relation == c.relation && b.allows c.tailVar f.tail

/-- Whether an antecedent can be an edge of the graph with an entity as the tail. -/
def tailFits (g : FactGraph α) (b : Bindings) (c : Clause) (e : Entity) : Bool :=
  fitsType c.tailType e &&
    (g.incoming e).any fun f => f.relation == c.relation && b.allows c.headVar f.head

/-- Whether every antecedent that mentions a variable can be an edge of the graph when the variable
stands for an entity. -/
def isConsistent (r : MatchRule α) (g : FactGraph α) (b : Bindings) (x : String) (e : Entity) :
    Bool :=
  r.antecedents.all fun c =>
    (c.headVar != x || headFits g b c e) && (c.tailVar != x || tailFits g b c e)

/-- All ways to bind variables one after another to vertices that are consistent. -/
def completions (r : MatchRule α) (g : FactGraph α) : List String → Bindings → List Bindings
  | [], b => [b]
  | x :: xs, b =>
    (g.vertices.filter (r.isConsistent g b x)).flatMap fun e => completions r g xs (b.bind x e)

/-- The first way to bind variables one after another to vertices that are consistent. -/
def firstCompletion? (r : MatchRule α) (g : FactGraph α) :
    List String → Bindings → Option Bindings
  | [], b => some b
  | x :: xs, b =>
    g.vertices.findSome? fun e =>
      if r.isConsistent g b x e then firstCompletion? r g xs (b.bind x e) else none

/-- The ways to bind the free variables, or the first of them alone. -/
def consistentBindings (r : MatchRule α) (g : FactGraph α) (b : Bindings) (limitOne : Bool) :
    List Bindings :=
  if limitOne then (r.firstCompletion? g (r.freeVariables b) b).toList
  else r.completions g (r.freeVariables b) b

/-- Whether a rule is found in a graph with its consequent bound to a pair of entities. -/
def occursIn (r : MatchRule α) (g : FactGraph α) (head tail : Entity) : Bool :=
  let b := r.bindConsequent head tail
  r.isConsistent g b r.consequent.headVar head && r.isConsistent g b r.consequent.tailVar tail
    && !(r.consistentBindings g b true).isEmpty

end MatchRule

end FactNet
