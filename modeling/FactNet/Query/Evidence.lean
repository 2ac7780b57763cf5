import FactNet.Domain
import FactNet.LogProb
import FactNet.Query.Selection

/-!
# Facts as evidence

Every fact whose predicate is declared becomes a clause of one literal over the constants of
its entities.  A fact of a closed predicate is certain, and so is one without a score; any
other has the log-odds of its score as its weight.

## Main definitions

* `Hacks.rescale` — the probability that a score stands for.
* `Evidence`, `Evidence.ofGraph` — the clauses of the facts, and the entities of constants.
* `translatePairings` — a limit on pairs of entities as one on pairs of constants.
-/

namespace FactNet

open Scalar

variable {α : Type} [Scalar α]

/-- The probability that a score stands for. -/
def Hacks.rescale (h : Hacks) (score : α) : α :=
  if h.alwaysTrue then one
  else if h.softPriors then half + decimal 4 1 * score
  else (one + score) / nat 2

/-- What the facts of a graph say about a program. -/
structure Evidence (α : Type) where
  /-- The predicates of the facts, and a clause for each fact. -/
  program : Program α
  /-- The constants of all entities, in the order they were met. -/
  entities : List (String × Entity)
  deriving Repr

namespace Evidence

/-- The clause of a fact whose predicate is declared, with the predicate. -/
def clause? (hacks : Hacks) (rules : Program α) (f : Fact α) : Option (Predicate × Rule α) :=
  (rules.get? f.predicateName).map fun p =>
    let l : Literal := ⟨p.name, cleanEntity f.head, cleanEntity f.tail, true⟩
    let weight :=
      match f.score with
      | none => top
      | some score => if p.closed then top else LogProb.logit (hacks.rescale score)
    (p, ⟨weight, [l]⟩)

/-- What the facts of a graph say about a program. -/
def ofGraph (hacks : Hacks) (g : FactGraph α) (rules : Program α) : Evidence α :=
  let clauses := g.edges.filterMap (clause? hacks rules)
  ⟨Program.ofParts (clauses.map (·.1)) (clauses.map (·.2)),
    Pairs.collapse <|
      g.edges.flatMap fun f => [(cleanEntity f.head, f.head), (cleanEntity f.tail, f.tail)]⟩

end Evidence

/-- The constants of the entities with a name. -/
def constantsNamed (entities : List (String × Entity)) (name : String) : List String :=
  (entities.filter fun e => e.2.name == name).map (·.1)

/-- A limit on pairs of entities, given by their names, as one on pairs of constants. -/
def translatePairings (pairings : List (String × List String))
    (entities : List (String × Entity)) : List (String × List String) :=
  (Pairs.collapse pairings).flatMap fun (name, partners) =>
    let allowed := sortedTexts (partners.flatMap (constantsNamed entities))
    (constantsNamed entities name).map fun constant => (constant, allowed)

end FactNet
