import FactNet.Factor.Basic
import FactNet.Pairs
import FactNet.Program.Basic

/-!
# Networks

A network has variables, which stand for literals, and factors over them.  The score of a
world is the sum of the log-probabilities that the factors give it.  Some variables are fixed
to a value; the others are adjustable, each with a probability of being drawn true when a
world is drawn anew.

## Main definitions

* `BayesNet` — variables, factors and fixed values.
* `BayesNet.ofParts` — the network of some parts, or why they do not fit together.
* `BayesNet.score` — the score of a world.
* `BayesNet.worldOf` — the world in which just some literals are true.
* `BayesNet.explain` — the grounded rules that bear on a literal in a world.
-/

namespace FactNet

open Scalar

/-- Why parts make no network. -/
inductive NetFault where
  /-- There has to be a chain at least. -/
  | noThreads
  /-- The logarithm given for a prior is too large. -/
  | overflow
  /-- A factor depends on a variable that there is not. -/
  | unknownVariable (factor : String) (id : Nat)
  deriving DecidableEq, Repr, Inhabited

/-- A fault in words.  A logarithm that is too large has no words of its own. -/
def NetFault.message : NetFault → String
  | .noThreads => "threads must be >= 1"
  | .overflow => ""
  | .unknownVariable factor i =>
    "Factor " ++ factor ++ " references unknown variable " ++ toString i

/-- Variables, and factors over them. -/
structure BayesNet (α : Type) where
  /-- The literals that the variables stand for, by number. -/
  literals : Array Literal
  /-- The factors. -/
  factors : Array (Factor α)
  /-- For every variable, the probability of drawing it true. -/
  priorProbs : Array α
  /-- The fixed variables with their values, each once. -/
  fixed : List (Nat × Bool)
  /-- The variables that are not fixed. -/
  adjustable : Array Nat
  /-- For every variable, the places of the factors that depend on it. -/
  touching : Array (List Nat)
  /-- Whether a search climbs from time to time. -/
  hillClimb : Bool := false
  /-- The number of chains. -/
  threads : Nat := 1
  deriving Inhabited

namespace BayesNet

variable {α : Type}

/-! ### Making networks -/

/-- The probability of drawing a variable true that has no prior. -/
def uninformedPrior [Scalar α] : α := decimal 2 1

/-- The first variable beyond the given number that a factor depends on. -/
def unknownVariable? (n : Nat) (factors : List (Factor α)) : Option (Factor α × Nat) :=
  factors.findSome? fun f => (f.components.find? fun i => n ≤ i).map fun i => (f, i)

/-- The network of variables, factors, logarithms of priors and fixed values. -/
def ofParts [Scalar α] (literals : List Literal) (factors : List (Factor α))
    (priors : List (Nat × α)) (fixed : List (Nat × Bool)) (hillClimb : Bool) (threads : Int) :
    Except NetFault (BayesNet α) :=
  let n := literals.length
  let ids := List.range n
  let known := ids.map fun i => Pairs.last? priors i
  if threads < 1 then .error .noThreads
  else if known.any fun p => p.any expOverflows then .error .overflow
  else
    match unknownVariable? n factors with
    | some (f, i) => .error (.unknownVariable f.text i)
    | none =>
      let placed := (factors.map Factor.components).zipIdx
      .ok {
        literals := literals.toArray
        factors := factors.toArray
        priorProbs := (known.map fun p => (p.map exp).getD uninformedPrior).toArray
        fixed := Pairs.collapse fixed
        adjustable := (ids.filter fun i => !fixed.any fun e => e.1 == i).toArray
        touching := (ids.map fun i =>
          placed.filterMap fun (vs, j) => if vs.contains i then some j else none).toArray
        hillClimb := hillClimb
        threads := threads.toNat }

/-- A network in one line. -/
def text (net : BayesNet α) : String :=
  "BayesNet(variables=" ++ toString net.literals.size ++ ", factors="
    ++ toString net.factors.size ++ ", fixed=" ++ toString net.fixed.length ++ ", adjustable="
    ++ toString net.adjustable.size ++ ")"

/-! ### Worlds -/

/-- The number of a literal without its negation; of equal variables the last one is meant. -/
def idOf? (net : BayesNet α) (l : Literal) : Option Nat :=
  Pairs.last? net.literals.toList.zipIdx l.asTrue

/-- The world in which just some literals are true; literals that are no variables do not
count. -/
def worldOf (net : BayesNet α) (trueOnes : List Literal) : World :=
  (World.allFalse net.literals.size).assignAll <|
    trueOnes.filterMap fun l => (net.idOf? l).map fun i => (i, true)

/-- The world in which the fixed variables have their values and all others are false. -/
def fixedWorld (net : BayesNet α) : World :=
  (World.allFalse net.literals.size).assignAll net.fixed

/-- The same world, refused if a fixed variable is none of the network's. -/
def fixedWorld? (net : BayesNet α) : Except EvalFault World :=
  if net.fixed.all fun e => e.1 < net.literals.size then .ok net.fixedWorld
  else .error .unassigned

/-- The literals with their values in a world.  Equal literals count once. -/
def literalValues (net : BayesNet α) (w : World) : List (Literal × Bool) :=
  Pairs.collapse (net.literals.toList.zipIdx.map fun (l, i) => (l, w.value i))

/-! ### Scores -/

/-- The sum of the log-probabilities that some factors give a world. -/
@[specialize] def scoreOf [Scalar α] (net : BayesNet α) (w : World) : List Nat → α → α
  | [], acc => acc
  | j :: js, acc =>
    if h : j < net.factors.size then scoreOf net w js (acc + net.factors[j].logProb w)
    else scoreOf net w js acc

/-- The score of a world. -/
@[specialize] def score [Scalar α] (net : BayesNet α) (w : World) : α :=
  net.factors.foldl (fun acc f => acc + f.logProb w) zero

/-- The score of a world that reaches all variables. -/
def score? [Scalar α] (net : BayesNet α) (w : World) : Except EvalFault α :=
  net.factors.foldl
    (fun acc f =>
      match acc with
      | .error e => .error e
      | .ok acc => (f.logProb? w).map (acc + ·))
    (.ok zero)

/-- The score of the world in which just some literals are true. -/
def logProb? [Scalar α] (net : BayesNet α) (trueOnes : List Literal) : Except EvalFault α :=
  net.score? (net.worldOf trueOnes)

/-- The names of the grounded rules that bear on a literal in the world in which just some literals
are true. -/
def explain (net : BayesNet α) (l : Literal) (trueOnes : List Literal) : List String :=
  match net.idOf? l with
  | none => []
  | some i =>
    let w := net.worldOf trueOnes
    (net.touching.getD i []).flatMap fun j =>
      match net.factors[j]? with
      | some f => if f.consequent = i then f.reasons w else []
      | none => []

end BayesNet

end FactNet
