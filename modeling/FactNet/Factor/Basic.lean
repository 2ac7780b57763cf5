import FactNet.Factor.Cache
import FactNet.Factor.Eager
import FactNet.Text.Split

/-!
# Factors

A factor gives every world a log-probability that depends on a few of its variables only.
There are three kinds: a single grounded rule, which is indifferent where its antecedents do
not hold, and the two kinds of tables.

## Main definitions

* `Factor` — the three kinds.
* `Factor.logProb` — the log-probability of a world.
* `Factor.logProb?` — the same, refused where the world does not reach a variable that is read.
* `Factor.components` — the variables it depends on.
* `Factor.explanation` — the names of the grounded rules that hold.
-/

namespace FactNet

/-- What gives worlds a log-probability. -/
inductive Factor (α : Type) where
  /-- A single grounded rule. -/
  | entailment (rule : GroundedRule α)
  /-- A table whose entries are computed when they are asked for. -/
  | table (table : RuleTable α)
  /-- A table with all its entries. -/
  | eager (table : EagerTable α)
  deriving Repr, Inhabited

namespace Factor

variable {α : Type}

/-- The consequent. -/
def consequent : Factor α → Nat
  | .entailment r => r.consequent
  | .table t => t.consequent
  | .eager t => t.table.consequent

/-- The table of a factor that has one. -/
def table? : Factor α → Option (RuleTable α)
  | .entailment _ => none
  | .table t => some t
  | .eager t => some t.table

/-- The variables that the factor depends on, each once and in order. -/
def components : Factor α → List Nat
  | .entailment r => r.components
  | .table t => t.components
  | .eager t => t.table.components

/-- The names of the grounded rules. -/
def name : Factor α → String
  | .entailment r => r.name
  | .table t => t.name
  | .eager t => t.table.name

/-- A factor in one line. -/
def text : Factor α → String
  | .entailment r => "EntailmentFactor(" ++ Text.quote r.name ++ ")"
  | .table t =>
    "TableFactor(consequent=" ++ toString t.consequent ++ ", antecedents="
      ++ toString t.antecedents.length ++ ")"
  | .eager t =>
    "EagerTableFactor(consequent=" ++ toString t.table.consequent ++ ", antecedents="
      ++ toString t.table.antecedents.length ++ ")"

/-! ### Values -/

/-- The log-probability of a world. -/
@[specialize] def logProb [Scalar α] (f : Factor α) (w : World) : α :=
  match f with
  | .eager t => t.logProb w
  | .entailment r => if r.holds w.value then r.valueOf (w.value r.consequent) else LogProb.half
  | .table t =>
    let x := t.entry w.value
    if w.value t.consequent then x else LogProb.complement x

/-- Whether some variables all hold, read up to the first that does not. -/
def allHold? (w : World) : List Nat → Except EvalFault Bool
  | [] => .ok true
  | a :: as =>
    match w.value? a with
    | .ok true => allHold? w as
    | .ok false => .ok false
    | .error e => .error e

/-- The log-probability of a world that reaches all variables that are read. -/
def logProb? [Scalar α] (f : Factor α) (w : World) : Except EvalFault α :=
  match f with
  | .eager t => t.logProb? w
  | .table t => ((TableCache.mk t []).logProb? w).1
  | .entailment r =>
    match allHold? w r.antecedents with
    | .ok true => (w.value? r.consequent).map r.valueOf
    | .ok false => .ok LogProb.half
    | .error e => .error e

/-! ### Explanations -/

/-- The names of the grounded rules that hold in a world, one a line. -/
def explanation (f : Factor α) (w : World) : String :=
  match f with
  | .entailment r => if r.holds w.value then r.name else ""
  | .table t => t.explanation w.value
  | .eager t => t.table.explanation w.value

/-- The lines of an explanation; an empty one has none. -/
def reasons (f : Factor α) (w : World) : List String :=
  let s := f.explanation w
  if s.isEmpty then [] else Text.pieces '\n' s

end Factor

end FactNet
