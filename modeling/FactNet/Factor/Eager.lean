import FactNet.Factor.Table

/-!
# Tables with all entries listed

A table with few antecedents has all its entries computed at once, each at the place that the
pattern of its antecedents says, and beside them the log-probabilities that the consequent is
false.

## Main definitions

* `EagerTable` — a table with its entries.
* `EagerTable.ofTable` — the entries computed.
* `EagerTable.logProb` — the log-probability of the value of the consequent.
-/

namespace FactNet

open Scalar

/-- A table with its entries. -/
structure EagerTable (α : Type) where
  /-- The table. -/
  table : RuleTable α
  /-- By pattern, the log-probability that the consequent is true. -/
  ifTrue : Array α
  /-- By pattern, the log-probability that the consequent is false. -/
  ifFalse : Array α
  deriving Repr, Inhabited

namespace EagerTable

variable {α : Type} [Scalar α]

/-- The logarithm of one minus the probability whose logarithm is `x`, by the exponential less one
alone; there is none if the probability exceeds one. -/
@[inline] def complement (x : α) : α := log (-expLessOne x)

/-- The table with its entries, unless there are too many. -/
@[specialize] def ofTable (t : RuleTable α) : Except TableFault (EagerTable α) :=
  let n := t.antecedents.length
  if tableCeiling ≤ n then .error (.tooWide n)
  else
    let places := List.range (1 <<< n)
    if places.any fun bits => t.entryOverflows (RuleTable.ofPattern t.antecedents bits) then
      .error .overflow
    else
      let entries := places.map fun bits => t.entry (RuleTable.ofPattern t.antecedents bits)
      .ok ⟨t, entries.toArray, (entries.map complement).toArray⟩

/-- The table of some rules with its entries. -/
@[specialize] def ofRules (rules : List (GroundedRule α)) (method : MergeMethod) (default : α) :
    Except TableFault (EagerTable α) :=
  match RuleTable.ofRules rules method default with
  | .ok t => ofTable t
  | .error e => .error e

/-- The log-probability of the value of the consequent. -/
@[specialize] def logProb (t : EagerTable α) (w : World) : α :=
  let bits := t.table.key w.value
  if w.value t.table.consequent then t.ifTrue.getD bits bottom else t.ifFalse.getD bits bottom

/-- The log-probability of the value of the consequent, if the world reaches all variables. -/
def logProb? (t : EagerTable α) (w : World) : Except EvalFault α :=
  match t.table.readKey w, w.value? t.table.consequent with
  | .ok _, .ok _ => .ok (t.logProb w)
  | .error e, _ => .error e
  | _, .error e => .error e

end EagerTable

end FactNet
