import FactNet.Factor.Merge
import FactNet.Text.Quoted

/-!
# Tables of grounded rules

The grounded rules of one consequent form a table: for every combination of values of their
antecedents it gives the log-probability of the consequent.  Only the most specific rules
that hold count, those with the most antecedents; the prior, which has none, counts where no
other rule holds.

## Main definitions

* `RuleTable` — the rules of one consequent, the most specific first.
* `RuleTable.ofRules`, `RuleTable.ofNamed` — the table of some rules.
* `RuleTable.active` — the rules that count.
* `RuleTable.entry` — the log-probability that the consequent is true.
* `RuleTable.explain`, `RuleTable.explanation` — the best rule that holds, and all that hold.
-/

namespace FactNet

open Scalar

/-- Why rules form no table. -/
inductive TableFault where
  /-- There is no rule. -/
  | noRules
  /-- There is no merge method of this name. -/
  | unknownMerge (name : String)
  /-- Two rules have different consequents. -/
  | mixedConsequents (found expected : Nat)
  /-- There are too many antecedents to list all combinations. -/
  | tooWide (antecedents : Nat)
  /-- An entry needs an exponential that is too large. -/
  | overflow
  deriving DecidableEq, Repr, Inhabited

/-- The least number of antecedents that is too large for listing all combinations. -/
def tableCeiling : Nat := 16

/-- What is said of a merge method that there is not. -/
def unknownMergeMessage (name : String) : String :=
  Text.quote name ++ " is not a valid FactorMergeMethod"

/-- What is said when there is no rule. -/
def noRulesMessage : String := "clean_priors needs at least one grounded rule"

/-- The grounded rules of one consequent. -/
structure RuleTable (α : Type) where
  /-- The prior. -/
  prior : GroundedRule α
  /-- All rules, those with more antecedents first and the prior last. -/
  rows : List (GroundedRule α)
  /-- How rules that hold at once are merged. -/
  method : MergeMethod
  /-- The antecedents of all rules, each once and in order. -/
  antecedents : List Nat
  deriving Repr, Inhabited

namespace RuleTable

variable {α : Type}

/-- The consequent of the rules. -/
def consequent (t : RuleTable α) : Nat := t.prior.consequent

/-- The antecedents of some rules, each once and in order. -/
def antecedentsOf (rules : List (GroundedRule α)) : List Nat :=
  (rules.flatMap (·.antecedents)).mergeSort.eraseDups

/-- Rules with more antecedents first; rules with equally many keep their order. -/
def mostSpecificFirst (rules : List (GroundedRule α)) : List (GroundedRule α) :=
  rules.mergeSort fun r s => s.antecedents.length ≤ r.antecedents.length

/-- The table of some rules. -/
def ofRules [Scalar α] (rules : List (GroundedRule α)) (method : MergeMethod) (default : α) :
    Except TableFault (RuleTable α) :=
  match cleanPriors rules default with
  | none => .error .noRules
  | some (prior, others) =>
    let rows := mostSpecificFirst (prior :: others)
    match rows.find? fun r => r.consequent != prior.consequent with
    | some r => .error (.mixedConsequents r.consequent prior.consequent)
    | none => .ok ⟨prior, rows, method, antecedentsOf rows⟩

/-- The table of some rules and the name of a merge method. -/
def ofNamed [Scalar α] (rules : List (GroundedRule α)) (method : String) (default : α) :
    Except TableFault (RuleTable α) :=
  if rules.isEmpty then .error .noRules
  else
    match MergeMethod.ofName? method with
    | none => .error (.unknownMerge method)
    | some m => ofRules rules m default

/-- The names of all rules, one a line. -/
def name (t : RuleTable α) : String :=
  "\n".intercalate (t.rows.map (·.name))

/-- The variables of a table, each once and in order. -/
def components (t : RuleTable α) : List Nat :=
  (t.consequent :: t.antecedents).mergeSort.eraseDups

/-! ### Entries -/

/-- The rules that count: of those that hold, the ones with the most antecedents. -/
@[inline] def active (t : RuleTable α) (v : Valuation) : List (GroundedRule α) :=
  match t.rows.find? fun r => r.holds v with
  | none => []
  | some first =>
    t.rows.filter fun r => r.antecedents.length == first.antecedents.length && r.holds v

/-- The log-probability that the consequent is true. -/
@[specialize] def entry [Scalar α] (t : RuleTable α) (v : Valuation) : α :=
  t.method.merge t.prior (t.active v)

/-- Whether an entry needs an exponential that is too large. -/
@[specialize] def entryOverflows [Scalar α] (t : RuleTable α) (v : Valuation) : Bool :=
  t.method.overflows t.prior (t.active v)

/-- The values of some variables as the bits of a number, the first one being the highest. -/
@[inline] def pattern (antecedents : List Nat) (v : Valuation) : Nat :=
  antecedents.foldl (fun bits a => 2 * bits + (v a).toNat) 0

/-- The place of an entry among all entries. -/
@[inline] def key (t : RuleTable α) (v : Valuation) : Nat := pattern t.antecedents v

/-- The values of some variables whose pattern a number is; any other variable is false. -/
def ofPattern (antecedents : List Nat) (bits : Nat) : Valuation := fun a =>
  match antecedents.idxOf? a with
  | some i => bits.testBit (antecedents.length - 1 - i)
  | none => false

/-- Reads the values of all antecedents. -/
def readKey (t : RuleTable α) (w : World) : Except EvalFault Nat :=
  if t.antecedents.all fun a => a < w.size then .ok (t.key w.value) else .error .unassigned

/-! ### Explanations -/

/-- The rule that holds and makes the value of the consequent most probable, the first one of
several; the first rule of all if none makes it possible. -/
@[specialize] def explain [Scalar α] (t : RuleTable α)
    (v : Valuation) : GroundedRule α :=
  (t.rows.foldl
    (fun (best, rule) r =>
      if r.holds v && best < r.valueOf (v t.consequent) then (r.valueOf (v t.consequent), r)
      else (best, rule))
    (bottom, t.rows.headD t.prior)).2

/-- The names of the rules that hold. -/
def reasons (t : RuleTable α) (v : Valuation) : List String :=
  (t.rows.filter fun r => r.holds v).map (·.name)

/-- The names of the rules that hold, one a line. -/
def explanation (t : RuleTable α) (v : Valuation) : String :=
  "\n".intercalate (t.reasons v)

end RuleTable

/-- A fault in words.  An exponential that is too large has no words of its own. -/
def TableFault.message : TableFault → String
  | .noRules => noRulesMessage
  | .unknownMerge name => unknownMergeMessage name
  | .mixedConsequents found expected =>
    "Mixed consequents in one table: " ++ toString found ++ " != " ++ toString expected
  | .tooWide n =>
    "Eager table over " ++ toString n ++ " antecedents exceeds the ceiling of "
      ++ toString (tableCeiling - 1)
  | .overflow => ""

end FactNet
