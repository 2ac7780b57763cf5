import FactNet.Text.Quoted

/-!
# Faults in a line of a rule file

A line that is neither a declaration nor a rule is refused, with the reason, the number of
the line when it is known, and the line itself.

## Main definitions

* `Reason` — why a line is refused.
* `LineFault` — a refused line, and its message.
-/

namespace FactNet.Text

/-- Why a line is refused. -/
inductive Reason where
  /-- A disjunct is neither an atom nor an equality. -/
  | literal
  /-- The weight is no number. -/
  | weight
  /-- Nothing follows the weight or precedes the period. -/
  | noLiterals
  /-- A line without a score is no type signature. -/
  | signature
  /-- A type signature names a type there is not. -/
  | unknownType
  /-- The score is no number. -/
  | score
  /-- A disjunct of a scored rule is no clause. -/
  | clause
  /-- A scored rule has a second clause that is not negated. -/
  | manyConsequents
  /-- A scored rule has no clause that is not negated. -/
  | noConsequent
  deriving DecidableEq, Repr, Inhabited

/-- A reason in words. -/
def Reason.text : Reason → String
  | .literal => "Could not parse literal"
  | .weight => "Could not parse rule weight"
  | .noLiterals => "Rule has no literals"
  | .signature => "Invalid type signature line"
  | .unknownType => "Unknown entity type in signature"
  | .score => "Could not parse rule score"
  | .clause => "Invalid clause in rule"
  | .manyConsequents => "Rule has multiple consequents"
  | .noConsequent => "Rule has no consequent"

/-- A refused line. -/
structure LineFault where
  /-- Why it is refused. -/
  reason : Reason
  /-- Its number, counted from one. -/
  lineNumber : Option Nat := none
  /-- The line. -/
  line : String
  deriving DecidableEq, Repr, Inhabited

/-- A fault in words. -/
def LineFault.message (f : LineFault) : String :=
  let place :=
    match f.lineNumber with
    | some n => " (line " ++ toString n ++ ")"
    | none => ""
  f.reason.text ++ place ++ ": " ++ quote f.line

end FactNet.Text
