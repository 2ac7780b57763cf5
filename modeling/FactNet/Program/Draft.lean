import FactNet.Domain
import FactNet.Program.Basic
import FactNet.Text.Quoted

/-!
# Drafting programs

A draft gathers predicates, rules, evidence and domains one after another and yields the
program that a file with the same declarations would.  Evidence becomes hard clauses of one
literal and priors weighted ones.  Domains stay with the draft, since files have no place
for them.

## Main definitions

* `Draft` — what has been gathered.
* `DraftError` — why a step is refused.
* `Draft.finish` — the program.
-/

namespace FactNet

open FactNet.Text

/-- Why a step of drafting is refused. -/
inductive DraftError where
  /-- The value is a variable, not a constant. -/
  | notCapitalized (value : String)
  /-- The clause has no literal. -/
  | emptyClause
  deriving DecidableEq, Repr, Inhabited

/-- A refusal in words. -/
def DraftError.message : DraftError → String
  | .notCapitalized value => "Constants must be capitalized: " ++ quote value
  | .emptyClause => "A rule needs at least one literal"

/-- What has been gathered of a program. -/
structure Draft (α : Type) where
  /-- The predicates, in the order they were declared. -/
  predicates : List Predicate := []
  /-- The rules, in order. -/
  rules : List (Rule α) := []
  /-- The types and their constants. -/
  domains : Domains := {}
  deriving Repr, Inhabited

namespace Draft

variable {α : Type}

/-- The draft with a type named. -/
def declareDomain (d : Draft α) (type : String) : Draft α :=
  { d with domains := d.domains.declare type }

/-- The draft with a constant added to a type. -/
def addConstant (d : Draft α) (type value : String) : Except DraftError (Draft α) :=
  if isConstant value then .ok { d with domains := d.domains.add type value }
  else .error (.notCapitalized value)

/-- The draft with a predicate declared; its types are named with it. -/
def addPredicate (d : Draft α) (p : Predicate) : Draft α :=
  { d with
    domains := (d.domains.declare p.type1).declare p.type2
    predicates := d.predicates ++ [p] }

/-- The draft with a rule. -/
def addRule (d : Draft α) (r : Rule α) : Draft α :=
  { d with rules := d.rules ++ [r] }

/-- The draft with one clause for each literal, all of the same weight. -/
def addPriors (d : Draft α) (weight : α) (literals : List Literal) : Draft α :=
  literals.foldl (fun d l => d.addRule ⟨weight, [l]⟩) d

/-- The draft with literals that hold for certain. -/
def addEvidence [Scalar α] (d : Draft α) (literals : List Literal) : Draft α :=
  d.addPriors Scalar.top literals

/-- The draft with a clause, which must have a literal. -/
def addClause (d : Draft α) (weight : α) (literals : List Literal) :
    Except DraftError (Draft α) :=
  match literals with
  | [] => .error .emptyClause
  | l :: ls => .ok (d.addRule ⟨weight, l :: ls⟩)

/-- The program that has been drafted. -/
def finish (d : Draft α) : Program α :=
  Program.ofParts d.predicates d.rules

end Draft

end FactNet
