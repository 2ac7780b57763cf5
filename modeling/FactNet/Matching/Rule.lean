import FactNet.Entity
import FactNet.Scalar

/-!
# Rules for matching

A rule for matching has clauses, each a relation between two variables whose entities may be
limited to a type.  All clauses but one are antecedents; where they are found in a graph, the
consequent may be added to it.  The antecedents form a set and are kept in order.

## Main definitions

* `Clause` — a relation between two variables.
* `MatchRule` — antecedents, consequent and probability.
-/

namespace FactNet

/-- A relation between two variables. -/
structure Clause where
  /-- The variable for the head. -/
  headVar : String
  /-- The type of the head, if it is limited. -/
  headType : Option EntityType
  /-- The relation. -/
  relation : String
  /-- The variable for the tail. -/
  tailVar : String
  /-- The type of the tail, if it is limited. -/
  tailType : Option EntityType
  deriving DecidableEq, Repr, Inhabited

namespace Clause

/-- A clause as it is written. -/
def text (c : Clause) : String :=
  c.relation ++ "(" ++ c.headVar ++ "," ++ c.tailVar ++ ")"

/-- The name of a type that may be missing. -/
def typeName (t : Option EntityType) : String := (t.map EntityType.name).getD ""

/-- What clauses are ordered by. -/
def key (c : Clause) : List String :=
  [c.headVar, typeName c.headType, c.relation, c.tailVar, typeName c.tailType]

/-- Puts a clause in its place among ordered clauses, if it is not there yet. -/
def insertInto (c : Clause) : List Clause → List Clause
  | [] => [c]
  | d :: ds =>
    if c = d then d :: ds
    else if c.key < d.key then c :: d :: ds
    else d :: insertInto c ds

/-- The variables of a clause. -/
def vars (c : Clause) : List String := [c.headVar, c.tailVar]

end Clause

/-- Whether an entity has the type that is asked for, if one is. -/
def fitsType (wanted : Option EntityType) (e : Entity) : Bool :=
  match wanted with
  | none => true
  | some t => t == e.type

/-- A rule for matching. -/
structure MatchRule (α : Type) where
  /-- The antecedents, in order and each once. -/
  antecedents : List Clause
  /-- The consequent. -/
  consequent : Clause
  /-- How probable the consequent is. -/
  probability : α
  deriving Repr, Inhabited

namespace MatchRule

variable {α : Type}

instance [BEq α] : BEq (MatchRule α) where
  beq r s := r.antecedents == s.antecedents && r.consequent == s.consequent
    && r.probability == s.probability

/-- A rule in one line. -/
def text (r : MatchRule α) : String :=
  let body := (r.antecedents.map Clause.text).mergeSort fun s t => s ≤ t
  " ^ ".intercalate body ++ " -> " ++ r.consequent.text

end MatchRule

end FactNet
