import FactNet.Entity
import FactNet.Scalar

/-!
# Facts

A fact says that a relation holds between two entities.  It may carry a score, and the place
in a document that it was read from.

## Main definitions

* `Provenance` — where a fact was read from.
* `Fact` — a relation between two entities.
-/

namespace FactNet

/-- Where a fact was read from. -/
structure Provenance where
  /-- The document. -/
  document : String
  /-- The place of the sentence in it. -/
  sentence : Option Int := none
  /-- Whether the document is an official one. -/
  official : Bool := false
  deriving DecidableEq, Repr, Inhabited

/-- What tells facts apart: head, relation and tail. -/
abbrev FactKey := Entity × String × Entity

/-- A relation between two entities. -/
structure Fact (α : Type) where
  /-- The entity the fact is about. -/
  head : Entity
  /-- The relation. -/
  relation : String
  /-- The entity that the head is related to. -/
  tail : Entity
  /-- The score. -/
  score : Option α := none
  /-- Where the fact was read from. -/
  provenance : Option Provenance := none
  deriving Repr, Inhabited

namespace Fact

variable {α : Type}

/-- Head, relation and tail of a fact. -/
def key (f : Fact α) : FactKey := (f.head, f.relation, f.tail)

/-- A fact as it is written, its score with three places. -/
def text [Numeral α] (f : Fact α) : String :=
  let score :=
    match f.score with
    | none => "?"
    | some s => Numeral.fixed 3 s
  f.relation ++ "(" ++ f.head.name ++ ", " ++ f.tail.name ++ ") @ " ++ score

/-- Whether a fact stays when another one with its key is added: the other one has no score, or
none above its own. -/
def outlasts [Scalar α] (old new : Fact α) : Bool :=
  match new.score, old.score with
  | none, _ => true
  | some _, none => false
  | some s, some t => s ≤ t

end Fact

end FactNet
