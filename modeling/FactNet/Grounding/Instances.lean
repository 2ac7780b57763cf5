import FactNet.Grounding.Binding
import FactNet.Grounding.Registry

/-!
# Instances of rules

An instance of a rule has constants in the place of its variables.  Instances are found literal
by literal: a literal of a closed predicate takes the constants of a piece of true evidence,
and one of an open predicate those of the domains of its types, as far as they may be paired.
Equalities come last.  An equality that the binding makes true satisfies the whole clause, so
there is nothing to ground.

## Main definitions

* `GroundNote` — what there is to tell about the grounding of a rule.
* `candidates` — the constants that a literal can take.
* `instances` — the instances of a rule.
-/

namespace FactNet

/-- What there is to tell about the grounding of a rule. -/
inductive GroundNote where
  /-- The rule does not have exactly one positive literal. -/
  | headCount (heads : Nat) (rule : String)
  /-- A variable of an equality is not bound. -/
  | unboundEquality (rule : String)
  /-- A type has no constants. -/
  | emptyDomain (type : String)
  deriving DecidableEq, Repr, Inhabited

/-- A note in words. -/
def GroundNote.message : GroundNote → String
  | .headCount heads rule =>
    "Skipping rule with " ++ toString heads ++ " positive literals (need exactly 1): " ++ rule
  | .unboundEquality rule => "Equality over an unbound variable in " ++ rule
  | .emptyDomain type => "No constants registered for type " ++ type ++ "; grounding skipped"

/-- Notes without those about the domain of a type that has been told of before. -/
def distinctNotes : List GroundNote → List GroundNote
  | [] => []
  | .emptyDomain type :: notes =>
    .emptyDomain type :: (distinctNotes notes).filter (· ≠ .emptyDomain type)
  | note :: notes => note :: distinctNotes notes

/-- A choice of constants for the two arguments of a literal, and the binding it makes. -/
structure Candidate where
  /-- The first constant. -/
  arg1 : String
  /-- The second constant. -/
  arg2 : String
  /-- The binding. -/
  binding : Binding
  deriving DecidableEq, Repr, Inhabited

variable {α : Type}

/-- The constants that a token can stand for: itself, what it is bound to, or any constant of its
type. -/
def slotValues (r : Registry α) (type token : String) (b : Binding) :
    List String × List GroundNote :=
  match b.denotes? token with
  | some value => ([value], [])
  | none =>
    match r.domains.get type with
    | [] => ([], [.emptyDomain type])
    | values => (values, [])

/-- The constants that a literal of a closed predicate can take. -/
def closedCandidates (r : Registry α) (l : Literal) (b : Binding) : List Candidate :=
  (r.trueEvidence l.name).filterMap fun e =>
    (b.unifyBoth l.arg1 e.arg1 l.arg2 e.arg2).map fun b => ⟨e.arg1, e.arg2, b⟩

/-- The constants that a literal of an open predicate can take, its first argument being given. -/
def secondCandidates (r : Registry α) (p : Predicate) (l : Literal) (value1 : String)
    (b : Binding) : List Candidate × List GroundNote :=
  let (values, notes) := slotValues r p.type2 l.arg2 b
  let found := (values.filter fun v => r.mayPair value1 v).filterMap fun v =>
    (b.unify l.arg2 v).map fun b => ⟨value1, v, b⟩
  (found, notes)

/-- The constants that a literal of an open predicate can take. -/
def openCandidates (r : Registry α) (p : Predicate) (l : Literal) (b : Binding) :
    List Candidate × List GroundNote :=
  let (values, notes) := slotValues r p.type1 l.arg1 b
  let parts := values.map fun v =>
    match b.unify l.arg1 v with
    | none => ([], [])
    | some b => secondCandidates r p l v b
  (parts.flatMap (·.1), notes ++ parts.flatMap (·.2))

/-- The constants that a literal can take.  One without a declared predicate can take none. -/
def candidates (r : Registry α) (l : Literal) (b : Binding) : List Candidate × List GroundNote :=
  match r.predicate? l.name with
  | none => ([], [])
  | some p => if p.closed then (closedCandidates r l b, []) else openCandidates r p l b

/-- What equalities say under a binding. -/
inductive EqualityCheck where
  /-- All of them are false, so that the rest of the clause has to hold. -/
  | open
  /-- One of them is true. -/
  | satisfied
  /-- A variable is not bound. -/
  | unbound
  deriving DecidableEq, Repr, Inhabited

/-- What equalities say under a binding, up to the first that is not false. -/
def checkEqualities (b : Binding) : List Literal → EqualityCheck
  | [] => .open
  | l :: ls =>
    match b.denotes? l.arg1, b.denotes? l.arg2 with
    | some c, some d => if (c == d) == l.truth then .satisfied else checkEqualities b ls
    | _, _ => .unbound

/-- The instances that come from binding the literals of a list one after another.  `ground` holds
the instances of the literals before them, the last one first. -/
def instancesFrom (r : Registry α) (ruleText : String) (equalities : List Literal) :
    List Literal → Binding → (ground : List Literal) → List (List Literal) × List GroundNote
  | [], b, ground =>
    match checkEqualities b equalities with
    | .open => ([ground.reverse], [])
    | .satisfied => ([], [])
    | .unbound => ([], [.unboundEquality ruleText])
  | l :: ls, b, ground =>
    let (found, notes) := candidates r l b
    let parts := found.map fun c =>
      instancesFrom r ruleText equalities ls c.binding (l.withArgs c.arg1 c.arg2 :: ground)
    (parts.flatMap (·.1), notes ++ parts.flatMap (·.2))

/-- The literals that a clause can have as its head. -/
def Rule.heads (rule : Rule α) : List Literal :=
  rule.literals.filter fun l => l.truth && !l.isEquality

/-- The instances of a rule of two literals or more, which must have one head. -/
def instances [Scalar α] [Numeral α] (r : Registry α) (rule : Rule α) :
    List (List Literal) × List GroundNote :=
  if rule.heads.length = 1 then
    instancesFrom r rule.text (rule.literals.filter (·.isEquality))
      (rule.literals.filter fun l => !l.isEquality) [] []
  else ([], [.headCount rule.heads.length rule.text])

end FactNet
