import FactNet.Graph
import FactNet.Naming
import FactNet.Net.Basic
import FactNet.Program.Basic

/-!
# Rules that bear on a pivot

Of all candidate rules only some can lead to a relation of the catalogue with the pivot as its
head.  Selection starts from these relations and goes backwards: a rule is taken when its
head is wanted and its body is known or wanted.  What the bodies of the rules taken need is
wanted in the next round, if the mode allows for further rounds.

A predicate that only bodies mention, or only facts, is closed; a predicate that some head
needs is open.

## Main definitions

* `catalogueProgram` — the predicates of the relations of the catalogue.
* `RulesMode`, `Hacks` — how far selection goes, and which rules are left out.
* `Frontier`, `Frontier.advance` — what is known and wanted, and one round.
* `selectRules` — the rules that bear on a pivot, with their predicates.
-/

namespace FactNet

open Scalar

/-! ### Predicates of the catalogue -/

/-- The predicates of the relations of the catalogue, one for each type of tail. -/
def cataloguePredicates : List Predicate :=
  catalogue.flatMap fun r =>
    r.tails.map fun tail => ⟨cleanRelation r.name (some r.head) (some tail), r.head.name, tail.name,
      false⟩

/-- The predicates of the relations of the catalogue as a program without rules. -/
def catalogueProgram {α : Type} : Program α := Program.ofParts cataloguePredicates []

/-- The names of the predicates of the catalogue whose head has a type. -/
def catalogueNames (head : EntityType) : List String :=
  (cataloguePredicates.filter fun p => p.type1 == head.name).map (·.name)

/-- The name of the predicate of a fact. -/
def Fact.predicateName {α : Type} (f : Fact α) : String :=
  cleanRelation f.relation (some f.head.type) (some f.tail.type)

/-! ### Candidate rules -/

/-- How far selection goes. -/
inductive RulesMode where
  /-- One round, and only relations of the catalogue count as known. -/
  | catalogueOnly
  /-- One round. -/
  | oneRound
  /-- As many rounds as there are rules to take. -/
  | chained
  deriving DecidableEq, Repr, Inhabited

namespace RulesMode

/-- The name of a mode. -/
def name : RulesMode → String
  | .catalogueOnly => "kbp_only"
  | .oneRound => "reverb_strict"
  | .chained => "reverb"

/-- The mode with a name. -/
def ofName? (s : String) : Option RulesMode :=
  [catalogueOnly, oneRound, chained].find? fun m => m.name == s

end RulesMode

/-- Changes to scores, and rules that are left out. -/
structure Hacks where
  /-- Every scored fact counts as certain. -/
  alwaysTrue : Bool := false
  /-- Scores are kept away from certainty. -/
  softPriors : Bool := false
  /-- Rules with a body that lead to a marriage are left out. -/
  noSpouse : Bool := false
  /-- Rules of two literals with a negative weight are left out. -/
  noNegativeTranslations : Bool := false
  deriving DecidableEq, Repr, Inhabited

namespace Rule

variable {α : Type}

/-- The name of the predicate of the head, equalities not counting. -/
def headName? (r : Rule α) : Option String :=
  (r.literals.find? fun l => l.truth && !l.isEquality).map (·.name)

/-- Whether a rule has a body and leads to a marriage. -/
def concludesMarriage (r : Rule α) : Bool :=
  !r.antecedents.isEmpty && r.headName?.any fun name => untypedRelation name == "per:spouse"

/-- Whether a rule translates one relation into the negation of another. -/
def isNegativeTranslation [Scalar α] (r : Rule α) : Bool :=
  r.literals.length == 2 && r.weight < zero

end Rule

/-- Whether a rule is left out. -/
def Hacks.excludes {α : Type} [Scalar α] (h : Hacks) (r : Rule α) : Bool :=
  h.noSpouse && r.concludesMarriage || h.noNegativeTranslations && r.isNegativeTranslation

/-- Whether a rule is a candidate: it weighs enough, is short enough and is not left out. -/
def isCandidate {α : Type} [Scalar α] (cutoff : α) (maxDepth : Int) (hacks : Hacks)
    (r : Rule α) : Bool :=
  cutoff ≤ magnitude r.weight && (r.literals.length : Int) ≤ maxDepth + 1 && !hacks.excludes r

/-! ### Rounds -/

/-- What is known and what is wanted. -/
structure Frontier where
  /-- The predicates that a body may have. -/
  bodies : List String
  /-- The predicates that a head may have. -/
  heads : List String
  deriving Repr, Inhabited

variable {α : Type}

/-- Whether a rule can be taken: all its predicates are declared, its heads are wanted and its
bodies known; equalities do not count. -/
def Frontier.admits (f : Frontier) (declared : List String) (r : Rule α) : Bool :=
  r.literals.all fun l =>
    l.isEquality || declared.contains l.name
      && (if l.truth then f.heads.contains l.name else f.bodies.contains l.name)

/-- The frontier after a round: what is wanted may be in a body, and the bodies of the rules taken
are wanted. -/
def Frontier.advance (f : Frontier) (taken : List (Rule α)) : Frontier where
  bodies := f.bodies ++ f.heads
  heads := f.heads ++ taken.flatMap fun r => (r.literals.filter fun l => !l.truth).map (·.name)

/-- The most rounds there can be. -/
def mostRounds : Nat := 10

/-- The rules taken in some rounds, after those taken before. -/
def takeRounds (mode : RulesMode) (declared : List String) :
    Nat → Frontier → List (Rule α) → List (Rule α) → List (Rule α)
  | 0, _, taken, _ => taken
  | n + 1, f, taken, remaining =>
    let now := remaining.filter (f.admits declared)
    let taken := taken ++ now
    -- no rule can be taken later if none is taken now
    if mode ≠ .chained || now.isEmpty then taken
    else
      takeRounds mode declared n (f.advance taken) taken
        (remaining.filter fun r => !f.admits declared r)

/-- What is known and wanted before the first round. -/
def firstFrontier (mode : RulesMode) (g : FactGraph α) (pivot : Entity) : Frontier :=
  let known := (g.edges.map Fact.predicateName).eraseDups
  let all := cataloguePredicates.map (·.name)
  ⟨if mode = .catalogueOnly then known.filter all.contains else known, catalogueNames pivot.type⟩

/-- The declared predicate of a name; of several the last one in the order of their text counts. -/
def declaration? (candidates : Program α) (name : String) : Option Predicate :=
  candidates.predicates.reverse.find? fun p => p.name == name

/-- The names of the predicates of the literals of rules that pass a test; equalities do not
count. -/
def namesWhere (test : Literal → Bool) (rules : List (Rule α)) : List String :=
  let namesOf (r : Rule α) := (r.literals.filter fun l => test l && !l.isEquality).map (·.name)
  (rules.flatMap namesOf).eraseDups

/-- The names of the predicates that stay open: those of heads, and those of facts about the pivot
whose relation the catalogue knows. -/
def openNames (g : FactGraph α) (pivot : Entity) (rules : List (Rule α)) : List String :=
  let known := (g.outgoing pivot).filter fun f => (KnownRelation.find? f.relation).isSome
  namesWhere (·.truth) rules ++ known.map Fact.predicateName

/-- The names of all predicates that rules and facts mention but those that stay open. -/
def closedNames (g : FactGraph α) (pivot : Entity) (rules : List (Rule α)) : List String :=
  let stayOpen := openNames g pivot rules
  (namesWhere (fun l => !l.truth) rules ++ (g.edges.map Fact.predicateName).eraseDups).filter
    fun name => !stayOpen.contains name

/-- The candidate rules that bear on a pivot, with their predicates open or closed. -/
def selectRules (mode : RulesMode) (candidates : Program α) (g : FactGraph α) (pivot : Entity) :
    Program α :=
  let declared := candidates.predicates.map (·.name)
  let rules := takeRounds mode declared mostRounds (firstFrontier mode g pivot) [] candidates.rules
  let stayOpen := (openNames g pivot rules).filterMap (declaration? candidates)
  let closed := (closedNames g pivot rules).filterMap (declaration? candidates)
  Program.ofParts (stayOpen.map Predicate.asOpen ++ closed.map Predicate.asClosed) rules

/-- The open literals that ask for every relation of the catalogue that the pivot could head. -/
def queryTerms (rules : Program α) (pivot : Entity) : List Literal :=
  let asked := (catalogueProgram (α := α)).predicates.filter fun p =>
    p.type1 == pivot.type.name && rules.predicates.any fun q => q.name == p.name
  asked.map fun p => ⟨p.name, cleanEntity pivot, p.type2.toLower ++ "1", true⟩

end FactNet
