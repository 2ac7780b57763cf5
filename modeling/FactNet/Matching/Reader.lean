import FactNet.LogProb
import FactNet.Matching.Rule
import FactNet.Naming
import FactNet.Program.Reader

/-!
# Reading rules for matching

A line with two blanks or a tabulator inside holds a score and the clauses of a rule; any other
line is a type signature, which limits the entities of a relation by their types.

    livesIn(PERSON,COUNTRY)
    1.5  !bornIn(x,y) v livesIn(x,y)

The score is a log-odds.  A rule with a score below the cutoff, or with more antecedents than
allowed, is passed over.  The first signature of a relation counts, for the rules after it.

## Main definitions

* `RuleBook` — the rules by the relation they add, the most probable first.
* `RuleBook.ofLines` — the rules of a file, or the first fault in it.
-/

namespace FactNet

open FactNet.Text

/-- The types that signatures give to relations, the first of each being the one that counts. -/
abbrev Signatures := List (String × EntityType × EntityType)

/-- Rules for matching. -/
structure RuleBook (α : Type) where
  /-- The rules by the relation they add, in the order of the first rule for each. -/
  rules : List (String × List (MatchRule α)) := []
  /-- The relations that rules mention. -/
  relations : List String := []
  deriving Repr, Inhabited

/-- The types of a relation, if it has a signature. -/
def Signatures.get (s : Signatures) (name : String) : Option EntityType × Option EntityType :=
  match s.find? fun e => e.1 == name with
  | some (_, head, tail) => (some head, some tail)
  | none => (none, none)

/-! ### Clauses -/

/-- Cuts a line at the first two blanks or tabulator; further blanks belong to the cut. -/
def cutScore? : List Char → Option (List Char × List Char)
  | [] => none
  | '\t' :: cs => some ([], cs)
  | ' ' :: ' ' :: cs => some ([], cs.dropWhile (· == ' '))
  | c :: cs => (cutScore? cs).map fun (score, body) => (c :: score, body)

/-- Reads a clause: whether it is negated, and the clause. -/
def readClause? (signatures : Signatures) (cs : List Char) : Option (Bool × Clause) :=
  (Program.signedAtom? cs).map fun l =>
    let (headType, tailType) := signatures.get l.name
    (cs.head? == some '!', ⟨l.arg1, headType, untypedRelation l.name, l.arg2, tailType⟩)

/-- What has been read of a rule. -/
structure ClauseRead where
  /-- The antecedents. -/
  antecedents : List Clause := []
  /-- The consequent. -/
  consequent : Option Clause := none
  /-- The relations of all clauses. -/
  relations : List String := []
  deriving Repr, Inhabited

/-- Reads the clauses of a rule after some that have been read. -/
def readClauses (signatures : Signatures) :
    ClauseRead → List (List Char) → Except Reason ClauseRead
  | read, [] => .ok read
  | read, cs :: rest =>
    match readClause? signatures (trim cs) with
    | none => .error .clause
    | some (negated, c) =>
      let read := { read with relations := read.relations ++ [c.relation] }
      if negated then
        readClauses signatures { read with antecedents := c.insertInto read.antecedents } rest
      else if read.consequent.isSome then .error .manyConsequents
      else readClauses signatures { read with consequent := some c } rest

/-! ### Lines -/

/-- What decides which rules are passed over. -/
structure Admission (α : Type) where
  /-- The least score. -/
  cutoff : α
  /-- The most antecedents. -/
  maxDepth : Int
  deriving Repr, Inhabited

/-- The signatures and rules read so far. -/
structure Reading (α : Type) where
  /-- The signatures. -/
  signatures : Signatures := []
  /-- The rules. -/
  book : RuleBook α := {}
  deriving Repr, Inhabited

variable {α : Type} [Scalar α] [Numeral α]

/-- The rules with one more, at the end of those for its relation, unless it is one of them. -/
def addMatchRule (r : MatchRule α) :
    List (String × List (MatchRule α)) → List (String × List (MatchRule α))
  | [] => [(r.consequent.relation, [r])]
  | (relation, rs) :: rest =>
    if relation == r.consequent.relation then
      (relation, if rs.any (· == r) then rs else rs ++ [r]) :: rest
    else (relation, rs) :: addMatchRule r rest

/-- Reads a type signature. -/
def readSignature (reading : Reading α) (cs : List Char) : Except Reason (Reading α) :=
  match Program.signedAtom? cs with
  | none => .error .signature
  | some l =>
    match EntityType.ofName? l.arg1, EntityType.ofName? l.arg2 with
    | some head, some tail =>
      .ok { reading with signatures := reading.signatures ++ [(l.name, head, tail)] }
    | _, _ => .error .unknownType

/-- Reads the score and the clauses of a rule. -/
def readScored (admission : Admission α) (reading : Reading α) (score body : List Char) :
    Except Reason (Reading α) :=
  match (Numeral.read? (String.ofList score) : Option α) with
  | none => .error .score
  | some score =>
    -- a rule that is passed over may have faults in its clauses
    if score < admission.cutoff then .ok reading
    else
      let parts := Program.disjuncts (trim body)
      if admission.maxDepth < (parts.length : Int) - 1 then .ok reading
      else
        match readClauses reading.signatures {} parts with
        | .error reason => .error reason
        | .ok read =>
          match read.consequent with
          | none => .error .noConsequent
          | some c =>
            let r : MatchRule α := ⟨read.antecedents, c, LogProb.sigmoid score⟩
            .ok { reading with
              book := ⟨addMatchRule r reading.book.rules,
                reading.book.relations ++ read.relations⟩ }

/-- Reads a line, which has the given number. -/
def readMatchLine (admission : Admission α) (reading : Reading α) (number : Nat) (raw : String) :
    Except LineFault (Reading α) :=
  let line := trimEnd (before ['/', '/'] raw.toList)
  match trim line with
  | [] => .ok reading
  | c :: cs =>
    match cutScore? (c :: cs) with
    | some (score, body) =>
      (readScored admission reading score body).mapError fun reason =>
        ⟨reason, some number, String.ofList line⟩
    | none =>
      (readSignature reading (c :: cs)).mapError fun reason =>
        ⟨reason, some number, String.ofList (c :: cs)⟩

/-- Reads lines, the first of which has the given number. -/
def readMatchLines (admission : Admission α) :
    Nat → List String → Reading α → Except LineFault (Reading α)
  | _, [], reading => .ok reading
  | number, raw :: rest, reading =>
    match readMatchLine admission reading number raw with
    | .error fault => .error fault
    | .ok reading => readMatchLines admission (number + 1) rest reading

namespace RuleBook

/-- The rules with the more probable ones first. -/
def sorted (book : RuleBook α) : RuleBook α :=
  { book with
    rules := book.rules.map fun (relation, rs) =>
      (relation, rs.mergeSort fun r s => !decide (r.probability < s.probability)) }

/-- The rules of a file. -/
def ofLines (admission : Admission α) (lines : List String) : Except LineFault (RuleBook α) :=
  (readMatchLines admission 1 lines {}).map fun reading => reading.book.sorted

end RuleBook

end FactNet
