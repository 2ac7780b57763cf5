import FactNet.Program.Basic
import FactNet.Text.LineFault
import FactNet.Text.Split

/-!
# Reading programs

A rule file has one declaration a line:

    *livesIn(PERSON,COUNTRY)              a closed predicate
    bornIn(PERSON,COUNTRY)                an open predicate
    1.5 !bornIn(x,y) v livesIn(x,y)       a weighted clause
    !spouse(x,y) v spouse(y,x).           a hard clause
    -0.7 !a(x,y) v b(x,z) v y != z        a clause with an equality

Two slashes start a comment, and empty lines do not count.  The first line that is neither a
predicate nor a clause ends the reading with a fault.

The arguments of an atom end at the first comma and at the parenthesis that ends the text.
Blanks around an argument are dropped; an argument of nothing but blanks is one blank.

## Main definitions

* `readLiteral`, `readPredicate?`, `readRule` — the parts of a line.
* `stripComment` — a line without its comment.
* `readProgram` — the program of a list of lines.
-/

namespace FactNet.Program

open FactNet.Text

/-! ### Atoms -/

/-- An argument between its bounds: without the blanks around it, except that of nothing but blanks
one is kept. -/
def argument? (cs : List Char) : Option (List Char) :=
  match trim cs with
  | [] => cs.getLast?.map fun c => [c]
  | c :: rest => some (c :: rest)

/-- Two arguments, the comma between them, and the parenthesis that ends the text. -/
def arguments? (cs : List Char) : Option (String × String) :=
  match cs.dropWhile (· ≠ ',') with
  | _ :: rest =>
    if rest.dropWhile (· ≠ ')') = [')'] then
      match argument? (cs.takeWhile (· ≠ ',')), argument? (rest.takeWhile (· ≠ ')')) with
      | some a, some b => some (String.ofList a, String.ofList b)
      | _, _ => none
    else none
  | [] => none

/-- A name that is not empty, an opening parenthesis, and two arguments. -/
def atom? (cs : List Char) : Option (String × String × String) :=
  match cs.takeWhile (· ≠ '('), cs.dropWhile (· ≠ '(') with
  | c :: name, _ :: rest =>
    (arguments? rest).map fun (a, b) => (String.ofList (trim (c :: name)), a, b)
  | _, _ => none

/-- An atom, negated by an exclamation mark in front.  A mark that nothing but the parenthesis
follows is the name. -/
def signedAtom? (cs : List Char) : Option Literal :=
  match cs with
  | '!' :: rest =>
    match atom? rest with
    | some (name, a, b) => some ⟨name, a, b, false⟩
    | none => (atom? cs).map fun (name, a, b) => ⟨name, a, b, true⟩
  | _ => (atom? cs).map fun (name, a, b) => ⟨name, a, b, true⟩

/-! ### Equalities -/

/-- Whether a character may stand on the left of an equality. -/
def isLeftChar (c : Char) : Bool :=
  !isBlank c && c != ',' && c != '=' && c != '!'

/-- Whether a character may stand on the right of an equality. -/
def isRightChar (c : Char) : Bool :=
  !isBlank c && c != ',' && c != '.'

/-- The sign of an equality: whether it is positive, and what follows. -/
def equalitySign? : List Char → Option (Bool × List Char)
  | '!' :: '=' :: rest => some (false, rest)
  | '=' :: rest => some (true, rest)
  | _ => none

/-- Two tokens with the sign of an equality between them. -/
def equality? (cs : List Char) : Option Literal :=
  let left := cs.takeWhile isLeftChar
  match equalitySign? (trimStart (cs.dropWhile isLeftChar)) with
  | some (truth, rest) =>
    let right := trimStart rest
    if left.isEmpty || right.isEmpty || !right.all isRightChar then none
    else some ⟨equalsName, String.ofList left, String.ofList right, truth⟩
  | none => none

/-! ### Lines -/

/-- Reads one disjunct: an atom or an equality. -/
def readLiteral (text : String) : Except LineFault Literal :=
  let cs := trim text.toList
  match signedAtom? cs <|> equality? cs with
  | some l => .ok l
  | none => .error ⟨.literal, none, String.ofList cs⟩

/-- The disjuncts of a clause.  A `v` right after a parenthesis separates too. -/
def disjuncts (body : List Char) : List (List Char) :=
  splitDisjuncts (replace [')', 'v'] [')', ' ', ' ', 'v', ' ', ' '] body)

/-- Reads the literals of a clause. -/
def readLiterals (body : List Char) : Except LineFault (List Literal) :=
  (disjuncts body).mapM fun cs => readLiteral (String.ofList cs)

/-- Reads a clause: one that ends with a period is hard, and any other starts with its weight. -/
def readRule {α : Type} [Scalar α] [Numeral α] (line : String) : Except LineFault (Rule α) :=
  let cs := line.toList
  let parts : Option (α × List Char) :=
    if cs.getLast? = some '.' then some (Scalar.top, cs.dropLast)
    else
      (Numeral.read? (String.ofList (cs.takeWhile (· ≠ ' ')))).map fun w =>
        (w, (cs.dropWhile (· ≠ ' ')).drop 1)
  match parts with
  | none => .error ⟨.weight, none, line⟩
  | some (weight, body) =>
    match trim body with
    | [] => .error ⟨.noLiterals, none, line⟩
    | c :: body => (readLiterals (c :: body)).map fun literals => ⟨weight, literals⟩

/-- Whether a character may start the name of a declared predicate. -/
def isNameStart (c : Char) : Bool :=
  !isBlank c && !c.isDigit && c != '-' && c != '*' && c != '!' && c != '.' && c != '('

/-- A declaration after its star. -/
def declaration? (closed : Bool) (cs : List Char) : Option Predicate :=
  match cs.takeWhile (· ≠ '('), cs.dropWhile (· ≠ '(') with
  | c :: name, _ :: rest =>
    if isNameStart c && !name.any isBlank then
      (arguments? rest).map fun (a, b) => ⟨String.ofList (c :: name), a, b, closed⟩
    else none
  | _, _ => none

/-- Reads a declaration: a star marks a closed predicate. -/
def readPredicate? (cs : List Char) : Option Predicate :=
  match cs with
  | '*' :: rest => declaration? true rest
  | _ => declaration? false cs

/-- A line without its comment, which runs from two slashes to the end.  Of a line with line breaks
in it only the last one can have a comment. -/
def stripComment (cs : List Char) : List Char :=
  -- the line feed that ends the line is no line break in it
  let cs := if cs.getLast? = some '\n' then cs.dropLast else cs
  let last := (cs.reverse.takeWhile (· ≠ '\n')).reverse
  let earlier := (cs.reverse.dropWhile (· ≠ '\n')).reverse
  earlier ++ before ['/', '/'] last

/-- What a line holds. -/
inductive Line (α : Type) where
  /-- Nothing but blanks and a comment. -/
  | blank
  /-- The declaration of a predicate. -/
  | predicate (p : Predicate)
  /-- A clause. -/
  | rule (r : Rule α)
  deriving Repr

/-- Reads a line, which has the given number. -/
def readLine {α : Type} [Scalar α] [Numeral α] (number : Nat) (raw : String) :
    Except LineFault (Line α) :=
  match trim (stripComment raw.toList) with
  | [] => .ok .blank
  | c :: cs =>
    match readPredicate? (c :: cs) with
    | some p => .ok (.predicate p)
    | none =>
      let line := String.ofList (c :: cs)
      match readRule line with
      | .ok r => .ok (.rule r)
      | .error fault => .error ⟨fault.reason, some number, line⟩

/-- Reads lines, the first of which has the given number. -/
def readLines {α : Type} [Scalar α] [Numeral α] :
    Nat → List String → Except LineFault (List (Line α))
  | _, [] => .ok []
  | number, raw :: rest =>
    match readLine number raw with
    | .error fault => .error fault
    | .ok line =>
      match readLines (number + 1) rest with
      | .error fault => .error fault
      | .ok lines => .ok (line :: lines)

/-- The program that lines declare. -/
def ofLines {α : Type} (lines : List (Line α)) : Program α :=
  ofParts
    (lines.filterMap fun
      | .predicate p => some p
      | _ => none)
    (lines.filterMap fun
      | .rule r => some r
      | _ => none)

/-- Reads the program of a list of lines. -/
def readProgram {α : Type} [Scalar α] [Numeral α] (lines : List String) :
    Except LineFault (Program α) :=
  (readLines 1 lines).map ofLines

end FactNet.Program
