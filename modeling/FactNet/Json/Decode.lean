import FactNet.Decimal.Numeral
import FactNet.Json.Value
import FactNet.Text.Case

/-!
# Values of a wanted kind

A JSON value is read as a text, a number, a whole number or a truth value.  Numbers may also
be given as texts and truth values, whole numbers as numbers without a fraction, and truth
values as words or as zero and one; a text is never made from anything else.

Every value that does not fit is reported with its place, not only the first.

## Main definitions

* `Mismatch` — why a value does not fit.
* `Fault` — a mismatch with its place.
* `Fault.json` — a fault as JSON.
* `asText`, `asNumber`, `asWhole`, `asTruth` — values of a wanted kind.
-/

namespace FactNet.Json

open FactNet.Decimal FactNet.Text

/-- Why a value does not fit. -/
inductive Mismatch where
  /-- The text is no JSON. -/
  | malformed
  /-- A member that is needed is not there. -/
  | missing
  /-- The value is no text. -/
  | notText
  /-- The value is no list. -/
  | notList
  /-- The value is no object. -/
  | notObject
  /-- The value is neither a number nor can it stand for one. -/
  | notNumber
  /-- The text does not spell a number. -/
  | numberText
  /-- The value is neither a whole number nor can it stand for one. -/
  | notWhole
  /-- The text does not spell a whole number. -/
  | wholeText
  /-- The number has a fraction. -/
  | fractional
  /-- The number is beyond all others, or none. -/
  | notFinite
  /-- The number is too large for a whole one. -/
  | tooLarge
  /-- The value is no truth value, nor can it stand for one. -/
  | notTruth
  /-- The word or number does not stand for a truth value. -/
  | truthText
  /-- The value is no name of an entity type. -/
  | notType
  /-- The value is not among those allowed. -/
  | notAllowed
  /-- The value breaks a rule of its own. -/
  | refused (message : String)
  deriving DecidableEq, Repr, Inhabited

/-- A step from a value into one of its parts. -/
inductive Step where
  /-- To the member with a name. -/
  | field (name : String)
  /-- To the item at a place. -/
  | item (index : Nat)
  deriving DecidableEq, Repr, Inhabited

/-- A value that does not fit, and where it is. -/
structure Fault where
  /-- The steps to the value. -/
  place : List Step
  /-- Why it does not fit. -/
  mismatch : Mismatch
  deriving DecidableEq, Repr, Inhabited

/-- The code of a mismatch, by which reports tell it from others. -/
def Mismatch.code : Mismatch → String
  | .malformed => "json_invalid"
  | .missing => "missing"
  | .notText => "string_type"
  | .notList => "list_type"
  | .notObject => "model_type"
  | .notNumber => "float_type"
  | .numberText => "float_parsing"
  | .notWhole => "int_type"
  | .wholeText => "int_parsing"
  | .fractional => "int_from_float"
  | .notFinite => "finite_number"
  | .tooLarge => "int_parsing_size"
  | .notTruth => "bool_type"
  | .truthText => "bool_parsing"
  | .notType => "enum"
  | .notAllowed => "literal_error"
  | .refused _ => "value_error"

/-- A step as JSON. -/
def Step.json : Step → Json
  | .field name => .text name
  | .item i => .int i

/-- What a mismatch has to say beside its code. -/
def Mismatch.remarks : Mismatch → List (String × Json)
  | .refused message => [("message", .text message)]
  | _ => []

/-- A fault as JSON: its place, the code of the mismatch, and what there is to say. -/
def Fault.json (f : Fault) : Json :=
  .object ([("loc", .list (f.place.map Step.json)), ("type", .text f.mismatch.code)]
    ++ f.mismatch.remarks)

/-- What becomes of a value: something of the wanted kind, or all its faults. -/
abbrev Outcome (β : Type) := Except (List Fault) β

namespace Outcome

variable {β γ : Type}

/-- The outcome of a single test. -/
def ofExcept : Except Mismatch β → Outcome β
  | .ok b => .ok b
  | .error m => .error [⟨[], m⟩]

/-- The faults of an outcome. -/
def faults : Outcome β → List Fault
  | .ok _ => []
  | .error fs => fs

/-- An outcome whose faults are one step further in. -/
def within (step : Step) : Outcome β → Outcome β
  | .ok b => .ok b
  | .error fs => .error (fs.map fun f => { f with place := step :: f.place })

/-- The outcome of putting a value where a function expects one, with the faults of both. -/
def also (f : Outcome (β → γ)) (x : Outcome β) : Outcome γ :=
  match f, x with
  | .ok f, .ok b => .ok (f b)
  | f, x => .error (f.faults ++ x.faults)

/-- Something that nothing is wrong with yet. -/
def start (b : β) : Outcome β := .ok b

/-- The outcomes for the items of a list, counted from a number, with the faults of all. -/
def items (f : Json → Outcome β) : Nat → List Json → Outcome (List β)
  | _, [] => .ok []
  | i, v :: vs => ((start List.cons).also ((f v).within (.item i))).also (items f (i + 1) vs)

end Outcome

/-! ### Single values -/

/-- A text. -/
def asText : Json → Except Mismatch String
  | .text s => .ok s
  | _ => .error .notText

/-- The double nearest to a whole number. -/
def floatOfInt (n : Int) : Float :=
  let x := (Significand.mk n.natAbs 0).toFloat
  if n < 0 then -x else x

/-- The least whole number that sixty-four bits with a sign do not hold: two to the sixty-third. -/
def wordBound : Int := 9223372036854775808

/-- Whether a whole number has at most sixty-four bits. -/
def fitsWord (n : Int) : Bool :=
  -wordBound ≤ n && n < wordBound

/-- A number. -/
def asNumber : Json → Except Mismatch Float
  | .number x => .ok x
  | .int n => if fitsWord n then .ok (floatOfInt n) else .error .notNumber
  | .bool b => .ok (if b then 1.0 else 0.0)
  | .text s =>
    match readFloatWith? asciiDigit? s with
    | some x => .ok x
    | none => .error .numberText
  | _ => .error .notNumber

/-- The whole number that a double is. -/
def wholeOfFloat (x : Float) : Except Mismatch Int :=
  if !x.isFinite then .error .notFinite
  else
    match wholeNumber? x with
    | none => .error .fractional
    | some n => if -wordBound < n && n < wordBound then .ok n else .error .tooLarge

/-- The most characters that a written whole number may have. -/
def longestWhole : Nat := 4300

/-- A whole number. -/
def asWhole : Json → Except Mismatch Int
  | .int n => .ok n
  | .bool b => .ok (if b then 1 else 0)
  | .number x => wholeOfFloat x
  | .text s =>
    if longestWhole < s.length then .error .tooLarge
    else
      match readInt? s with
      | some n => .ok n
      | none => .error .wholeText
  | _ => .error .notWhole

/-- The words for yes. -/
def yesWords : List String := ["1", "on", "t", "true", "y", "yes"]

/-- The words for no. -/
def noWords : List String := ["0", "off", "f", "false", "n", "no"]

/-- The truth value that a whole number stands for. -/
def truthOfWhole (n : Int) : Except Mismatch Bool :=
  if n = 1 then .ok true else if n = 0 then .ok false else .error .truthText

/-- A truth value. -/
def asTruth : Json → Except Mismatch Bool
  | .bool b => .ok b
  | .int n => if fitsWord n then truthOfWhole n else .error .notTruth
  | .number x =>
    match wholeOfFloat x with
    | .ok n => truthOfWhole n
    | .error _ => .error .notTruth
  | .text s =>
    let word := s.toLower
    if yesWords.contains word then .ok true
    else if noWords.contains word then .ok false
    else .error .truthText
  | _ => .error .notTruth

end FactNet.Json
