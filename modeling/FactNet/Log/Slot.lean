import FactNet.Decimal.Fixed
import FactNet.Json.Decode
import FactNet.Json.Shown

/-!
# Places for arguments

A message has places for arguments.  A place is a percent sign, the name of the argument in
parentheses if it is asked for by name, marks that say how the value is laid out, the least
width, a point and a number of places, and a letter for the kind of value.  The width and the
number of places may be stars, and are then arguments themselves.

## Main definitions

* `Slot` — a place for an argument.
* `readSlot` — a place read off a message.
* `Slot.fill` — the text of an argument in a place.
* `MessageFault` — why arguments do not fit.
-/

namespace FactNet

open FactNet.Decimal FactNet.Text

/-- Why arguments do not fit a message. -/
inductive MessageFault where
  /-- There are too few or too many of them, or one is of the wrong kind. -/
  | mismatch
  /-- A place is not finished, or its letter means nothing, or the value is no number at all. -/
  | malformed
  /-- A number is too large for its place. -/
  | tooLarge
  /-- The message asks for a named argument that there is not. -/
  | noMember (name : String)
  deriving DecidableEq, Repr, Inhabited

/-- A number that a place asks for. -/
inductive Extent where
  /-- It is not given. -/
  | unset
  /-- It is given. -/
  | given (n : Nat)
  /-- It is an argument. -/
  | argument
  deriving DecidableEq, Repr, Inhabited

/-- How a value is laid out in its place. -/
structure Marks where
  /-- Whether it stands on the left of its width. -/
  left : Bool := false
  /-- Whether a number is filled up with zeros. -/
  zeros : Bool := false
  /-- Whether a number that is not negative has a plus. -/
  plus : Bool := false
  /-- Whether a number that is not negative has a blank, if it has no plus. -/
  blank : Bool := false
  /-- Whether the base of a number is shown, or its point and all its zeros. -/
  full : Bool := false
  deriving DecidableEq, Repr, Inhabited

/-- A place for an argument. -/
structure Slot where
  /-- The name of the argument, if it is asked for by name. -/
  member : Option String
  /-- How the value is laid out. -/
  marks : Marks
  /-- The least number of characters. -/
  width : Extent
  /-- The number of places, or the most characters of a text. -/
  places : Extent
  /-- The letter for the kind of value. -/
  kind : Char
  deriving DecidableEq, Repr, Inhabited

/-! ### Reading places -/

/-- The number that a row of ASCII digits stands for. -/
def digitsValue (cs : List Char) : Nat :=
  cs.foldl (fun n c => 10 * n + (c.toNat - 48)) 0

/-- The marks with the one that a character stands for, if it stands for one. -/
def Marks.add? (k : Marks) : Char → Option Marks
  | '-' => some { k with left := true }
  | '0' => some { k with zeros := true }
  | '+' => some { k with plus := true }
  | ' ' => some { k with blank := true }
  | '#' => some { k with full := true }
  | _ => none

/-- Reads marks. -/
def readMarks (k : Marks) : List Char → Marks × List Char
  | [] => (k, [])
  | c :: cs =>
    match k.add? c with
    | some k => readMarks k cs
    | none => (k, c :: cs)

/-- Reads a number or a star. -/
def readExtent : List Char → Extent × List Char
  | '*' :: cs => (.argument, cs)
  | cs =>
    let ds := cs.takeWhile Char.isDigit
    (if ds.isEmpty then .unset else .given (digitsValue ds), cs.dropWhile Char.isDigit)

/-- Reads a point and a number of places; a point alone means none. -/
def readPlaces : List Char → Extent × List Char
  | '.' :: cs =>
    match readExtent cs with
    | (.unset, cs) => (.given 0, cs)
    | (n, cs) => (n, cs)
  | cs => (.unset, cs)

/-- Reads a name up to its closing parenthesis; parentheses inside it are matched. -/
def readMember? : Nat → List Char → Option (List Char × List Char)
  | _, [] => none
  | 0, ')' :: cs => some ([], cs)
  | depth + 1, ')' :: cs => (readMember? depth cs).map fun (name, cs) => (')' :: name, cs)
  | depth, '(' :: cs => (readMember? (depth + 1) cs).map fun (name, cs) => ('(' :: name, cs)
  | depth, c :: cs => (readMember? depth cs).map fun (name, cs) => (c :: name, cs)

/-- Reads a place after its name.  A letter for the size of a number in memory means nothing. -/
def readForm (member : Option String) (cs : List Char) : Except MessageFault (Slot × List Char) :=
  let (marks, cs) := readMarks {} cs
  let (width, cs) := readExtent cs
  let (places, cs) := readPlaces cs
  -- one such letter is passed over
  let cs :=
    match cs with
    | 'h' :: cs => cs
    | 'l' :: cs => cs
    | 'L' :: cs => cs
    | cs => cs
  match cs with
  | [] => .error .malformed
  | kind :: cs => .ok (⟨member, marks, width, places, kind⟩, cs)

/-- Reads a place for an argument, after its percent sign.  A name is refused if the arguments have
none. -/
def readSlot (hasNames : Bool) : List Char → Except MessageFault (Slot × List Char)
  | '(' :: cs =>
    if hasNames then
      match readMember? 0 cs with
      | some (name, cs) => readForm (some (String.ofList name)) cs
      | none => .error .malformed
    else .error .mismatch
  | cs => readForm none cs

/-! ### Filling places -/

/-- A value's text for a place: what stands in front of the filling zeros, and the rest. -/
structure Piece where
  /-- The sign and the base. -/
  front : String
  /-- The digits, or all of a text. -/
  body : String
  /-- Whether it is a number. -/
  isNumber : Bool
  deriving DecidableEq, Repr, Inhabited

/-- A piece filled up to a width. -/
def Piece.fit (p : Piece) (marks : Marks) (width : Nat) : String :=
  let missing := width - (p.front.length + p.body.length)
  let fill (c : Char) := String.ofList (List.replicate missing c)
  if marks.left then p.front ++ p.body ++ fill ' '
  else if marks.zeros && p.isNumber then p.front ++ fill '0' ++ p.body
  else fill ' ' ++ p.front ++ p.body

/-- What stands in front of a number that is not negative. -/
def Marks.sign (k : Marks) : String :=
  if k.plus then "+" else if k.blank then " " else ""

/-- The piece of a number that is written with a minus if it is negative. -/
def Marks.number (k : Marks) (base written : String) : Piece :=
  match written.toList with
  | '-' :: ds => ⟨"-" ++ base, String.ofList ds, true⟩
  | ds => ⟨k.sign ++ base, String.ofList ds, true⟩

/-- The piece of a text, cut to the most characters of its place. -/
def textPiece (places : Option Nat) (s : String) : Piece :=
  match places with
  | none => ⟨"", s, false⟩
  | some n => ⟨"", String.ofList (s.toList.take n), false⟩

/-- The whole number that a value is. -/
def whole : Json → Except MessageFault Int
  | .int n => .ok n
  | .bool b => .ok (if b then 1 else 0)
  | _ => .error .mismatch

/-- The whole number that a value stands for; a fraction is dropped. -/
def truncated : Json → Except MessageFault Int
  | .number x =>
    let parts := Parts.ofFloat x
    match parts.magnitude with
    | .finite m q =>
      let v := fractionOf m q
      let n : Int := v.num / v.den
      .ok (if parts.negative then -n else n)
    | .infinite => .error .tooLarge
    | .nan => .error .malformed
  | v => whole v

/-- The number that a value stands for. -/
def real : Json → Except MessageFault Float
  | .number x => .ok x
  | v => (whole v).bind fun n =>
    let x := Json.floatOfInt n
    if x.isInf then .error .tooLarge else .ok x

/-- A whole number in a base, with at least some digits. -/
def wholeText (base places : Nat) (n : Int) : String :=
  let ds := Nat.toDigits base n.natAbs
  (if n < 0 then "-" else "") ++ String.ofList (List.replicate (places - ds.length) '0' ++ ds)

/-- A number with its point shown even if no place follows it. -/
def withFullPoint (s : String) : String :=
  let cs := s.toList
  if cs.contains '.' || cs.contains 'n' then s
  else String.ofList (cs.takeWhile (· != 'e') ++ '.' :: cs.dropWhile (· != 'e'))

/-- The character that a value stands for. -/
def character : Json → Except MessageFault String
  | .text s => if s.length = 1 then .ok s else .error .mismatch
  | .number _ => .error .mismatch
  | v => (whole v).bind fun n =>
    if 0 ≤ n && n < 0x110000 then .ok (String.singleton (Char.ofNat n.toNat)) else .error .tooLarge

/-- The piece of a value for a letter. -/
def pieceOf (kind : Char) (k : Marks) (places : Option Nat) (v : Json) :
    Except MessageFault Piece :=
  let point (s : String) := k.number "" (if k.full then withFullPoint s else s)
  let general (x : Float) := point (generalText (max 1 (places.getD 6)) k.full x)
  let upper (p : Piece) : Piece := { p with front := p.front.toUpper, body := p.body.toUpper }
  let inBase (base : Nat) (mark : String) (n : Int) :=
    k.number (if k.full then mark else "") (wholeText base (places.getD 0) n)
  match kind with
  | 's' => .ok (textPiece places v.shown)
  | 'r' => .ok (textPiece places v.inside)
  | 'a' => .ok (textPiece places (asciiOnly v.inside))
  | 'c' => (character v).map (textPiece none)
  | 'd' | 'i' | 'u' => (truncated v).map fun n => k.number "" (wholeText 10 (places.getD 0) n)
  | 'x' => (whole v).map (inBase 16 "0x")
  | 'X' => (whole v).map fun n => upper (inBase 16 "0x" n)
  | 'o' => (whole v).map (inBase 8 "0o")
  | 'f' => (real v).map fun x => point (fixedText (places.getD 6) x)
  | 'F' => (real v).map fun x => upper (point (fixedText (places.getD 6) x))
  | 'e' => (real v).map fun x => point (scientificText (places.getD 6) x)
  | 'E' => (real v).map fun x => upper (point (scientificText (places.getD 6) x))
  | 'g' => (real v).map general
  | 'G' => (real v).map fun x => upper (general x)
  | _ => .error .malformed

/-- The number that an extent stands for, which lies below a bound, and the arguments that are
left. -/
def Extent.take (bound : Int) : Extent → List Json → Except MessageFault (Option Int × List Json)
  | .unset, args => .ok (none, args)
  | .given n, args => if n < bound then .ok (some (n : Int), args) else .error .malformed
  | .argument, [] => .error .mismatch
  | .argument, v :: args => (whole v).bind fun n =>
    if -bound ≤ n && n < bound then .ok (some n, args) else .error .tooLarge

/-- The text of the first argument in a place, and the arguments that are left.  A negative width
puts it on the left, and a negative number of places means none. -/
def Slot.fill (slot : Slot) (args : List Json) : Except MessageFault (String × List Json) := do
  let (width, args) ← slot.width.take Json.wordBound args
  let (places, args) ← slot.places.take 2147483648 args
  let width := width.getD 0
  let marks := { slot.marks with left := slot.marks.left || width < 0 }
  match args with
  | [] => .error .mismatch
  | v :: args =>
    let piece ← pieceOf slot.kind marks (places.map Int.toNat) v
    .ok (piece.fit marks width.natAbs, args)

end FactNet
