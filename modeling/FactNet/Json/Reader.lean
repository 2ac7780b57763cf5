import FactNet.Decimal.Numeral
import FactNet.Json.Value
import FactNet.Text.Split

/-!
# Reading JSON

The grammar is that of JSON, and a number may also be `NaN`, `Infinity` or `-Infinity`.
Control characters inside a text, halves of surrogate pairs that stand alone and zeros in
front of a number are refused, and so are values nested too deep.

## Main definitions

* `Json.read?` — the value that a text holds.
-/

namespace FactNet.Json

open FactNet.Decimal FactNet.Text

/-- The text without the blanks in front; JSON knows four of them. -/
def skipSpace (cs : List Char) : List Char :=
  cs.dropWhile fun c => c == ' ' || c == '\t' || c == '\n' || c == '\r'

/-! ### Texts -/

/-- The value of a hexadecimal digit. -/
def hexValue? (c : Char) : Option Nat :=
  if c.isDigit then some (c.toNat - 48)
  else if 'a' ≤ c && c ≤ 'f' then some (c.toNat - 87)
  else if 'A' ≤ c && c ≤ 'F' then some (c.toNat - 55)
  else none

/-- The number that four hexadecimal digits stand for. -/
def unit? (a b c d : Char) : Option Nat :=
  match hexValue? a, hexValue? b, hexValue? c, hexValue? d with
  | some a, some b, some c, some d => some (((a * 16 + b) * 16 + c) * 16 + d)
  | _, _, _, _ => none

/-- The character that a letter after a backslash stands for. -/
def escaped? : Char → Option Char
  | '"' => some '"'
  | '\\' => some '\\'
  | '/' => some '/'
  | 'b' => some (Char.ofNat 8)
  | 'f' => some (Char.ofNat 12)
  | 'n' => some '\n'
  | 'r' => some '\r'
  | 't' => some '\t'
  | _ => none

/-- Whether a number is the first half of a surrogate pair. -/
def isHighHalf (n : Nat) : Bool := 0xd800 ≤ n && n < 0xdc00

/-- Whether a number is the second half of a surrogate pair. -/
def isLowHalf (n : Nat) : Bool := 0xdc00 ≤ n && n < 0xe000

/-- The character of a surrogate pair. -/
def joinHalves (high low : Nat) : Char :=
  Char.ofNat (0x10000 + (high - 0xd800) * 0x400 + (low - 0xdc00))

/-- Reads a text after its opening quote: the characters, the last one read first, and what follows
the closing quote. -/
def readChars? (acc : List Char) : List Char → Option (List Char × List Char)
  | '"' :: rest => some (acc, rest)
  | '\\' :: 'u' :: a :: b :: c :: d :: rest =>
    match unit? a b c d with
    | none => none
    | some high =>
      if isHighHalf high then
        match rest with
        | '\\' :: 'u' :: e :: f :: g :: h :: rest =>
          match unit? e f g h with
          | none => none
          | some low =>
            if isLowHalf low then readChars? (joinHalves high low :: acc) rest else none
        | _ => none
      else if isLowHalf high then none
      else readChars? (Char.ofNat high :: acc) rest
  | '\\' :: c :: rest =>
    match escaped? c with
    | none => none
    | some c => readChars? (c :: acc) rest
  | c :: rest => if c.toNat < 0x20 then none else readChars? (c :: acc) rest
  | [] => none

/-- Reads a text after its opening quote. -/
def readText? (cs : List Char) : Option (String × List Char) :=
  (readChars? [] cs).map fun (acc, rest) => (String.ofList acc.reverse, rest)

/-! ### Numbers -/

/-- The most digits that a whole number may have. -/
def mostDigits : Nat := 4300

/-- Digits, at least one, and what follows them. -/
def digits? (cs : List Char) : Option (List Char × List Char) :=
  match cs.takeWhile Char.isDigit with
  | [] => none
  | ds => some (ds, cs.dropWhile Char.isDigit)

/-- Reads the places after a point, if there is one. -/
def readPlaces? : List Char → Option (List Char × List Char)
  | '.' :: cs => digits? cs
  | cs => some ([], cs)

/-- Reads an exponent, if there is one. -/
def readExponent? : List Char → Option (Option Int × List Char)
  | c :: cs =>
    if c == 'e' || c == 'E' then
      let (negative, cs) := takeSign cs
      (digits? cs).map fun (ds, rest) =>
        let n : Int := naturalOf ds
        (some (if negative then -n else n), rest)
    else some (none, c :: cs)
  | [] => some (none, [])

/-- Reads a number without its sign. -/
def readMagnitude? (negative : Bool) (cs : List Char) : Option (Json × List Char) :=
  match dropPrefix? ['I', 'n', 'f', 'i', 'n', 'i', 't', 'y'] cs with
  | some rest => some (.number (if negative then -1.0 / 0.0 else 1.0 / 0.0), rest)
  | none =>
    match digits? cs with
    | none => none
    | some (whole, rest) =>
      if whole.head? == some '0' && whole.length != 1 then none
      else
        match readPlaces? rest with
        | none => none
        | some (places, rest) =>
          match readExponent? rest with
          | none => none
          | some (none, rest) =>
            -- without a point or an exponent the number has no bound
            if places.isEmpty then
              let n : Int := naturalOf whole
              if whole.length ≤ mostDigits then some (.int (if negative then -n else n), rest)
              else none
            else
              let x := (Significand.mk (naturalOf (whole ++ places)) (-places.length)).toFloat
              some (.number (if negative then -x else x), rest)
          | some (some e, rest) =>
            let x := (Significand.mk (naturalOf (whole ++ places)) (e - places.length)).toFloat
            some (.number (if negative then -x else x), rest)

/-- Reads a number, or the absence of one. -/
def readNumber? (cs : List Char) : Option (Json × List Char) :=
  match cs with
  | '-' :: cs => readMagnitude? true cs
  | cs =>
    match dropPrefix? ['N', 'a', 'N'] cs with
    | some rest => some (.number (0.0 / 0.0), rest)
    | none => readMagnitude? false cs

/-! ### Values -/

/-- The words that are values. -/
def readWord? (cs : List Char) : Option (Json × List Char) :=
  match dropPrefix? ['n', 'u', 'l', 'l'] cs with
  | some rest => some (.null, rest)
  | none =>
    match dropPrefix? ['t', 'r', 'u', 'e'] cs with
    | some rest => some (.bool true, rest)
    | none => (dropPrefix? ['f', 'a', 'l', 's', 'e'] cs).map fun rest => (.bool false, rest)

mutual

/-- Reads a value.  The fuel falls with every call, the depth with every bracket. -/
def readValue? : (fuel depth : Nat) → List Char → Option (Json × List Char)
  | 0, _, _ => none
  | fuel + 1, depth, cs =>
    match skipSpace cs, depth with
    | '"' :: rest, _ => (readText? rest).map fun (s, rest) => (.text s, rest)
    | '[' :: _, 0 => none
    | '{' :: _, 0 => none
    | '[' :: rest, depth + 1 =>
      match skipSpace rest with
      | ']' :: rest => some (.list [], rest)
      | rest => (readItems? fuel depth rest).map fun (items, rest) => (.list items, rest)
    | '{' :: rest, depth + 1 =>
      match skipSpace rest with
      | '}' :: rest => some (.object [], rest)
      | rest => (readMembers? fuel depth rest).map fun (ms, rest) => (.object ms, rest)
    | rest, _ => readWord? rest <|> readNumber? rest

/-- Reads the values of a list, after its opening bracket. -/
def readItems? : (fuel depth : Nat) → List Char → Option (List Json × List Char)
  | 0, _, _ => none
  | fuel + 1, depth, cs =>
    match readValue? fuel depth cs with
    | none => none
    | some (v, rest) =>
      match skipSpace rest with
      | ',' :: rest => (readItems? fuel depth rest).map fun (vs, rest) => (v :: vs, rest)
      | ']' :: rest => some ([v], rest)
      | _ => none

/-- Reads the members of an object, after its opening brace. -/
def readMembers? : (fuel depth : Nat) → List Char → Option (List (String × Json) × List Char)
  | 0, _, _ => none
  | fuel + 1, depth, cs =>
    match skipSpace cs with
    | '"' :: rest =>
      match readText? rest with
      | none => none
      | some (name, rest) =>
        match skipSpace rest with
        | ':' :: rest =>
          match readValue? fuel depth rest with
          | none => none
          | some (v, rest) =>
            match skipSpace rest with
            | ',' :: rest =>
              (readMembers? fuel depth rest).map fun (ms, rest) => ((name, v) :: ms, rest)
            | '}' :: rest => some ([(name, v)], rest)
            | _ => none
        | _ => none
    | _ => none

end

/-- How deep values may be nested. -/
def deepest : Nat := 200

/-- The value that a text holds.  Two calls a character are fuel enough. -/
def read? (s : String) : Option Json :=
  let cs := s.toList
  match readValue? (2 * cs.length + 2) deepest cs with
  | some (v, rest) => if (skipSpace rest).isEmpty then some v else none
  | none => none

end FactNet.Json
