import FactNet.Text.Blank
import FactNet.Text.Digit
import FactNet.Decimal.Binary64

/-!
# Reading numbers

A number is a row of digits with at most one point, then perhaps an exponent; digits may be
grouped by single underscores.  The infinities and the absence of a number are spelled
`inf`, `infinity` and `nan` in any case.  Blanks around the number do not count.  The value
is the double nearest to the decimal that is written.

## Main definitions

* `Significand.toFloat` — the nearest double.
* `readFloat?` — the double a text stands for.
* `readInt?` — the whole number a text stands for.
-/

namespace FactNet.Decimal

open FactNet.Text

/-- The double nearest to a written number.  Far outside the range of doubles the answer is known
without the power of ten. -/
def Significand.toFloat (s : Significand) : Float :=
  let magnitude := (digitCount s.digits : Int) + s.exponent
  if s.digits = 0 || magnitude < -400 then 0.0
  else if 400 < magnitude then 1.0 / 0.0
  else Float.ofScientific s.digits (s.exponent < 0) s.exponent.natAbs

/-! ### Digits -/

/-- The value of an ASCII digit. -/
def asciiDigit? (c : Char) : Option Nat :=
  if c.isDigit then some (c.toNat - 48) else none

/-- Reads digits as long as there are any.  An underscore stands only between two digits; the flag
says whether a digit came right before.  The answer is the number so far, how many digits there
were, and the rest of the text. -/
def takeDigits (digit? : Char → Option Nat) : Bool → Nat → Nat → List Char → Nat × Nat × List Char
  | _, n, count, [] => (n, count, [])
  | after, n, count, c :: cs =>
    match digit? c with
    | some d => takeDigits digit? true (10 * n + d) (count + 1) cs
    | none =>
      match c, after, cs with
      | '_', true, next :: _ =>
        if (digit? next).isSome then takeDigits digit? false n count cs else (n, count, c :: cs)
      | _, _, _ => (n, count, c :: cs)

/-- Reads an optional sign: whether it is a minus, and the rest of the text. -/
def takeSign : List Char → Bool × List Char
  | '-' :: cs => (true, cs)
  | '+' :: cs => (false, cs)
  | cs => (false, cs)

/-- Reads the exponent that ends a number, if the text does not end before it. -/
def takeExponent? (digit? : Char → Option Nat) : List Char → Option Int
  | [] => some 0
  | c :: cs =>
    if c = 'e' || c = 'E' then
      let (negative, cs) := takeSign cs
      let (n, count, rest) := takeDigits digit? false 0 0 cs
      if count = 0 || !rest.isEmpty then none
      else some (if negative then -(n : Int) else (n : Int))
    else none

/-- Reads a number without its sign, to the end of the text. -/
def readSignificand? (digit? : Char → Option Nat) (cs : List Char) : Option Significand :=
  let (whole, wholeCount, rest) := takeDigits digit? false 0 0 cs
  let (digits, places, rest) :=
    match rest with
    | '.' :: rest => takeDigits digit? false whole 0 rest
    | _ => (whole, 0, rest)
  if wholeCount + places = 0 then none
  else (takeExponent? digit? rest).map fun e => ⟨digits, e - (places : Int)⟩

/-! ### Whole texts -/

/-- Whether a character may stand around a number: any blank but the four separators. -/
def isMargin (c : Char) : Bool :=
  isBlank c && !(0x1c ≤ c.toNat && c.toNat ≤ 0x1f)

/-- A text without the blanks around a number. -/
def trimMargin (cs : List Char) : List Char :=
  ((cs.dropWhile isMargin).reverse.dropWhile isMargin).reverse

/-- The double a text stands for, its digits being those that `digit?` knows. -/
def readFloatWith? (digit? : Char → Option Nat) (s : String) : Option Float :=
  let (negative, cs) := takeSign (trimMargin s.toList)
  let word := String.ofList (cs.map Char.toLower)
  let magnitude? : Option Float :=
    if word == "inf" || word == "infinity" then some (1.0 / 0.0)
    else if word == "nan" then some (0.0 / 0.0)
    else (readSignificand? digit? cs).map Significand.toFloat
  magnitude?.map fun x => if negative then -x else x

/-- The double a text stands for; its digits may be of any script. -/
def readFloat? (s : String) : Option Float :=
  readFloatWith? digitValue? s

/-- The whole number a text stands for: ASCII digits, and perhaps a point with nothing but zeros
after it. -/
def readInt? (s : String) : Option Int :=
  let (negative, cs) := takeSign (trimMargin s.toList)
  let (n, count, rest) := takeDigits asciiDigit? false 0 0 cs
  let closed :=
    match rest with
    | [] => true
    | '.' :: zeros => !zeros.isEmpty && zeros.all (· == '0')
    | _ => false
  if count = 0 || !closed then none
  else some (if negative then -(n : Int) else (n : Int))

end FactNet.Decimal
