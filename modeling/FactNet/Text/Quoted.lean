import FactNet.Text.Printable

/-!
# Quoted text

Messages show the text they are about in quotes, on one line and without hidden
characters.  The quotes are single, unless the text has a single quote and no double one.
A backslash and the chosen quote are written after a backslash, the tabulator and the two
line ends by their letters, and any other character that is not printable by its number.

## Main definitions

* `quote` — the quoted form of a text.
* `quoteAscii` — the quoted form of a text in ASCII.
-/

namespace FactNet.Text

/-- The small hexadecimal digit of a number below sixteen. -/
def hexDigit (n : Nat) : Char :=
  if n < 10 then Char.ofNat (48 + n) else Char.ofNat (87 + n)

/-- A number in hexadecimal, with at least `width` digits. -/
def hexDigits : Nat → Nat → List Char
  | 0, _ => []
  | width + 1, n => hexDigits width (n / 16) ++ [hexDigit (n % 16)]

/-- A character that cannot be shown, by its number. -/
def numbered (c : Char) : List Char :=
  let n := c.toNat
  if n ≤ 0xff then '\\' :: 'x' :: hexDigits 2 n
  else if n ≤ 0xffff then '\\' :: 'u' :: hexDigits 4 n
  else '\\' :: 'U' :: hexDigits 8 n

/-- A character as it stands between quotes of the kind `q`. -/
def escape (q c : Char) : List Char :=
  if c = q || c = '\\' then ['\\', c]
  else if c = '\t' then ['\\', 't']
  else if c = '\n' then ['\\', 'n']
  else if c = '\r' then ['\\', 'r']
  else if isPrintable c then [c]
  else numbered c

/-- The quote for a text: single, unless the text has a single quote and no double one. -/
def quoteMark (cs : List Char) : Char :=
  if cs.contains '\'' && !cs.contains '"' then '"' else '\''

/-- The quoted form of a text. -/
def quote (s : String) : String :=
  let cs := s.toList
  let q := quoteMark cs
  String.ofList (q :: cs.flatMap (escape q) ++ [q])

/-- A text with every character that is not ASCII by its number. -/
def asciiOnly (s : String) : String :=
  String.ofList (s.toList.flatMap fun c => if c.toNat < 128 then [c] else numbered c)

/-- The quoted form of a text in ASCII. -/
def quoteAscii (s : String) : String := asciiOnly (quote s)

end FactNet.Text
