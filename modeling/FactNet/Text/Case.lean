/-!
# Letter case of names

Type tags and relation names are written in ASCII and compared without regard to case.
A few letters beyond ASCII have an ASCII letter as their other case, such as the long s,
the sharp s, the ligatures and the Kelvin sign, and a name spelled with them is recognised
too.  No other letter beyond ASCII can take part in a match, so it is left alone.

## Main definitions

* `capitals` — the text in capital letters.
* `smalls` — the text in small letters.
-/

namespace FactNet.Text

/-- The capital form of a character, as far as it lies in ASCII. -/
def capitalForm (c : Char) : List Char :=
  match c.toNat with
  | 0xdf => ['S', 'S']
  | 0x131 => ['I']
  | 0x17f => ['S']
  | 0xfb00 => ['F', 'F']
  | 0xfb01 => ['F', 'I']
  | 0xfb02 => ['F', 'L']
  | 0xfb03 => ['F', 'F', 'I']
  | 0xfb04 => ['F', 'F', 'L']
  | 0xfb05 => ['S', 'T']
  | 0xfb06 => ['S', 'T']
  | _ => [c.toUpper]

/-- The small form of a character, as far as it lies in ASCII; a dotted capital I keeps its dot
as a mark of its own. -/
def smallForm (c : Char) : List Char :=
  match c.toNat with
  | 0x130 => ['i', Char.ofNat 0x307]
  | 0x212a => ['k']
  | _ => [c.toLower]

/-- The text in capital letters. -/
def capitals (s : String) : String :=
  String.ofList (s.toList.flatMap capitalForm)

/-- The text in small letters. -/
def smalls (s : String) : String :=
  String.ofList (s.toList.flatMap smallForm)

end FactNet.Text
