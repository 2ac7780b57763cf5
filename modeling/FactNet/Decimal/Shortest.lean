import FactNet.Decimal.Binary64

/-!
# The shortest decimal of a double

Every real number in some interval around a double rounds to it.  Its shortest decimal is
the one with the fewest digits in that interval, and of those the nearest to the double.

For a number of digits the decimals form a grid, and if any point of the grid lies in the
interval then one of the two neighbours of the double does.  So it is enough to look at
these two for one digit, two digits, and so on; seventeen digits always do.

## Main definitions

* `shortest` — the shortest decimal of `m · 2 ^ q`.
* `shortestText` — a double written with its shortest decimal.
-/

namespace FactNet.Decimal

/-- The double `m · 2 ^ q`, on the grid of the multiples of `10 ^ u`: the quotient of the two
numbers is the double in units of the grid. -/
structure OnGrid where
  /-- The double in units of the grid. -/
  value : Fraction
  /-- The significand of the double. -/
  m : Nat
  /-- Whether the double below is half as far as the double above. -/
  narrow : Bool
  deriving DecidableEq, Repr

/-- Whether the grid point `n`, which lies above the double, rounds to it. -/
def OnGrid.reachesAbove (g : OnGrid) (n : Nat) : Bool :=
  let gap := (n * g.value.den - g.value.num) * (2 * g.m)
  if g.m % 2 == 0 then gap ≤ g.value.num else gap < g.value.num

/-- Whether the grid point `n`, which does not lie above the double, rounds to it. -/
def OnGrid.reachesBelow (g : OnGrid) (n : Nat) : Bool :=
  let gap := (g.value.num - n * g.value.den) * (if g.narrow then 4 * g.m else 2 * g.m)
  if g.m % 2 == 0 then gap ≤ g.value.num else gap < g.value.num

/-- The better of the two neighbours of the double on the grid, if any rounds to it. -/
def OnGrid.best? (g : OnGrid) : Option Nat :=
  let low := g.value.num / g.value.den
  let rest := g.value.num % g.value.den
  if rest == 0 then some low
  else
    match g.reachesBelow low, g.reachesAbove (low + 1) with
    | true, true =>
      -- the nearer one, and of two equally near ones the even one
      if 2 * rest < g.value.den then some low
      else if 2 * rest > g.value.den then some (low + 1)
      else if low % 2 == 0 then some low else some (low + 1)
    | true, false => some low
    | false, true => some (low + 1)
    | false, false => none

/-- The shortest decimal, looked for among `places` digits, then one more, `fuel` times in all. -/
def shortestFrom (m : Nat) (q : Int) (narrow : Bool) (p : Int) : Nat → Nat → Significand
  | 0, _ => ⟨m, 0⟩
  | fuel + 1, places =>
    let u := p - (places : Int) + 1
    match (OnGrid.mk ((fractionOf m q).scaleDown u) m narrow).best? with
    | some n => ⟨n, u⟩
    | none => shortestFrom m q narrow p fuel (places + 1)

/-- The decimal without zeros at its end. -/
def dropZeros : Nat → Significand → Significand
  | 0, d => d
  | fuel + 1, d =>
    if d.digits % 10 == 0 && d.digits != 0 then dropZeros fuel ⟨d.digits / 10, d.exponent + 1⟩
    else d

/-- The shortest decimal of the double `m · 2 ^ q`. -/
def shortest (m : Nat) (q : Int) : Significand :=
  if m = 0 then ⟨0, 0⟩
  else
    -- below a power of two doubles lie twice as close as above it
    let narrow := m == hiddenBit && q != -1074
    dropZeros 20 (shortestFrom m q narrow (fractionOf m q).exponent10 17 1)

/-! ### Writing it down -/

/-- How a number is laid out. -/
structure Layout where
  /-- The least decimal exponent that is written out in full. -/
  leastPlain : Int
  /-- The least decimal exponent that is too great to be written out in full. -/
  firstScientific : Int
  /-- Whether a whole number keeps a point and a zero. -/
  keepPoint : Bool
  /-- The least number of digits of a written exponent. -/
  exponentWidth : Nat
  /-- The text of an infinite number. -/
  infinity : String
  /-- The text for the absence of a number. -/
  nan : String
  deriving DecidableEq, Repr

/-- The digits of a natural number, at least `width` of them. -/
def padded (width n : Nat) : String :=
  let s := toString n
  String.ofList (List.replicate (width - s.length) '0') ++ s

/-- An exponent: its sign is always written. -/
def exponentText (width : Nat) (e : Int) : String :=
  (if e < 0 then "e-" else "e+") ++ padded width e.natAbs

/-- A decimal that is not negative, laid out. -/
def Layout.write (l : Layout) (d : Significand) : String :=
  let ds := (toString d.digits).toList
  let count := ds.length
  let e := d.exponent + (count : Int) - 1
  if l.leastPlain ≤ e && e < l.firstScientific then
    if e < 0 then "0." ++ String.ofList (List.replicate (-e - 1).toNat '0' ++ ds)
    else
      let whole := e.toNat + 1
      if count ≤ whole then
        String.ofList (ds ++ List.replicate (whole - count) '0') ++
          (if l.keepPoint then ".0" else "")
      else String.ofList (ds.take whole ++ '.' :: ds.drop whole)
  else
    match ds with
    | [] => ""
    | [first] => String.ofList [first] ++ exponentText l.exponentWidth e
    | first :: rest => String.ofList (first :: '.' :: rest) ++ exponentText l.exponentWidth e

/-- A double laid out by its shortest decimal. -/
def Layout.text (l : Layout) (x : Float) : String :=
  let parts := Parts.ofFloat x
  let sign := if parts.negative then "-" else ""
  match parts.magnitude with
  | .nan => l.nan
  | .infinite => sign ++ l.infinity
  | .finite m q => sign ++ l.write (shortest m q)

/-- Numbers in messages and rule files: from a ten-thousandth to below `10 ^ 16` they are written
out in full, always with a point. -/
def plain : Layout := ⟨-4, 16, true, 2, "inf", "nan"⟩

/-- A double written with its shortest decimal. -/
def shortestText (x : Float) : String :=
  plain.text x

end FactNet.Decimal
