/-!
# Double-precision numbers by their parts

A finite double is a sign and a whole number times a power of two.  Everything that is said
about its decimal forms is said of these two integers, in exact arithmetic.

## Main definitions

* `Parts` — sign and magnitude of a double.
* `Parts.ofFloat` — the parts read off the bits.
* `Fraction` — a quotient of two natural numbers, the second not zero.
* `fractionOf` — the value `m · 2 ^ q` as a quotient.
* `wholeNumber?` — the whole number that a double is, if it is one.
* `Significand` — digits and a power of ten.
-/

namespace FactNet.Decimal

/-- The magnitude of a double. -/
inductive Magnitude where
  /-- No number at all. -/
  | nan
  /-- Beyond every finite number. -/
  | infinite
  /-- The number `m · 2 ^ q`. -/
  | finite (m : Nat) (q : Int)
  deriving DecidableEq, Repr, Inhabited

/-- Sign and magnitude of a double. -/
structure Parts where
  /-- Whether the sign bit is set. -/
  negative : Bool
  /-- The number without its sign. -/
  magnitude : Magnitude
  deriving DecidableEq, Repr, Inhabited

/-- Two to the fifty-second, the bit that is not written of a number that is not subnormal. -/
def hiddenBit : Nat := 4503599627370496

/-- The parts read off the bits: one for the sign, eleven for the exponent, and fifty-two for the
fraction.  The least exponent marks the subnormal numbers, the greatest one the infinities and the
absence of a number. -/
def Parts.ofBits (bits : Nat) : Parts :=
  let negative := (bits >>> 63) % 2 == 1
  let field : Nat := (bits >>> 52) % 2048
  let fraction : Nat := bits % hiddenBit
  if field == 2047 then ⟨negative, if fraction == 0 then .infinite else .nan⟩
  else if field == 0 then ⟨negative, .finite fraction (-1074)⟩
  else ⟨negative, .finite (hiddenBit + fraction) ((field : Int) - 1075)⟩

/-- The parts of a double. -/
def Parts.ofFloat (x : Float) : Parts :=
  Parts.ofBits x.toBits.toNat

/-- A quotient of two natural numbers. -/
structure Fraction where
  /-- The number divided. -/
  num : Nat
  /-- The number it is divided by. -/
  den : Nat
  deriving DecidableEq, Repr, Inhabited

/-- The value `m · 2 ^ q` as a quotient. -/
def fractionOf (m : Nat) (q : Int) : Fraction :=
  if 0 ≤ q then ⟨m <<< q.toNat, 1⟩ else ⟨m, 1 <<< (-q).toNat⟩

/-- The whole number that a double is, if it is one. -/
def wholeNumber? (x : Float) : Option Int :=
  let parts := Parts.ofFloat x
  match parts.magnitude with
  | .finite m q =>
    let v := fractionOf m q
    if v.num % v.den == 0 then
      let n : Int := v.num / v.den
      some (if parts.negative then -n else n)
    else none
  | _ => none

/-- A decimal without its sign: all its digits as one number, times a power of ten. -/
structure Significand where
  /-- The digits, as one number. -/
  digits : Nat
  /-- The power of ten. -/
  exponent : Int
  deriving DecidableEq, Repr, Inhabited

/-- A power of ten. -/
def powerOfTen (n : Nat) : Nat := Nat.pow 10 n

/-- The quotient divided by `10 ^ u`. -/
def Fraction.scaleDown (x : Fraction) (u : Int) : Fraction :=
  if 0 ≤ u then ⟨x.num, x.den * powerOfTen u.toNat⟩ else ⟨x.num * powerOfTen (-u).toNat, x.den⟩

/-- The number of decimal digits of a natural number; zero has none. -/
def digitCount (n : Nat) : Nat :=
  if n = 0 then 0 else digitCount (n / 10) + 1

/-- How many times a quotient below one has to be taken ten times to reach one, at most `fuel`. -/
def stepsToOne (den : Nat) : Nat → Nat → Nat
  | 0, _ => 0
  | fuel + 1, num => if den ≤ num then 0 else stepsToOne den fuel (num * 10) + 1

/-- The decimal exponent of a quotient that is not zero: the greatest `p` such that `10 ^ p` does
not exceed it.  No double needs more than four hundred steps. -/
def Fraction.exponent10 (x : Fraction) : Int :=
  if x.den ≤ x.num then (digitCount (x.num / x.den) : Int) - 1
  else -(stepsToOne x.den 400 x.num : Int)

end FactNet.Decimal
