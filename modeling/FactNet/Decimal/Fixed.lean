import FactNet.Decimal.Shortest

/-!
# A fixed number of places

A double is rounded to a given number of places from its exact value; a value half-way
between two decimals goes to the one with the even last digit.

## Main definitions

* `roundDiv` — a quotient rounded to a whole number.
* `fixedText` — a double with a given number of places after the point.
* `scientificText` — a double with one digit before the point and an exponent.
* `generalText` — a double with a given number of digits.
-/

namespace FactNet.Decimal

/-- The quotient of two natural numbers rounded to the nearest whole number, a half going to the
even neighbour. -/
def roundDiv (num den : Nat) : Nat :=
  let low := num / den
  let rest := num % den
  if 2 * rest < den then low
  else if den < 2 * rest then low + 1
  else if low % 2 == 0 then low else low + 1

theorem roundDiv_one (n : Nat) : roundDiv n 1 = n := by
  simp [roundDiv, Nat.mod_one]

/-- Two times the rounding error is at most the divisor. -/
theorem roundDiv_near (num den : Nat) (h : 0 < den) :
    2 * (roundDiv num den * den) ≤ 2 * num + den ∧
      2 * num ≤ 2 * (roundDiv num den * den) + den := by
  have hdiv := Nat.div_add_mod num den
  have hlt := Nat.mod_lt num h
  have hmul : (num / den + 1) * den = num / den * den + den := by rw [Nat.add_mul, Nat.one_mul]
  have hcomm : den * (num / den) = num / den * den := Nat.mul_comm _ _
  unfold roundDiv
  simp only
  split
  · constructor <;> omega
  · split
    · rw [hmul]
      constructor <;> omega
    · split
      · constructor <;> omega
      · rw [hmul]
        constructor <;> omega

/-- A natural number of units of `10 ^ (-places)`, with the point in its place. -/
def withPoint (places n : Nat) : String :=
  if places = 0 then toString n
  else
    let ds := (padded (places + 1) n).toList
    let whole := ds.length - places
    String.ofList (ds.take whole ++ '.' :: ds.drop whole)

/-- A double with a given number of places after the point. -/
def fixedText (places : Nat) (x : Float) : String :=
  let parts := Parts.ofFloat x
  let sign := if parts.negative then "-" else ""
  match parts.magnitude with
  | .nan => "nan"
  | .infinite => sign ++ "inf"
  | .finite m q =>
    let v := (fractionOf m q).scaleDown (-(places : Int))
    sign ++ withPoint places (roundDiv v.num v.den)

/-! ### Numbers with an exponent -/

/-- The first digits of the double `m · 2 ^ q`, one and a given number of others, as one number, and
the decimal exponent of the first.  A carry into a new digit moves the exponent. -/
def leadingDigits (others m : Nat) (q : Int) : Nat × Int :=
  if m = 0 then (0, 0)
  else
    let v := fractionOf m q
    let p := v.exponent10
    let scaled := v.scaleDown (p - (others : Int))
    let n := roundDiv scaled.num scaled.den
    -- rounding up may have made one digit more
    if n < powerOfTen (others + 1) then (n, p) else (n / 10, p + 1)

/-- A double with one digit before the point, a given number of places after it, and an exponent of
two digits or more. -/
def scientificText (places : Nat) (x : Float) : String :=
  let parts := Parts.ofFloat x
  let sign := if parts.negative then "-" else ""
  match parts.magnitude with
  | .nan => "nan"
  | .infinite => sign ++ "inf"
  | .finite m q =>
    let (n, p) := leadingDigits places m q
    sign ++ withPoint places n ++ exponentText 2 p

/-- A decimal without the zeros after its last place that is not zero, and without a point that
nothing follows. -/
def dropPlaces (s : String) : String :=
  let cs := s.toList
  if cs.contains '.' then
    let kept := cs.reverse.dropWhile (· == '0')
    String.ofList (if kept.head? == some '.' then kept.drop 1 else kept).reverse
  else s

/-- A double with a given number of digits, which is not zero: with an exponent if the number is
smaller than a ten-thousandth or has more digits before its point, and else without.  Zeros at the
end are left out unless they are to be kept. -/
def generalText (digits : Nat) (keepZeros : Bool) (x : Float) : String :=
  let parts := Parts.ofFloat x
  let sign := if parts.negative then "-" else ""
  let finish := if keepZeros then id else dropPlaces
  match parts.magnitude with
  | .nan => "nan"
  | .infinite => sign ++ "inf"
  | .finite m q =>
    let (n, p) := leadingDigits (digits - 1) m q
    if -4 ≤ p && p < digits then sign ++ finish (withPoint (digits - 1 - p).toNat n)
    else sign ++ finish (withPoint (digits - 1) n) ++ exponentText 2 p

end FactNet.Decimal
