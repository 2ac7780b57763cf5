import FactNet.Decimal.Fixed
import FactNet.Decimal.Numeral
import FactNet.Double

/-!
# The numbers weights and log-probabilities are made of

Rules, tables and samplers compute with weights, probabilities and their logarithms.  They
ask of these numbers only what `Scalar` lists, so that the same definitions run on doubles
and can be read over the reals extended by the infinities, where a probability of zero has
the logarithm `-∞`.

The two orders of operands of `least` and `greatest` matter where numbers are not
comparable: the first operand stays unless the second is strictly smaller or larger.

## Main definitions

* `Scalar` — the arithmetic that inference needs.
* `Scalar.least`, `Scalar.greatest` — the smaller and the larger of two numbers.
* `Numeral` — numbers that can be written and read.
* The instances for `Float`.
-/

namespace FactNet

/-- Numbers with the arithmetic that inference needs. -/
class Scalar (α : Type) extends Add α, Sub α, Mul α, Div α, Neg α, LT α, LE α, BEq α where
  /-- The number `m · 10 ^ (-places)`. -/
  decimal : (m places : Nat) → α
  /-- The number above all others. -/
  top : α
  /-- The number below all others, the logarithm of zero. -/
  bottom : α
  /-- The exponential; it sends `bottom` to zero. -/
  exp : α → α
  /-- The natural logarithm; it sends zero to `bottom`. -/
  log : α → α
  /-- The exponential less one, accurate near zero. -/
  expLessOne : α → α
  /-- The logarithm of one more than the argument, accurate near zero. -/
  logOnePlus : α → α
  /-- Whether the exponential of a number below `top` is too large for the numbers there are. -/
  expOverflows : α → Bool
  /-- Whether one number is less than another. -/
  decLt : (a b : α) → Decidable (a < b)
  /-- Whether one number is at most another. -/
  decLe : (a b : α) → Decidable (a ≤ b)

namespace Scalar

variable {α : Type} [Scalar α]

instance (a b : α) : Decidable (a < b) := Scalar.decLt a b

instance (a b : α) : Decidable (a ≤ b) := Scalar.decLe a b

/-- A natural number. -/
@[inline] def nat (n : Nat) : α := decimal n 0

/-- The number zero. -/
@[inline] def zero : α := nat 0

/-- The number one. -/
@[inline] def one : α := nat 1

/-- One half. -/
@[inline] def half : α := one / nat 2

/-- The smaller of two numbers. -/
@[inline] def least (a b : α) : α := if b < a then b else a

/-- The larger of two numbers. -/
@[inline] def greatest (a b : α) : α := if a < b then b else a

/-- The number between zero and one that is nearest. -/
@[inline] def clampUnit (a : α) : α := least one (greatest zero a)

/-- The number without its sign. -/
@[inline] def magnitude (a : α) : α := if a < zero then -a else a

/-- Whether a number is one of the two beyond all others. -/
@[inline] def isInfinite (a : α) : Bool := a == top || a == bottom

/-- The sum of a list, added from the left. -/
@[specialize] def sum (xs : List α) : α := xs.foldl (· + ·) zero

@[simp] theorem sum_nil : sum ([] : List α) = zero := rfl

end Scalar

/-- Numbers that can be written down and read. -/
class Numeral (α : Type) where
  /-- A number written so that reading gives it back. -/
  text : α → String
  /-- A number written with a given number of places after the point. -/
  fixed : Nat → α → String
  /-- The number a text stands for. -/
  read? : String → Option α

/-! ### Doubles -/

instance : Scalar Float where
  decimal m places := if places = 0 then Float.ofNat m else Float.ofScientific m true places
  top := 1.0 / 0.0
  bottom := -1.0 / 0.0
  exp := Float.exp
  log := Float.log
  expLessOne := Double.expLessOne
  logOnePlus := Double.logOnePlus
  expOverflows x := (Float.exp x).isInf && !x.isInf
  decLt := Float.decLt
  decLe := Float.decLe

instance : Numeral Float where
  text := Decimal.shortestText
  fixed := Decimal.fixedText
  read? := Decimal.readFloat?

end FactNet
