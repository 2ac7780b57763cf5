import FactNet.Scalar

/-!
# Probabilities by their logarithms

Probabilities are kept as natural logarithms, where a probability of zero is the number
below all others and no case of zero or one is an error.

## Main definitions

* `LogProb.ofProb` — the logarithm of a probability.
* `LogProb.complement` — the logarithm of one minus a probability.
* `LogProb.add` — the logarithm of a sum.
* `LogProb.sigmoid`, `LogProb.logSigmoid`, `LogProb.logit` — from log-odds and back.
* `LogProb.clip` — the range that stored log-probabilities keep to.
-/

namespace FactNet.LogProb

open Scalar

variable {α : Type} [Scalar α]

/-- The logarithm of one half. -/
def half : α := log (decimal 5 1)

/-- The least log-probability that is stored: that of a ten-thousandth. -/
def least : α := log (decimal 1 4)

/-- The greatest log-probability that is stored: that of all but a ten-thousandth. -/
def greatest : α := log (one - decimal 1 4)

/-- The logarithm of a probability. -/
def ofProb (p : α) : α :=
  if p ≤ zero then bottom else log p

/-- The logarithm of one minus the probability whose logarithm is `x`.  Above one half the small
difference is taken first, below it the small exponential. -/
def complement (x : α) : α :=
  if zero ≤ x then bottom
  else if x == bottom then zero
  else if -decimal 6931471805599453 16 < x then log (-expLessOne x)
  else logOnePlus (-exp x)

/-- The logarithm of the sum of two probabilities given by their logarithms. -/
def add (a b : α) : α :=
  if a == bottom then b
  else if b == bottom then a
  else if a < b then b + logOnePlus (exp (a - b))
  else a + logOnePlus (exp (b - a))

/-- The probability with the given log-odds. -/
def sigmoid (x : α) : α :=
  if zero ≤ x then one / (one + exp (-x))
  else
    let z := exp x
    z / (one + z)

/-- The logarithm of the probability with the given log-odds. -/
def logSigmoid (x : α) : α :=
  if x == top then zero
  else if x == bottom then bottom
  else if zero ≤ x then -logOnePlus (exp (-x))
  else x - logOnePlus (exp x)

/-- The log-odds of a probability. -/
def logit (p : α) : α :=
  if one ≤ p then top
  else if p ≤ zero then bottom
  else log (p / (one - p))

/-- A log-probability brought into the range that is stored. -/
def clip (x : α) : α :=
  if x < least then least
  else if greatest < x then greatest
  else x

end FactNet.LogProb
