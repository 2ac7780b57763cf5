import FactNet.Factor.GroundedRule

/-!
# Merging grounded rules

Where several grounded rules of one consequent hold at once, their log-probabilities are
merged into one, together with the prior's.

* Noisy or: every rule has its own chance to make the consequent true.  A rule never makes
  it less probable than the prior does.
* Geometric mean: the mean of the log-probabilities, none taken below the prior's.
* Hybrid or: the rules that speak for the consequent are merged by noisy or, the others by the
  product of their probabilities, and the mean of the two is taken.
* Gentle or: as before, with noisy or on both sides.

## Main definitions

* `MergeMethod` — the ways to merge.
* `MergeMethod.merge` — the merged log-probability.
* `MergeMethod.overflows` — whether an exponential on the way is too large.
-/

namespace FactNet

open Scalar

/-- A way to merge grounded rules that hold at once. -/
inductive MergeMethod where
  | noisyOr
  | hybridOr
  | gentleOr
  | geometricMean
  deriving DecidableEq, Repr, Inhabited

namespace MergeMethod

/-- The name of a method. -/
def name : MergeMethod → String
  | .noisyOr => "noisy_or"
  | .hybridOr => "hybrid_or"
  | .gentleOr => "gentle_or"
  | .geometricMean => "geometric_mean"

/-- Every method. -/
def all : List MergeMethod := [.noisyOr, .hybridOr, .gentleOr, .geometricMean]

/-- The method with a name. -/
def ofName? (s : String) : Option MergeMethod :=
  all.find? fun m => m.name == s

variable {α : Type} [Scalar α]

/-- Whether a rule speaks for its consequent. -/
@[inline] def favours (r : GroundedRule α) : Bool := r.ifFalse < r.ifTrue

/-- The log-probability that no rule makes the consequent true. -/
@[specialize] def jointlyFalse (prior : GroundedRule α) (rows : List (GroundedRule α)) : α :=
  sum (rows.map fun r => least prior.ifFalse r.ifFalse)

/-- The log-probability that every rule makes the consequent true. -/
@[specialize] def jointlyTrue (prior : GroundedRule α) (rows : List (GroundedRule α)) : α :=
  sum (rows.map fun r => greatest prior.ifTrue r.ifTrue)

/-- The mean of a list, kept up as it grows; `n` elements with the mean `acc` came before. -/
@[specialize] def runningMean (acc : α) (n : Nat) : List α → α
  | [] => acc
  | x :: xs => runningMean (acc + (x - acc) / nat (n + 1)) (n + 1) xs

/-- The probability of one side, which is none if no rule is on it. -/
@[inline] def branch (rows : List (GroundedRule α)) (p : α) : α :=
  if rows.isEmpty then zero else p

/-- The logarithm of the mean of the sides that have a rule on them. -/
@[inline] def meanOfBranches (pro contra : List (GroundedRule α)) (p q : α) : α :=
  let count := (if pro.isEmpty then 0 else 1) + (if contra.isEmpty then 0 else 1)
  LogProb.ofProb ((branch pro p + branch contra q) / nat count)

/-- The merged log-probability of some rules with their prior. -/
@[specialize] def merge (m : MergeMethod) (prior : GroundedRule α)
    (rows : List (GroundedRule α)) : α :=
  match m with
  | .noisyOr => LogProb.complement (jointlyFalse prior rows)
  | .geometricMean => runningMean zero 0 (rows.map fun r => greatest prior.ifTrue r.ifTrue)
  | .hybridOr =>
    let pro := rows.filter favours
    let contra := rows.filter fun r => !favours r
    meanOfBranches pro contra (-expLessOne (jointlyFalse prior pro))
      (exp (jointlyTrue prior contra))
  | .gentleOr =>
    let pro := rows.filter favours
    let contra := rows.filter fun r => !favours r
    meanOfBranches pro contra (-expLessOne (jointlyFalse prior pro))
      (-expLessOne (jointlyFalse prior contra))

/-- Whether an exponential that merging needs is too large. -/
@[specialize] def overflows (m : MergeMethod) (prior : GroundedRule α)
    (rows : List (GroundedRule α)) : Bool :=
  let pro := rows.filter favours
  let contra := rows.filter fun r => !favours r
  match m with
  | .noisyOr => false
  | .geometricMean => false
  | .hybridOr =>
    expOverflows (jointlyFalse prior pro) || expOverflows (jointlyTrue prior contra)
  | .gentleOr =>
    expOverflows (jointlyFalse prior pro) || expOverflows (jointlyFalse prior contra)

end MergeMethod

end FactNet
