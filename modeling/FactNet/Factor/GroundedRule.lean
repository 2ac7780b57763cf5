import FactNet.LogProb
import FactNet.World

/-!
# Grounded rules

A grounded rule is an implication between variables of a network.  Where its antecedents all
hold, it says how probable its consequent is; a grounded rule without antecedents is a prior.

Before the rules of one consequent are put together, its priors are cut down to one: the
first of those that make the consequent most probable, and a default where there is none.

## Main definitions

* `GroundedRule` — an implication with its log-probabilities.
* `GroundedRule.default` — the prior of a consequent that has no other.
* `cleanPriors` — one prior, and the rules with antecedents.
-/

namespace FactNet

open Scalar

/-- An implication between variables. -/
structure GroundedRule (α : Type) where
  /-- What the rule is called in explanations. -/
  name : String
  /-- The log-probability that the consequent is true. -/
  ifTrue : α
  /-- The log-probability that the consequent is false. -/
  ifFalse : α
  /-- The consequent. -/
  consequent : Nat
  /-- The antecedents, in order. -/
  antecedents : List Nat := []
  deriving Repr, Inhabited

namespace GroundedRule

variable {α : Type}

instance [BEq α] : BEq (GroundedRule α) where
  beq r s := r.name == s.name && r.ifTrue == s.ifTrue && r.ifFalse == s.ifFalse
    && r.consequent == s.consequent && r.antecedents == s.antecedents

/-- Whether a rule has no antecedents. -/
def isUnit (r : GroundedRule α) : Bool := r.antecedents.isEmpty

/-- Whether all antecedents hold. -/
@[inline] def holds (r : GroundedRule α) (v : Valuation) : Bool := r.antecedents.all v

/-- The log-probability of a value of the consequent. -/
@[inline] def valueOf (r : GroundedRule α) (b : Bool) : α := if b then r.ifTrue else r.ifFalse

/-- The variables of a rule, each once and in order. -/
def components (r : GroundedRule α) : List Nat :=
  (r.consequent :: r.antecedents).mergeSort.eraseDups

/-- The prior of a consequent that has no other. -/
def default [Scalar α] (consequent : Nat) (prior : α) : GroundedRule α :=
  ⟨"default prior", LogProb.ofProb prior, LogProb.ofProb (one - prior), consequent, []⟩

end GroundedRule

variable {α : Type} [Scalar α]

/-- The prior to keep: the first rule without antecedents whose log-probability of truth is above
that of those before it, and `other` if there is none. -/
def choosePrior (other : GroundedRule α) (rules : List (GroundedRule α)) : GroundedRule α :=
  (rules.foldl
    (fun (best, prior) r => if r.isUnit && best < r.ifTrue then (r.ifTrue, r) else (best, prior))
    (bottom, other)).2

/-- One prior, and the rules with antecedents in their order.  There has to be a rule, for its
consequent. -/
def cleanPriors (rules : List (GroundedRule α)) (default : α) :
    Option (GroundedRule α × List (GroundedRule α)) :=
  match rules with
  | [] => none
  | r :: rest =>
    some (choosePrior (.default r.consequent default) (r :: rest),
      (r :: rest).filter fun r => !r.isUnit)

end FactNet
