import FactNet.Log.Event
import FactNet.Net.Sampler
import FactNet.Random.MersenneTwister

/-!
# Asking a network

The best world and the marginal probabilities of a network are found by several chains, each
with a stream of its own.  Chains meet only when they end, and what comes of them does not
depend on the order in which they do: of worlds with the same score that of the chain with
the least number wins, and marginals are added up by number.

A network without adjustable variables has only one world, so nothing is sampled, and a
warning says so.

## Main definitions

* `ChainBest`, `absorb` — the best world of a chain, and of several.
* `averaged` — the marginals of several chains put together.
* `BayesNet.gibbsMap` — the best world that some steps of sampling find.
* `BayesNet.gibbsMarginals` — how probable every literal is.
* `BayesNet.gibbsMle` — the literals that are more probable than not.
-/

namespace FactNet

open Scalar

/-! ### Putting chains together -/

/-- The best world a chain has seen. -/
structure ChainBest (α : Type) where
  /-- The number of the chain. -/
  chain : Nat
  /-- The score of the world. -/
  score : α
  /-- The world. -/
  world : World
  deriving Inhabited

/-- The better of what is known and the result of another chain. -/
def absorb {α : Type} [Scalar α] (known : Option (ChainBest α)) (c : ChainBest α) :
    Option (ChainBest α) :=
  match known with
  | none => if bottom ≤ c.score then some c else none
  | some k =>
    if k.score < c.score || c.score == k.score && c.chain < k.chain then some c else some k

/-- The sums of two rows, place by place. -/
def addRows {α : Type} [Scalar α] (xs ys : List α) : List α :=
  List.zipWith (· + ·) xs ys

/-- The marginals of several chains put together: the mean for each variable. -/
def averaged {α : Type} [Scalar α] (n : Nat) (chains : List (Nat × List α)) : List α :=
  -- the order of the additions is that of the chains, whichever ended first
  let sorted := chains.mergeSort fun a b => a.1 ≤ b.1
  let totals := sorted.foldl (fun acc c => addRows acc c.2) (List.replicate n zero)
  totals.map fun x => clampUnit (x / nat chains.length)

/-! ### Questions -/

/-- Why a question to a network has no answer. -/
inductive SearchFault where
  /-- A chain has stopped. -/
  | halted (cause : Halt)
  /-- A value is missing or too large. -/
  | eval (fault : EvalFault)
  deriving DecidableEq, Repr, Inhabited

/-- The best world that was found. -/
structure MapResult (α : Type) where
  /-- The literals with their values. -/
  assignment : List (Literal × Bool)
  /-- The score. -/
  logScore : α
  deriving Repr, Inhabited

/-- The literals that are true. -/
def MapResult.trueLiterals {α : Type} (r : MapResult α) : List Literal :=
  (r.assignment.filter (·.2)).map (·.1)

namespace BayesNet

variable {σ α : Type}

/-- The chain with a number after a run. -/
@[specialize] def chain [Scalar α] [RandomStream σ α] (net : BayesNet α) (mode : Mode)
    (stream : σ) (iters : Nat) : Except SearchFault (Sampler σ α) :=
  match Sampler.start? net mode stream with
  | .error e => .error (.eval e)
  | .ok s =>
    match s.run net mode iters with
    | .error (cause, _) => .error (.halted cause)
    | .ok s => .ok s

/-- The warning of a network in which nothing is adjustable. -/
def allFixedWarning (net : BayesNet α) (consequence : String) : Event :=
  ⟨.warning, "All " ++ toString net.literals.size ++ " variables are fixed; " ++ consequence⟩

/-- The best world that chains with the given streams find, and what there is to tell. -/
@[specialize] def gibbsMapFrom [Scalar α] [RandomStream σ α] (streams : Nat → σ)
    (net : BayesNet α) (iters : Nat) : Except SearchFault (MapResult α × List Event) :=
  if net.adjustable.isEmpty then
    match net.fixedWorld? with
    | .error e => .error (.eval e)
    | .ok w =>
      match net.score? w with
      | .error e => .error (.eval e)
      | .ok score =>
        .ok (⟨net.literalValues w, score⟩, [net.allFixedWarning "skipping MAP search"])
  else do
    let chains ← (List.range net.threads).mapM fun i => do
      let s ← net.chain .search (streams i) iters
      return (⟨i, s.bestScore, s.best⟩ : ChainBest α)
    match chains.foldl absorb none with
    | some best => .ok (⟨net.literalValues best.world, best.score⟩, [])
    | none => .ok (⟨[], bottom⟩, [])

/-- How probable every literal is by chains with the given streams, and what there is to tell. -/
@[specialize] def gibbsMarginalsFrom [Scalar α] [RandomStream σ α] (streams : Nat → σ)
    (net : BayesNet α) (iters : Nat) :
    Except SearchFault (List (Literal × α) × List Event) :=
  if net.adjustable.isEmpty then
    let values := net.literals.toList.zipIdx.map fun (l, i) =>
      (l, if (Pairs.last? net.fixed i).getD false then one else zero)
    .ok (Pairs.collapse values, [net.allFixedWarning "returning evidence as marginals"])
  else do
    let chains ← (List.range net.threads).mapM fun i => do
      let s ← net.chain .estimate (streams i) iters
      return (i, s.marginals)
    .ok (Pairs.collapse (net.literals.toList.zip (averaged net.literals.size chains)), [])

/-- The best world that some steps of sampling find, and what there is to tell. -/
@[specialize] def gibbsMap [Scalar α] (net : BayesNet α) (iters : Nat) :
    Except SearchFault (MapResult α × List Event) :=
  gibbsMapFrom (fun i => MersenneTwister.ofSeed i) net iters

/-- How probable every literal is after some steps of sampling, and what there is to tell. -/
@[specialize] def gibbsMarginals [Scalar α] (net : BayesNet α) (iters : Nat) :
    Except SearchFault (List (Literal × α) × List Event) :=
  gibbsMarginalsFrom (fun i => MersenneTwister.ofSeed i) net iters

/-- The literals that are more probable than not, and what there is to tell. -/
@[specialize] def gibbsMle [Scalar α] (net : BayesNet α) (iters : Nat) :
    Except SearchFault (List Literal × List Event) :=
  (net.gibbsMarginals iters).map fun (marginals, events) =>
    ((marginals.filter fun m => half < m.2).map (·.1), events)

end BayesNet

end FactNet
