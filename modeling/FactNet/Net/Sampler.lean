import FactNet.Net.Basic
import FactNet.Random.Stream

/-!
# Sampling worlds

A chain walks through the worlds of a network.  At every step it takes an adjustable variable
and draws its value with the probability it has when all other variables stay; from time to
time it draws all adjustable variables anew from their priors.

The score of the current world is kept up step by step: only the factors that depend on the
variable are read again, unless a score or contribution is infinite.  A chain that searches
for the best world compares the score it keeps with the true one now and then.

A chain that estimates how often every variable is true keeps a mean for each.  The samples of
a variable are only added to its mean when its value changes, when all are drawn anew and at
the end of a run.

## Main definitions

* `Mode` — what a chain is for.
* `Sampler` — the state of a chain.
* `Sampler.conditional` — the scores of the two worlds that differ in a variable.
* `Sampler.step`, `Sampler.restart`, `Sampler.checkDrift` — the moves.
* `Sampler.run` — a number of steps.
-/

namespace FactNet

open Scalar

/-- What a chain is for. -/
inductive Mode where
  /-- Finding the world with the best score. -/
  | search
  /-- Finding out how often every variable is true. -/
  | estimate
  deriving DecidableEq, Repr, Inhabited

/-- The state of a chain. -/
structure Sampler (σ α : Type) where
  /-- The stream of random numbers. -/
  stream : σ
  /-- The current world. -/
  world : World
  /-- The number of steps. -/
  steps : Nat := 0
  /-- For every variable, the mean of its samples so far. -/
  means : Array α
  /-- For every variable, the step up to which its samples are in the mean. -/
  counted : Array Nat
  /-- The score of the current world, as it is kept up. -/
  logScore : α
  /-- The best score so far. -/
  bestScore : α
  /-- The world with the best score. -/
  best : World
  deriving Inhabited

/-- Why a chain stops before its end. -/
inductive Halt where
  /-- The score that is kept up is not the true one. -/
  | drifted
  /-- No variable is adjustable. -/
  | nothingAdjustable
  deriving DecidableEq, Repr, Inhabited

namespace Sampler

variable {σ α : Type}

/-- The number of steps after which all adjustable variables are drawn anew. -/
def restartSteps : Nat := 100000

/-- The number of steps after which a search checks the score it keeps up. -/
def checkSteps : Nat := 10000

/-- The difference between scores that counts as drift. -/
def driftTolerance [Scalar α] : α := decimal 1 1

/-! ### Means -/

/-- Adds the samples of a variable up to a step to its mean. -/
@[specialize] def flush [Scalar α] (s : Sampler σ α) (i upto : Nat) : Sampler σ α :=
  let since := s.counted.getD i 0
  if upto ≤ since then s
  else
    let mean := s.means.getD i zero
    let value : α := if s.world.value i then one else zero
    { s with
      means := s.means.setIfInBounds i (mean + (value - mean) * nat (upto - since) / nat upto)
      counted := s.counted.setIfInBounds i upto }

/-- Adds the samples of all variables up to a step to their means. -/
@[specialize] def flushAll [Scalar α] (s : Sampler σ α) (upto : Nat) : Sampler σ α :=
  (List.range s.world.size).foldl (fun s i => s.flush i upto) s

/-- For every variable, the share of the samples in which it is true; before the first step, its
current value. -/
def marginals [Scalar α] (s : Sampler σ α) : List α :=
  if s.steps = 0 then s.world.toList.map fun b => if b then one else zero else s.means.toList

/-! ### Moves -/

/-- Keeps the current world if a search has not seen a better one. -/
@[inline] def trackBest [Scalar α] (mode : Mode) (s : Sampler σ α) : Sampler σ α :=
  if mode == .search && s.bestScore < s.logScore then
    { s with bestScore := s.logScore, best := s.world }
  else s

/-- The scores of the two worlds that differ from the current one in a variable at most: where it is
true, and where it is false. -/
@[specialize] def conditional [Scalar α] (net : BayesNet α) (s : Sampler σ α) (i : Nat) : α × α :=
  let places := net.touching.getD i []
  let worldTrue := s.world.assign i true
  let worldFalse := s.world.assign i false
  let partTrue := net.scoreOf worldTrue places zero
  let partFalse := net.scoreOf worldFalse places zero
  let part := if s.world.value i then partTrue else partFalse
  -- what is infinite cannot be taken out of a score again
  if isInfinite s.logScore || isInfinite part then (net.score worldTrue, net.score worldFalse)
  else
    let rest := s.logScore - part
    (rest + partTrue, rest + partFalse)

/-- The probability of the first of two worlds, given their scores. -/
@[inline] def probTrue [Scalar α] (scoreTrue scoreFalse : α) : α :=
  clampUnit <|
    if scoreTrue == bottom && scoreFalse == bottom then half
    else exp (scoreTrue - LogProb.add scoreTrue scoreFalse)

/-- Gives a variable a value; the scores of the two worlds are known. -/
@[inline] def setVariable [Scalar α] (mode : Mode) (s : Sampler σ α) (i : Nat) (b : Bool)
    (scores : α × α) : Sampler σ α :=
  -- up to the step before this one the variable had its old value
  let s := if b != s.world.value i && mode == .estimate then s.flush i (s.steps - 1) else s
  trackBest mode
    { s with world := s.world.assign i b, logScore := if b then scores.1 else scores.2 }

/-- Draws the value of a variable with the probability it has when all others stay. -/
@[specialize] def step [Scalar α] [RandomStream σ α] (net : BayesNet α) (mode : Mode)
    (s : Sampler σ α) (i : Nat) : Sampler σ α :=
  let scores := s.conditional net i
  let p := probTrue scores.1 scores.2
  let (u, stream) := RandomStream.unit (α := α) s.stream
  setVariable mode { s with stream := stream } i (u < p) scores

/-- Gives a variable its more probable value; it stays as it is if both are equally probable. -/
@[specialize] def climb [Scalar α] (net : BayesNet α) (mode : Mode) (s : Sampler σ α) (i : Nat) :
    Sampler σ α :=
  let scores := s.conditional net i
  let p := probTrue scores.1 scores.2
  setVariable mode s i (if p == half then s.world.value i else half < p) scores

/-- Draws an adjustable variable from its prior. -/
@[inline] def redraw [RandomStream σ α] [Scalar α] (net : BayesNet α) (s : Sampler σ α) (i : Nat) :
    Sampler σ α :=
  let (u, stream) := RandomStream.unit (α := α) s.stream
  { s with stream := stream, world := s.world.assign i (u < net.priorProbs.getD i zero) }

/-- Draws all adjustable variables from their priors. -/
@[specialize] def restart [Scalar α] [RandomStream σ α] (net : BayesNet α) (mode : Mode)
    (s : Sampler σ α) : Sampler σ α :=
  let s := if mode == .estimate then s.flushAll s.steps else s
  let s := net.adjustable.foldl (redraw net) s
  trackBest mode { s with logScore := net.score s.world }

/-- The chain of a network before its first step. -/
@[specialize] def start [Scalar α] [RandomStream σ α] (net : BayesNet α) (mode : Mode)
    (stream : σ) : Sampler σ α :=
  let n := net.literals.size
  let w := net.fixedWorld
  restart net mode {
    stream := stream
    world := w
    means := Array.replicate n zero
    counted := Array.replicate n 0
    logScore := bottom
    bestScore := bottom
    best := w }

/-- The chain of a network before its first step, refused if a fixed variable is none of the
network's. -/
@[specialize] def start? [Scalar α] [RandomStream σ α] (net : BayesNet α) (mode : Mode)
    (stream : σ) : Except EvalFault (Sampler σ α) :=
  match net.fixedWorld? with
  | .ok _ => .ok (start net mode stream)
  | .error e => .error e

/-- Gives every adjustable variable in turn its more probable value. -/
@[specialize] def climbAll [Scalar α] (net : BayesNet α) (mode : Mode) (s : Sampler σ α) :
    Sampler σ α :=
  net.adjustable.foldl (climb net mode) s

/-- Whether a score that is kept up is as good as the true one. -/
@[inline] def agrees [Scalar α] (kept exact : α) : Bool :=
  isInfinite exact || isInfinite kept || magnitude (exact - kept) < driftTolerance

/-- Climbs if the network asks for it, and puts the true score in the place of the one that was kept
up; if the two differ, the chain stops. -/
@[specialize] def checkDrift [Scalar α] (net : BayesNet α) (mode : Mode) (s : Sampler σ α) :
    Except (Halt × Sampler σ α) (Sampler σ α) :=
  let s := if net.hillClimb then s.climbAll net mode else s
  let exact := net.score s.world
  if agrees s.logScore exact then .ok { s with logScore := exact } else .error (.drifted, s)

/-! ### Runs -/

/-- What comes before a step: every so often a restart, and a check if the chain searches. -/
@[inline] def prepare [Scalar α] [RandomStream σ α] (net : BayesNet α) (mode : Mode)
    (s : Sampler σ α) : Except (Halt × Sampler σ α) (Sampler σ α) :=
  if s.steps = 0 then .ok s
  else
    let s := if s.steps % restartSteps = 0 then s.restart net mode else s
    if mode == .search && s.steps % checkSteps = 0 then s.checkDrift net mode else .ok s

/-- Some steps, each with a variable chosen at random. -/
@[specialize] def runSteps [Scalar α] [RandomStream σ α] (net : BayesNet α) (mode : Mode) :
    Nat → Sampler σ α → Except (Halt × Sampler σ α) (Sampler σ α)
  | 0, s => .ok s
  | n + 1, s =>
    match s.prepare net mode with
    | .error e => .error e
    | .ok s =>
      let s := { s with steps := s.steps + 1 }
      if net.adjustable.isEmpty then .error (.nothingAdjustable, s)
      else
        let (k, stream) := RandomChoice.below net.adjustable.size s.stream
        runSteps net mode n (step net mode { s with stream := stream } (net.adjustable.getD k 0))

/-- A run of some steps. -/
@[specialize] def run [Scalar α] [RandomStream σ α] (net : BayesNet α) (mode : Mode)
    (s : Sampler σ α) (n : Nat) : Except (Halt × Sampler σ α) (Sampler σ α) :=
  match s.runSteps net mode n with
  | .error e => .error e
  | .ok s => .ok (if mode == .estimate then s.flushAll s.steps else s)

end Sampler

end FactNet
