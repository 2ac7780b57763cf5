import FactNet.Grounding.Instances
import FactNet.Net.Basic
import FactNet.Log.Event
import FactNet.Random.MersenneTwister

/-!
# Building networks

Everything registered is grounded in this order: the evidence, the ground clauses of one
literal, the instances of the other rules, and last the clauses of one literal with
variables, which apply to every variable of the network met so far that they fit.

The grounded rules of one consequent then become factors.  A consequent that all of them make
very improbable is fixed false, and one that all make very probable is fixed true.  For any
other the rules with antecedents are dealt out in random order to tables of a limited number
of antecedents, each with the prior of the consequent.

## Main definitions

* `GroundState` — the variables and grounded rules so far.
* `Registry.groundAll` — the grounding of everything.
* `batches` — rules dealt out to tables.
* `Registry.build` — the network.
-/

namespace FactNet

open Scalar

/-! ### Grounding -/

/-- The variables and grounded rules so far. -/
structure GroundState (α : Type) where
  /-- The literals that the variables stand for, none of them negated. -/
  literals : Array Literal := #[]
  /-- The grounded rules. -/
  groundings : Array (GroundedRule α) := #[]
  deriving Inhabited

namespace GroundState

variable {α : Type}

/-- The number of a literal, which becomes a variable if it is none yet. -/
def number (s : GroundState α) (l : Literal) : Nat × GroundState α :=
  match s.literals.idxOf? l.asTrue with
  | some i => (i, s)
  | none => (s.literals.size, { s with literals := s.literals.push l.asTrue })

/-- The numbers of several literals. -/
def numberAll (s : GroundState α) : List Literal → List Nat × GroundState α
  | [] => ([], s)
  | l :: ls =>
    let (i, s) := s.number l
    let (is, s) := numberAll s ls
    (i :: is, s)

/-- Adds the grounded rule of a clause with one positive literal.  Its name is the clause with the
difference of the two log-probabilities as its weight. -/
def register [Scalar α] [Numeral α] (ifTrue ifFalse : α) (s : GroundState α)
    (literals : List Literal) : GroundState α :=
  let name := (Rule.mk (ifTrue - ifFalse) literals).text
  let (ids, s) := s.numberAll literals
  let numbered := literals.zip ids
  match (numbered.filter fun e => e.1.truth).getLast? with
  | none => s
  | some (_, head) =>
    let body := (numbered.filter fun e => !e.1.truth).map (·.2)
    let g := GroundedRule.mk name (LogProb.clip ifTrue) (LogProb.clip ifFalse) head body
    { s with groundings := s.groundings.push g }

/-- Adds grounded rules of clauses with the same weight. -/
def registerAll [Scalar α] [Numeral α] (weight : α) (s : GroundState α)
    (clauses : List (List Literal)) : GroundState α :=
  clauses.foldl (register (LogProb.logSigmoid weight) (LogProb.logSigmoid (-weight))) s

/-- The grounded rules of every consequent, in the order of the first of each. -/
def byConsequent (s : GroundState α) : List (Nat × List (GroundedRule α)) :=
  let gs := s.groundings.toList
  (gs.map (·.consequent)).eraseDups.map fun i => (i, gs.filter fun g => g.consequent == i)

end GroundState

/-- A clause of one literal without negation: its negation turns the sign of the weight. -/
def positiveUnit? {α : Type} [Scalar α] (rule : Rule α) : Option (Literal × α) :=
  match rule.literals with
  | [l] => some (if l.truth then (l, rule.weight) else (l.asTrue, -rule.weight))
  | _ => none

/-- Whether a literal has no variables. -/
def Literal.isGround (l : Literal) : Bool := isConstant l.arg1 && isConstant l.arg2

/-- Whether a variable of the network is an instance of a literal. -/
def Literal.covers (l v : Literal) : Bool :=
  v.name == l.name && (Binding.unifyBoth [] l.arg1 v.arg1 l.arg2 v.arg2).isSome

namespace Registry

variable {α : Type} [Scalar α] [Numeral α]

/-- The clauses of one literal, priors first. -/
def units (r : Registry α) : List (Literal × α) :=
  (r.priors ++ r.rules).filterMap positiveUnit?

/-- The rules of two literals or more. -/
def longRules (r : Registry α) : List (Rule α) :=
  r.rules.filter fun rule => 1 < rule.literals.length

/-- Adds the instances of a rule. -/
def groundRule (r : Registry α) (s : GroundState α × List GroundNote) (rule : Rule α) :
    GroundState α × List GroundNote :=
  let (clauses, notes) := instances r rule
  (s.1.registerAll rule.weight clauses, s.2 ++ notes)

/-- Applies a clause of one literal with variables to the variables of the network. -/
def groundDeferred (s : GroundState α) (unit : Literal × α) : GroundState α :=
  s.registerAll unit.2 ((s.literals.toList.filter unit.1.covers).map fun v => [v])

/-- The grounding of everything. -/
def groundAll (r : Registry α) : GroundState α × List GroundNote :=
  -- the order of these four steps is the order of the variables
  let s : GroundState α := (GroundState.numberAll {} r.evidence).2
  let s := (r.units.filter fun u => u.1.isGround).foldl (fun s u => s.registerAll u.2 [[u.1]]) s
  let (s, notes) := r.longRules.foldl (groundRule r) (s, [])
  ((r.units.filter fun u => !u.1.isGround).foldl groundDeferred s, distinctNotes notes)

/-- The fixed values that come from evidence; of two for one literal the last one counts. -/
def fixedEvidence (r : Registry α) (s : GroundState α) : List (Nat × Bool) :=
  Pairs.collapse <|
    r.evidence.filterMap fun l => (s.literals.idxOf? l.asTrue).map fun i => (i, l.truth)

end Registry

/-! ### Factors -/

/-- Below this log-probability of truth a variable is fixed false. -/
def fixFalseBelow {α : Type} [Scalar α] : α := log (decimal 3 1)

/-- Above this log-probability of truth a variable is fixed true. -/
def fixTrueAbove {α : Type} [Scalar α] : α := log (decimal 9 1)

/-- The most antecedents of a table of several rules. -/
def mostAntecedents : Nat := 12

/-- The seed of the order in which rules are dealt out to tables. -/
def dealingSeed : Int := 42

/-- The value that grounded rules fix their consequent to, if they do. -/
def fixedBy? {α : Type} [Scalar α] (rules : List (GroundedRule α)) : Option Bool :=
  if rules.all fun g => g.ifTrue < fixFalseBelow then some false
  else if rules.all fun g => fixTrueAbove < g.ifTrue then some true
  else none

/-- Deals rules out: a rule joins the one before it unless the two would have too many antecedents
together with those already there.  The batch begun is given with its antecedents. -/
def dealFrom {α : Type} (batch : List (GroundedRule α)) (antecedents : List Nat) :
    List (GroundedRule α) → List (List (GroundedRule α))
  | [] => if batch.isEmpty then [] else [batch]
  | g :: gs =>
    let together := (antecedents ++ g.antecedents).eraseDups
    if !batch.isEmpty && mostAntecedents < together.length then
      batch :: dealFrom [g] g.antecedents.eraseDups gs
    else dealFrom (batch ++ [g]) together gs

/-- Rules dealt out to tables, in random order. -/
def batches {α : Type} (rules : List (GroundedRule α)) : List (List (GroundedRule α)) :=
  dealFrom [] [] (RandomChoice.shuffle rules (MersenneTwister.ofSeed dealingSeed))

/-- Why no network can be built. -/
inductive BuildFault where
  /-- A table would have too many antecedents. -/
  | tooWide (consequent : String) (antecedents : Nat)
  /-- Grounded rules make no table. -/
  | table (fault : TableFault)
  /-- The parts make no network. -/
  | net (fault : NetFault)
  deriving DecidableEq, Repr, Inhabited

/-- A fault in words. -/
def BuildFault.message : BuildFault → String
  | .tooWide consequent n =>
    "Grounding of " ++ consequent ++ " has " ++ toString n ++ " antecedents; tables are limited to "
      ++ toString (tableCeiling - 1)
  | .table fault => fault.message
  | .net fault => fault.message

/-- What becomes of the grounded rules of one consequent. -/
inductive Settled (α : Type) where
  /-- The consequent has this value. -/
  | fixed (value : Bool)
  /-- The consequent has this prior and these factors. -/
  | factors (prior : GroundedRule α) (factors : List (Factor α))
  deriving Inhabited

namespace Registry

variable {α : Type} [Scalar α]

/-- The table of some rules of a consequent, with all its entries. -/
def tableOf (r : Registry α) (consequent : String) (rules : List (GroundedRule α)) :
    Except BuildFault (Factor α) :=
  let n := (RuleTable.antecedentsOf rules).length
  if tableCeiling ≤ n then .error (.tooWide consequent n)
  else
    match EagerTable.ofRules rules r.method r.defaultPrior with
    | .ok t => .ok (.eager t)
    | .error fault => .error (.table fault)

/-- The prior and the tables of the grounded rules of one consequent. -/
def makeFactors (r : Registry α) (consequent : String) (rules : List (GroundedRule α)) :
    Except BuildFault (Settled α) :=
  match cleanPriors rules.eraseDups r.defaultPrior with
  | none => .error (.table .noRules)
  | some (prior, others) =>
    -- a prior without other rules still makes a table
    let groups := if others.isEmpty then [[]] else batches others
    (groups.mapM fun batch => r.tableOf consequent (prior :: batch)).map fun fs =>
      .factors prior fs

/-- What becomes of the grounded rules of a consequent, which may be fixed by evidence. -/
def settle (r : Registry α) (known : Bool) (consequent : String)
    (rules : List (GroundedRule α)) : Except BuildFault (Settled α) :=
  match if known then none else fixedBy? rules with
  | some b => .ok (.fixed b)
  | none => r.makeFactors consequent rules

/-- The network of everything registered, and what there is to tell about its grounding. -/
def build [Numeral α] (r : Registry α) : Except BuildFault (BayesNet α × List Event) := do
  let (s, notes) := r.groundAll
  let evidence := r.fixedEvidence s
  let settled ← s.byConsequent.mapM fun (i, rules) => do
    let text := ((s.literals[i]?).map Literal.text).getD ""
    let outcome ← r.settle (evidence.any fun e => e.1 == i) text rules
    return (i, outcome)
  let fixed := settled.filterMap fun
    | (i, .fixed b) => some (i, b)
    | _ => none
  let priors := settled.filterMap fun
    | (i, .factors prior _) => some (i, prior.ifTrue)
    | _ => none
  let factors := settled.flatMap fun
    | (_, .factors _ fs) => fs
    | _ => []
  match BayesNet.ofParts s.literals.toList factors priors (evidence ++ fixed) r.hillClimb
    r.threads with
  | .error fault => .error (.net fault)
  | .ok net => .ok (net, notes.map fun note => ⟨.warning, note.message⟩)

end Registry

end FactNet
