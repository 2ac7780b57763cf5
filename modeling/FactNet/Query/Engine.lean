import FactNet.Grounding.Build
import FactNet.Net.Search
import FactNet.Program.Acyclic
import FactNet.Query.Evidence

/-!
# Inference by sampling

Around a pivot, the rules that bear on it are selected and grounded over the entities of the
graph, with the facts as evidence.  The network is then sampled, and every literal about the
pivot that is probable enough is added to the graph as a fact, unless it is there already.

## Main definitions

* `QueryOptions` — what inference depends on.
* `QueryEngine` — candidate rules with checked options.
* `QueryEngine.registry` — what the network of a pivot is built from.
* `QueryEngine.applyWith`, `QueryEngine.apply` — the graph with the facts that are added, by some
  way of sampling and by that of the options.
-/

namespace FactNet

open Scalar

/-- What inference depends on, with names that are not checked yet. -/
structure QueryOptions (α : Type) [Scalar α] where
  /-- The least weight of a rule, its sign not counting. -/
  cutoff : α := zero
  /-- The most literals in a body. -/
  maxDepth : Int := 3
  /-- How far the selection of rules goes. -/
  rulesMode : String := RulesMode.oneRound.name
  /-- Whether the best world is looked for, and not marginal probabilities. -/
  doMap : Bool := false
  /-- How grounded rules are merged. -/
  mergeMethod : String := MergeMethod.geometricMean.name
  /-- The number of steps of a chain. -/
  samples : Int := 200000
  /-- The number of chains. -/
  threads : Int := 4
  /-- The prior of a literal that has no other. -/
  prior : α := decimal 3 1
  /-- Whether a search climbs from time to time. -/
  hillClimb : Bool := false
  /-- The probability that a literal has to exceed. -/
  threshold : α := half
  /-- Whether rules that would close a cycle are left out. -/
  acyclic : Bool := false
  /-- Whether heavier rules are considered first in doing so. -/
  descending : Bool := true
  /-- Changes to scores, and rules that are left out. -/
  hacks : Hacks := {}

/-- Why there is no inference. -/
inductive QueryFault where
  /-- Two changes to scores exclude each other. -/
  | exclusiveHacks
  /-- There is no mode of this name. -/
  | unknownMode (name : String)
  /-- There is no merge method of this name. -/
  | unknownMerge (name : String)
  /-- There is no chain. -/
  | noWorkers
  /-- A registration is refused. -/
  | registry (fault : RegistryFault)
  /-- No network can be built. -/
  | build (fault : BuildFault)
  /-- The network has no answer. -/
  | search (fault : SearchFault)
  deriving DecidableEq, Repr, Inhabited

/-- What is said of changes to scores that exclude each other. -/
def exclusiveHacksMessage : String := "always_true and soft_priors are mutually exclusive"

/-- What is said of a mode that there is not. -/
def unknownModeMessage (name : String) : String :=
  Text.quote name ++ " is not a valid RulesMode"

/-- Candidate rules with checked options. -/
structure QueryEngine (α : Type) [Scalar α] where
  /-- The options. -/
  options : QueryOptions α
  /-- How far the selection of rules goes. -/
  mode : RulesMode
  /-- How grounded rules are merged. -/
  method : MergeMethod
  /-- The candidate rules, and all predicates. -/
  candidates : Program α
  /-- The relations of all predicates, as graphs spell them. -/
  relations : List String

namespace QueryEngine

variable {α : Type} [Scalar α]

/-- The engine for some rules. -/
def create (options : QueryOptions α) (rules : Program α) : Except QueryFault (QueryEngine α) :=
  if options.hacks.alwaysTrue && options.hacks.softPriors then .error .exclusiveHacks
  else
    match RulesMode.ofName? options.rulesMode, MergeMethod.ofName? options.mergeMethod with
    | none, _ => .error (.unknownMode options.rulesMode)
    | _, none => .error (.unknownMerge options.mergeMethod)
    | some mode, some method =>
      if options.threads < 1 then .error .noWorkers
      else
        let program := catalogueProgram.union rules
        let kept := program.rules.filter
          (isCandidate options.cutoff options.maxDepth options.hacks)
        .ok ⟨options, mode, method, program.withRules kept,
          (program.predicates.map fun p => untypedRelation p.name).eraseDups⟩

/-- Whether a relation can take part in an inference. -/
def isUseful (q : QueryEngine α) (relation : String) : Bool :=
  q.relations.contains relation

/-- The candidate rules that bear on a pivot. -/
def rulesFor (q : QueryEngine α) (g : FactGraph α) (pivot : Entity) : Program α :=
  selectRules q.mode q.candidates g pivot

/-- Rules without those that would close a cycle, if these are to be left out. -/
def reduce (q : QueryEngine α) (rules : Program α) : Program α :=
  if q.options.acyclic then rules.makeAcyclic q.options.descending else rules

/-- What the facts of a graph say about a program. -/
def evidenceFor (q : QueryEngine α) (g : FactGraph α) (rules : Program α) : Evidence α :=
  Evidence.ofGraph q.options.hacks g rules

/-- The entities of all constants, the pivot among them. -/
def entitiesWith (pivot : Entity) (entities : List (String × Entity)) : List (String × Entity) :=
  if entities.any fun e => e.1 == cleanEntity pivot then entities
  else entities ++ [(cleanEntity pivot, pivot)]

/-! ### Grounding -/

/-- Registers the clause of a fact: as evidence if its predicate is closed, else as a prior. -/
def addClause [Numeral α] (rules : Program α) (r : Registry α) (clause : Rule α) :
    Registered α :=
  match clause.literals.head? with
  | none => (r, none)
  | some l =>
    match rules.get? l.name with
    | none => (r, some (.unknownPredicate l.name))
    | some p => if p.closed then r.addEvidence l else r.addPrior clause

/-- Makes a registration unless one before it was refused. -/
def andThen (done : Registered α) (f : Registry α → Registered α) : Registered α :=
  match done with
  | (r, none) => f r
  | (r, some fault) => (r, some fault)

/-- What the network of some rules and facts is built from. -/
def registry [Numeral α] (q : QueryEngine α) (rules : Program α) (clauses : List (Rule α))
    (entities : List (String × Entity)) (pairings : Option (List (String × List String))) :
    Except RegistryFault (Registry α) :=
  match Registry.create q.method q.options.prior q.options.hillClimb q.options.threads with
  | .error fault => .error fault
  | .ok r =>
    -- a registration that is refused ends those after it
    let done := r.addPredicates rules.predicates
    let done := andThen done fun r =>
      (r.addConstants (entities.map fun e => (e.1, e.2.type.name)), none)
    let done := andThen done fun r => Registry.each (addClause rules) r clauses
    let done := andThen done fun r => Registry.each Registry.addRule r rules.rules
    match done with
    | (_, some fault) => .error fault
    | (r, none) =>
      .ok (match pairings with
        | none => r
        | some pairings => r.setPairings (some (translatePairings pairings entities)))

/-! ### Reading the network -/

/-- What sampling says about a network. -/
structure Answer (α : Type) where
  /-- The literals with their probabilities. -/
  probabilities : List (Literal × α)
  /-- The literals of the best world, if that was looked for. -/
  trueLiterals : List Literal
  /-- What there is to tell. -/
  events : List Event

/-- Samples a network. -/
@[specialize] def ask (q : QueryEngine α) (net : BayesNet α) : Except SearchFault (Answer α) :=
  let steps := q.options.samples.toNat
  if q.options.doMap then
    (net.gibbsMap steps).map fun (r, events) =>
      ⟨r.trueLiterals.map fun l => (l, one), r.trueLiterals, events⟩
  else (net.gibbsMarginals steps).map fun (marginals, events) => ⟨marginals, [], events⟩

/-- The fact that a probable literal stands for, if it is about the pivot, its predicate is open and
its other constant has an entity. -/
def factOf? (q : QueryEngine α) (rules : Program α) (entities : List (String × Entity))
    (pivot : Entity) (l : Literal) (p : α) : Option (Fact α) :=
  if l.arg1 == cleanEntity pivot && q.options.threshold < p then
    match rules.get? l.name, entities.find? fun e => e.1 == l.arg2 with
    | some pred, some (_, tail) =>
      if pred.closed then none else some ⟨pivot, untypedRelation l.name, tail, some p, none⟩
    | _, _ => none
  else none

/-- What is told of a fact that is added; the reasons are those of the best world. -/
def addedEvents [Numeral α] (q : QueryEngine α) (net : BayesNet α) (answer : Answer α)
    (f : Fact α) (l : Literal) (p : α) : List Event :=
  let reasons := if q.options.doMap then net.explain l answer.trueLiterals else []
  ⟨.info, "Inferred " ++ f.head.name ++ " | " ++ f.relation ++ " [" ++ Numeral.fixed 3 p ++ "] | "
    ++ f.tail.name⟩ :: reasons.map fun reason => ⟨.debug, "  because " ++ reason⟩

/-- Adds the fact of a literal to a graph unless it is there, and tells of it. -/
def addLiteral [Numeral α] (q : QueryEngine α) (rules : Program α)
    (entities : List (String × Entity)) (pivot : Entity) (net : BayesNet α) (answer : Answer α)
    (state : FactGraph α × List Event) (entry : Literal × α) : FactGraph α × List Event :=
  match q.factOf? rules entities pivot entry.1 entry.2 with
  | none => state
  | some f =>
    if state.1.contains f.key then state
    else ((state.1.add f).1, state.2 ++ q.addedEvents net answer f entry.1 entry.2)

/-- The graph with the facts about a pivot that some way of sampling adds, and what there is to
tell.  The entities that may share an atom can be limited by their names. -/
@[specialize] def applyWith [Numeral α] (q : QueryEngine α)
    (ask : BayesNet α → Except SearchFault (Answer α)) (g : FactGraph α) (pivot : Entity)
    (pairings : Option (List (String × List String))) :
    Except QueryFault (FactGraph α × List Event) :=
  let selected := q.rulesFor g pivot
  if selected.rules.isEmpty then .ok (g, [])
  else
    let rules := q.reduce selected
    let evidence := q.evidenceFor g rules
    let entities := entitiesWith pivot evidence.entities
    match q.registry rules evidence.program.rules entities pairings with
    | .error fault => .error (.registry fault)
    | .ok r =>
      match r.build with
      | .error fault => .error (.build fault)
      | .ok (net, events) =>
        match ask net with
        | .error fault => .error (.search fault)
        | .ok answer =>
          let sorted := answer.probabilities.mergeSort fun a b => a.1.text ≤ b.1.text
          .ok (sorted.foldl (q.addLiteral rules entities pivot net answer)
            (g, events ++ answer.events))

/-- The graph with the facts about a pivot that sampling adds, and what there is to tell. -/
@[specialize] def apply [Numeral α] (q : QueryEngine α) (g : FactGraph α) (pivot : Entity)
    (pairings : Option (List (String × List String))) :
    Except QueryFault (FactGraph α × List Event) :=
  q.applyWith q.ask g pivot pairings

end QueryEngine

end FactNet
