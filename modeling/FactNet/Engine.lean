import FactNet.Command.Host
import FactNet.Log.Context
import FactNet.Matching.Engine
import FactNet.Query.Engine
import FactNet.Settings.Basic
import FactNet.Text.Lines

/-!
# Engines

There are two engines: one matches rules against the graph, the other grounds them into a
network and samples it.  Settings say which of them is used, with which rules.

## Main definitions

* `Engine` — an engine with its rules.
* `EngineFault` — why there is no engine.
* `createEngine` — the engine that settings ask for.
* `Engine.apply` — the graph with the facts that an engine adds.
-/

namespace FactNet

open FactNet.Text

/-- An engine with its rules. -/
inductive Engine where
  /-- Matching rules against the graph. -/
  | matcher (m : Matcher Float)
  /-- Sampling a network. -/
  | query (q : QueryEngine Float)

/-- Why there is no engine. -/
inductive EngineFault where
  /-- There is no engine of this name. -/
  | unknownKind (name : String)
  /-- A rule file cannot be read. -/
  | file (fault : FileFault)
  /-- A rule file has a line that is refused. -/
  | line (fault : LineFault)
  /-- The options cannot be used. -/
  | query (fault : QueryFault)
  deriving DecidableEq, Repr, Inhabited

/-- Why a chain stopped, in words. -/
def Halt.message : Halt → String
  | .drifted => "log-score drifted"
  | .nothingAdjustable => "empty range for randrange()"

/-- Why there is no value, in words. -/
def EvalFault.message : EvalFault → String
  | .unassigned => "list index out of range"
  | .overflow => "math range error"

/-- Why there is no inference, in words. -/
def QueryFault.message : QueryFault → String
  | .exclusiveHacks => exclusiveHacksMessage
  | .unknownMode name => unknownModeMessage name
  | .unknownMerge name => unknownMergeMessage name
  | .noWorkers => "max_workers must be greater than 0"
  | .registry fault => fault.message
  | .build fault => fault.message
  | .search (.halted cause) => cause.message
  | .search (.eval fault) => fault.message

/-- What is said of an engine that there is not. -/
def unknownKindMessage (name : String) : String :=
  quote name ++ " is not a valid EngineKind"

/-- Why there is no engine, in words. -/
def EngineFault.message : EngineFault → String
  | .unknownKind name => unknownKindMessage name
  | .file fault => fault.message
  | .line fault => fault.message
  | .query fault => fault.message

/-! ### Creating engines -/

/-- The options of the sampling engine that settings ask for. -/
def Settings.queryOptions (s : Settings) : QueryOptions Float where
  cutoff := s.cutoff
  maxDepth := s.depth
  rulesMode := s.rulesMode.name
  doMap := s.doMap
  mergeMethod := s.mergeMethod.name
  samples := s.samples
  threads := s.threads
  prior := s.prior
  hillClimb := s.hillClimb
  threshold := s.threshold
  acyclic := s.acyclic
  descending := s.acyclicOrder == .descending
  hacks := s.hacks

/-- The registry that settings ask for. -/
def Settings.registry (s : Settings) : Except RegistryFault (Registry Float) :=
  Registry.create s.mergeMethod s.prior s.hillClimb s.threads

section Files

variable {m : Type → Type} [Host m]

/-- The lines of several files, up to the first that cannot be read. -/
def readLinesOf : List String → m (Except FileFault (List String))
  | [] => return .ok []
  | path :: rest => do
    match ← Host.readText path with
    | .error fault => return .error fault
    | .ok content =>
      match ← readLinesOf rest with
      | .error fault => return .error fault
      | .ok lines => return .ok (fileLines content ++ lines)

/-- The program of a file. -/
def readProgramOf (path : String) : m (Except EngineFault (Program Float)) := do
  match ← Host.readText path with
  | .error fault => return .error (.file fault)
  | .ok content => return (Program.readProgram (fileLines content)).mapError .line

/-- The program of several files after some that have been read. -/
def readProgramsOf (read : Program Float) :
    List String → m (Except EngineFault (Program Float))
  | [] => return .ok read
  | path :: rest => do
    match ← readProgramOf path with
    | .error fault => return .error fault
    | .ok program => readProgramsOf (read.union program) rest

/-- The engine that settings ask for; it may be given by its name instead. -/
def createEngine (s : Settings) (kind : Option String) : m (Except EngineFault Engine) := do
  let name := kind.getD s.engine.name
  match EngineKind.ofName? name with
  | none => return .error (.unknownKind name)
  | some .matching =>
    match ← readLinesOf s.ruleFiles with
    | .error fault => return .error (.file fault)
    | .ok lines =>
      match Matcher.ofLines ⟨s.cutoff, s.depth⟩ lines with
      | .error fault => return .error (.line fault)
      | .ok ready => return .ok (.matcher ready)
  | some .sampling =>
    match ← readProgramsOf .empty s.ruleFiles with
    | .error fault => return .error fault
    | .ok program =>
      match QueryEngine.create s.queryOptions program with
      | .error fault => return .error (.query fault)
      | .ok ready => return .ok (.query ready)

end Files

/-! ### Running engines -/

/-- The graph with the facts that an engine adds about a pivot, and what there is to tell. -/
def Engine.apply (e : Engine) (g : FactGraph Float) (pivot : Entity) :
    Except QueryFault (FactGraph Float × List Event) :=
  match e with
  | .matcher m => .ok (m.apply g pivot)
  | .query q => q.apply g pivot none

/-- The context of log records when an engine has begun to work. -/
def Engine.context (e : Engine) (c : Context) : Context :=
  match e with
  | .matcher _ => c.setEngine EngineKind.matching.name (some "apply")
  | .query _ => c.setEngine EngineKind.sampling.name (some "rules")

end FactNet
