import FactNet.Command.Arguments
import FactNet.Engine
import FactNet.Fact.File
import FactNet.Program.Acyclic
import FactNet.Settings.Load

/-!
# Running commands

A command ends with an exit code.  What goes wrong on the way is logged as an error and ends the
command with the code one.

While `infer` works, the context of log records names the run and its pivot; when it is done, with
or without success, the context is cleared.  An engine that cannot be created leaves the context as
it is.

## Main definitions

* `CommandFault` — why a command fails.
* `runValidate`, `runAcyclic`, `runInfer` — the commands.
* `run` — the command that arguments ask for.
-/

namespace FactNet.Command

open FactNet.Text

/-! ### Faults -/

/-- Why a command fails. -/
inductive CommandFault where
  /-- The file to be read is not there. -/
  | noFile (path : String)
  /-- Rule files are not there. -/
  | noRuleFiles (paths : List String)
  /-- No rule file is named. -/
  | noRules
  /-- The fact file is refused. -/
  | facts (path : String) (faults : List Json.Fault)
  /-- No fact is about the pivot. -/
  | noPivot (name : String)
  /-- The rule file that is checked is refused. -/
  | rules (path : String) (fault : LineFault)
  /-- A file cannot be read or written. -/
  | file (fault : FileFault)
  /-- The settings are refused. -/
  | settings (fault : SettingsFault)
  /-- Logging cannot be set up. -/
  | logging (fault : SizeFault)
  /-- There is no engine. -/
  | engine (fault : EngineFault)
  /-- The engine fails. -/
  | query (fault : QueryFault)
  deriving DecidableEq, Repr, Inhabited

/-- A fault that a command does not expect, in words. -/
def fatal (message : String) : String := "Fatal error: " ++ message

/-- A fault in words. -/
def CommandFault.message : CommandFault → String
  | .noFile path => "File not found: " ++ Path.normal path
  | .noRuleFiles paths => "Rule file not found: " ++ ", ".intercalate (paths.map Path.normal)
  | .noRules => "No rule files given (use --rules or INFERENCE_RULES_FILES)"
  | .facts path faults =>
    "Invalid facts file " ++ Path.normal path ++ ": "
      ++ faultCount faults.length "list[RelationFact]"
  | .noPivot name => "Pivot entity not found in facts: " ++ name
  | .rules path fault => Path.normal path ++ ": " ++ fault.message
  | .file fault => fatal fault.message
  | .settings fault => fatal fault.message
  | .logging fault => fatal fault.message
  | .engine fault => fatal fault.message
  | .query fault => fatal fault.message

/-! ### Rule files -/

/-- What is said of a rule file that can be read. -/
def summary (path : String) (p : Program Float) : String :=
  let closed := p.predicates.countP fun q => q.closed
  let hard := p.rules.countP fun r => r.isHard
  "\n".intercalate [
    "",
    "Rule file " ++ Path.normal path ++ ":",
    "  Predicates:  " ++ toString p.predicates.length ++ " (" ++ toString closed ++ " closed)",
    "  Rules:       " ++ toString p.rules.length ++ " (" ++ toString hard ++ " hard)",
    "  Acyclic:     " ++ (if p.isAcyclic then "yes" else "no"),
    ""]

section Host

variable {m : Type → Type} [Host m]

/-- The program of the file that a command is about. -/
def readRules (path : String) : m (Except CommandFault (Except LineFault (Program Float))) := do
  if ← Host.isThere (Path.normal path) then
    match ← readProgramOf (Path.normal path) with
    | .ok program => return .ok (.ok program)
    | .error (.line fault) => return .ok (.error fault)
    | .error fault => return .error (.engine fault)
  else return .error (.noFile path)

/-- Reads a rule file and counts what is in it. -/
def runValidate (path : String) : m (Except CommandFault Unit) := do
  match ← readRules path with
  | .error fault => return .error fault
  | .ok (.error fault) => return .error (.rules path fault)
  | .ok (.ok program) =>
    Host.print (summary path program)
    return .ok ()

/-- Writes the rules of a file that close no cycle. -/
def runAcyclic (path : String) (output : Option String) (ascending : Bool) :
    m (Except CommandFault Unit) := do
  match ← readRules path with
  | .error fault => return .error fault
  | .ok (.error fault) => return .error (.engine (.line fault))
  | .ok (.ok program) =>
    let text := (program.makeAcyclic !ascending).text ++ "\n"
    match output with
    | .none =>
      Host.print text
      return .ok ()
    | .some output => return (← Host.writeText (Path.normal output) text).mapError .file

/-! ### Inference -/

/-- The paths at which nothing is. -/
def missingOf : List String → m (List String)
  | [] => return []
  | path :: rest => do
    let there ← Host.isThere (Path.normal path)
    let missing ← missingOf rest
    return if there then missing else path :: missing

/-- The settings that are given on the command line. -/
def givenSettings (a : InferArguments) : List (String × Json) :=
  (match a.rules with
    | .some (path :: rest) =>
      [("inference_rules_files", .text (",".intercalate ((path :: rest).map Path.normal)))]
    | _ => [])
  ++ (match a.engine with
    | .some name => if name.isEmpty then [] else [("inference_engine", .text name)]
    | .none => [])

/-- The settings that hold for a command: those given, and those of the environment and of the
environment file. -/
def loadSettings (given : List (String × Json)) : m (Except SettingsFault Settings) := do
  let environment ← Host.environment
  let file ← Host.readText ".env"
  return Settings.load ⟨given, environment, file.toOption⟩

/-- What an inference starts from. -/
structure Task where
  /-- The settings. -/
  settings : Settings
  /-- The graph. -/
  graph : FactGraph Float
  /-- The pivot. -/
  pivot : Entity

/-- The pivot with a name, and with a type if one is named that there is. -/
def findPivot? (g : FactGraph Float) (name : String) (type : Option String) : Option Entity :=
  let wanted := type.bind EntityType.ofName?
  g.vertices.find? fun v => v.name == name && wanted.all fun t => v.type == t

/-- The graph and the pivot of an inference. -/
def readTask (a : InferArguments) (settings : Settings) : m (Except CommandFault Task) := do
  match ← Host.readText (Path.normal a.facts) with
  | .error fault => return .error (.file fault)
  | .ok text =>
    match readFacts text with
    | .error faults => return .error (.facts a.facts faults)
    | .ok facts =>
      let graph := FactGraph.ofFacts facts
      match findPivot? graph a.pivot a.pivotType with
      | .none => return .error (.noPivot a.pivot)
      | .some pivot => return .ok ⟨settings, graph, pivot⟩

/-- Sets up logging as settings ask for it. -/
def setUpLogging (o : LogOptions) : m (Except CommandFault Unit) := do
  match o.setup with
  | .error fault => return .error (.logging fault)
  | .ok setup =>
    let opened ← match o.file with
      | .none => pure (.ok ())
      | .some path => Host.openLog (Path.normal path)
    match opened with
    | .error fault => return .error (.file fault)
    | .ok () =>
      Host.setUpLogging setup
      return .ok ()

/-- Sets up logging and gets an inference ready. -/
def prepare (a : InferArguments) (verbose : Bool) : m (Except CommandFault Task) := do
  if !(← Host.isThere (Path.normal a.facts)) then return .error (.noFile a.facts)
  else
    match ← missingOf (a.rules.getD []) with
    | path :: rest => return .error (.noRuleFiles (path :: rest))
    | [] =>
      match ← loadSettings (givenSettings a) with
      | .error fault => return .error (.settings fault)
      | .ok settings =>
        -- a log file that cannot be made ends the command before anything is read
        let options := settings.logOptions (if verbose then .some "DEBUG" else .none)
        match ← setUpLogging options with
        | .error fault => return .error fault
        | .ok () =>
          if settings.ruleFiles.isEmpty then return .error .noRules
          else readTask a settings

/-- The facts of a graph that another one does not have. -/
def newFacts (before after : FactGraph Float) : List (Fact Float) :=
  after.edges.filter fun f => !before.contains f.key

/-- What is printed about new facts. -/
def newFactsText (pivot : Entity) (facts : List (Fact Float)) : String :=
  "\n" ++ "Inferred " ++ toString facts.length ++ " facts for " ++ pivot.text ++ ":\n"
    ++ String.join (facts.map fun f => "  " ++ f.text ++ "\n")

/-- Shows the new facts of a graph, and writes all of them if that is asked for. -/
def showResult (a : InferArguments) (task : Task) (g : FactGraph Float) :
    m (Except CommandFault Unit) := do
  Host.print (newFactsText task.pivot (newFacts task.graph g))
  match a.output with
  | .none => return .ok ()
  | .some path => return (← Host.writeText (Path.normal path) (factsText g.edges)).mapError .file

/-- Infers facts about an entity. -/
def runInfer (a : InferArguments) (verbose : Bool) : m (Except CommandFault Unit) := do
  match ← prepare a verbose with
  | .error fault => return .error fault
  | .ok task =>
    let id ← Host.freshId
    Host.updateContext fun c => c.setRun id (.some task.pivot.text)
    match ← createEngine task.settings .none with
    | .error fault => return .error (.engine fault)
    | .ok engine =>
      Host.updateContext engine.context
      let answer := engine.apply task.graph task.pivot
      match answer with
      | .error fault =>
        Host.updateContext fun _ => {}
        return .error (.query fault)
      | .ok (graph, events) =>
        events.forM Host.log
        Host.updateContext fun _ => {}
        showResult a task graph

/-! ### Commands -/

/-- How the program is used. -/
def usage : String :=
  "\n".intercalate [
    "usage: kbpinfer [-h] [--version] [-v] COMMAND ...",
    "",
    "  validate RULES     parse a rule file and report its size",
    "  acyclic RULES [-o FILE] [--ascending]",
    "                     keep a subset of rules with no dependency cycle",
    "  infer FACTS --pivot NAME [--pivot-type TYPE] [--rules FILE ...]",
    "        [--engine rule_match|probabilistic] [-o FILE]",
    "                     infer new facts about a pivot entity",
    ""]

/-- The version of the program. -/
def version : String := "0.1.0"

/-- Runs a command. -/
def execute (command : Command) (verbose : Bool) : m (Except CommandFault Unit) :=
  match command with
  | .validate rules => runValidate rules
  | .acyclic rules output ascending => runAcyclic rules output ascending
  | .infer a => runInfer a verbose

/-- How the program ends. -/
inductive ExitKind where
  /-- The arguments alone decide. -/
  | parsing
  /-- A command has been run. -/
  | command
  deriving DecidableEq, Repr, Inhabited

/-- Runs the command that arguments ask for; the answer is the exit code and what decided it. -/
def run (args : List String) : m (ExitKind × Nat) := do
  match parseArguments args with
  | .error .help =>
    Host.print usage
    return (.parsing, 0)
  | .error .version =>
    Host.print ("kbpinfer " ++ version ++ "\n")
    return (.parsing, 0)
  | .error .misused =>
    Host.log ⟨.info, usage⟩
    return (.parsing, 2)
  | .ok request =>
    let level := if request.verbose then "DEBUG" else "INFO"
    Host.setUpLogging ⟨levelNumber level, .text, [.console]⟩
    match request.command with
    | .none =>
      Host.print usage
      return (.command, 1)
    | .some command =>
      match ← execute command request.verbose with
      | .ok () => return (.command, 0)
      | .error fault =>
        Host.log ⟨.error, fault.message⟩
        return (.command, 1)

end Host

end FactNet.Command
