import FactNet.Factor.Merge
import FactNet.Log.Setup
import FactNet.Query.Selection

/-!
# Settings

Everything that can be set about an inference and its log, with the values that hold when
nothing is set.

## Main definitions

* `EngineKind` — the engine that is used.
* `Settings` — all settings.
* `Settings.ruleFiles` — the rule files that are named.
* `Settings.inconsistencies` — what does not go together.
-/

namespace FactNet

open FactNet.Text

/-- An engine. -/
inductive EngineKind where
  /-- Matching rules against the graph. -/
  | matching
  /-- Sampling a network. -/
  | sampling
  deriving DecidableEq, Repr, Inhabited

namespace EngineKind

/-- The name of an engine. -/
def name : EngineKind → String
  | .matching => "rule_match"
  | .sampling => "probabilistic"

/-- The engine with a name. -/
def ofName? (s : String) : Option EngineKind :=
  [matching, sampling].find? fun k => k.name == s

end EngineKind

/-- The least level of the records that are logged. -/
inductive LogLevel where
  | debug
  | info
  | warning
  | error
  deriving DecidableEq, Repr, Inhabited

namespace LogLevel

/-- The name of a level. -/
def name : LogLevel → String
  | .debug => "DEBUG"
  | .info => "INFO"
  | .warning => "WARNING"
  | .error => "ERROR"

/-- The level with a name. -/
def ofName? (s : String) : Option LogLevel :=
  [debug, info, warning, error].find? fun l => l.name == s

end LogLevel

namespace LogFormat

/-- The name of a format. -/
def name : LogFormat → String
  | .json => "json"
  | .text => "text"

/-- The format with a name. -/
def ofName? (s : String) : Option LogFormat :=
  [json, text].find? fun f => f.name == s

end LogFormat

/-- The order in which rules are considered when cycles are avoided. -/
inductive WeightOrder where
  /-- Heavier rules first. -/
  | descending
  /-- Lighter rules first. -/
  | ascending
  deriving DecidableEq, Repr, Inhabited

namespace WeightOrder

/-- The name of an order. -/
def name : WeightOrder → String
  | .descending => "descending"
  | .ascending => "ascending"

/-- The order with a name. -/
def ofName? (s : String) : Option WeightOrder :=
  [descending, ascending].find? fun o => o.name == s

end WeightOrder

/-- Everything that can be set. -/
structure Settings where
  /-- The engine. -/
  engine : EngineKind := .matching
  /-- The rule files, with commas between them. -/
  rulesFiles : String := ""
  /-- The least weight or score of a rule. -/
  cutoff : Float := 0.0
  /-- The most antecedents of a rule. -/
  depth : Int := 3
  /-- How far the selection of rules goes. -/
  rulesMode : RulesMode := .oneRound
  /-- Whether the best world is looked for, and not marginal probabilities. -/
  doMap : Bool := false
  /-- How grounded rules are merged. -/
  mergeMethod : MergeMethod := .geometricMean
  /-- The number of steps of a chain. -/
  samples : Int := 200000
  /-- The number of chains. -/
  threads : Int := 4
  /-- The prior of a literal that has no other. -/
  prior : Float := 0.3
  /-- Whether a search climbs from time to time. -/
  hillClimb : Bool := false
  /-- The probability that a literal has to exceed. -/
  threshold : Float := 0.5
  /-- Whether rules that would close a cycle are left out. -/
  acyclic : Bool := false
  /-- The order in which rules are considered in doing so. -/
  acyclicOrder : WeightOrder := .descending
  /-- Changes to scores, and rules that are left out. -/
  hacks : Hacks := {}
  /-- The least level of log records. -/
  logLevel : LogLevel := .info
  /-- How log records are written. -/
  logFormat : LogFormat := .json
  /-- The log file; an empty name means none. -/
  logFile : String := ""
  /-- The size at which a log file is put aside. -/
  logRotation : String := "10MB"
  /-- How many log files that were put aside are kept. -/
  logRetention : Int := 5
  deriving Repr, Inhabited

namespace Settings

/-- The rule files that are named. -/
def ruleFiles (s : Settings) : List String :=
  ((pieces ',' s.rulesFiles).map trimText).filter fun f => !f.isEmpty

/-- What does not go together. -/
def inconsistencies (s : Settings) : List String :=
  (if s.hacks.alwaysTrue && s.hacks.softPriors then
    ["INFERENCE_HACKS_ALWAYS_TRUE and INFERENCE_HACKS_SOFT_PRIORS are mutually exclusive"]
    else [])
  ++ (if s.hillClimb && !s.doMap then ["INFERENCE_DO_HILLCLIMB requires INFERENCE_DO_MAP"] else [])

/-- How logging is set up; the level may be set otherwise. -/
def logOptions (s : Settings) (level : Option String) : LogOptions where
  level := level.getD s.logLevel.name
  format := s.logFormat.name
  file := if s.logFile.isEmpty then none else some s.logFile
  rotation := s.logRotation
  retention := s.logRetention

end Settings

end FactNet
