import FactNet.Json.Decode
import FactNet.Settings.Basic
import FactNet.Settings.Dotenv

/-!
# Loading settings

A setting is looked for among the values that are given, then in the environment, then in the
environment file; the names of settings are recognised in letters of any case.  Values are
checked one by one, and only if all are right, whether they go together.

## Main definitions

* `SettingSources` — where values come from.
* `SettingsFault` — why there are no settings.
* `Settings.load` — the settings.
* `Settings.members` — settings by their names.
-/

namespace FactNet

open FactNet.Json FactNet.Text

/-- Where the values of settings come from. -/
structure SettingSources where
  /-- Values that are given. -/
  overrides : List (String × Json) := []
  /-- The environment. -/
  environment : List (String × String) := []
  /-- The text of the environment file, if there is one. -/
  dotenv : Option String := none
  deriving Repr, Inhabited

/-- Why there are no settings. -/
inductive SettingsFault where
  /-- Some values are wrong. -/
  | invalid (faults : List Fault)
  /-- The values do not go together. -/
  | inconsistent (message : String)
  deriving DecidableEq, Repr, Inhabited

/-- How many faults there are, in words. -/
def faultCount (n : Nat) (subject : String) : String :=
  toString n ++ (if n = 1 then " validation error for " else " validation errors for ") ++ subject

/-- A fault in words; of wrong values their number. -/
def SettingsFault.message : SettingsFault → String
  | .invalid faults => faultCount faults.length "Settings"
  | .inconsistent message => message

/-- The last value that is given to a name in letters of any case. -/
def lastNamed? {β : Type} (pairs : List (String × β)) (name : String) : Option β :=
  Pairs.last? (pairs.map fun e => (smalls e.1, e.2)) name

namespace SettingSources

/-- The value of a setting, if it has one anywhere. -/
def find? (s : SettingSources) (name : String) : Option Json :=
  let bound := Dotenv.read s.environment (s.dotenv.getD "")
  let given := lastNamed? s.overrides name
  let set := (lastNamed? s.environment name).map Json.text
  let inFile := (lastNamed? bound name).join.map Json.text
  given <|> set <|> inFile

/-- A setting, or its default. -/
def setting {β : Type} (s : SettingSources) (name : String) (default : β)
    (f : Json → Except Mismatch β) : Outcome β :=
  match s.find? name with
  | none => .ok default
  | some v => Outcome.within (.field name) (.ofExcept (f v))

end SettingSources

/-- A value that has a name. -/
def chosen {β : Type} (ofName? : String → Option β) (v : Json) : Except Mismatch β :=
  match v with
  | .text s =>
    match ofName? s with
    | some b => .ok b
    | none => .error .notAllowed
  | _ => .error .notAllowed

/-- A number; unlike in a file, a whole number may have more than sixty-four bits. -/
def anyNumber (v : Json) : Except Mismatch Float :=
  match v with
  | .int n =>
    let x := floatOfInt n
    if x.isInf then .error .notNumber else .ok x
  | v => asNumber v

/-- A number that passes a test. -/
def numberWhere (test : Float → Bool) (message : String) (v : Json) : Except Mismatch Float :=
  match anyNumber v with
  | .error m => .error m
  | .ok x => if test x then .ok x else .error (.refused message)

/-- A whole number that is not below a bound. -/
def wholeFrom (least : Int) (message : String) (v : Json) : Except Mismatch Int :=
  match asWhole v with
  | .error m => .error m
  | .ok n => if n < least then .error (.refused message) else .ok n

namespace Settings

/-- What is said of a number below zero. -/
def negativeMessage : String := "value must be >= 0"

/-- Changes to scores and rules left out, from their values. -/
def readHacks (s : SettingSources) : Outcome Hacks :=
  let standard : Hacks := {}
  ((((Outcome.start Hacks.mk).also
    (s.setting "inference_hacks_always_true" standard.alwaysTrue asTruth)).also
    (s.setting "inference_hacks_soft_priors" standard.softPriors asTruth)).also
    (s.setting "inference_hacks_no_spouse" standard.noSpouse asTruth)).also
    (s.setting "inference_hacks_no_negative_translations" standard.noNegativeTranslations asTruth)

/-- All settings, each checked by itself. -/
def readValues (s : SettingSources) : Outcome Settings :=
  let standard : Settings := {}
  let inUnit (x : Float) : Bool := 0.0 < x && x < 1.0
  let inClosedUnit (x : Float) : Bool := 0.0 ≤ x && x ≤ 1.0
  Outcome.start Settings.mk
    |>.also (s.setting "inference_engine" standard.engine (chosen EngineKind.ofName?))
    |>.also (s.setting "inference_rules_files" standard.rulesFiles asText)
    |>.also (s.setting "inference_rules_cutoff" standard.cutoff anyNumber)
    |>.also (s.setting "inference_depth" standard.depth (wholeFrom 0 negativeMessage))
    |>.also (s.setting "inference_rules_mode" standard.rulesMode (chosen RulesMode.ofName?))
    |>.also (s.setting "inference_do_map" standard.doMap asTruth)
    |>.also (s.setting "inference_merge_method" standard.mergeMethod (chosen MergeMethod.ofName?))
    |>.also (s.setting "inference_gibbs_samples" standard.samples (wholeFrom 0 negativeMessage))
    |>.also (s.setting "inference_gibbs_threads" standard.threads
      (wholeFrom 1 "inference_gibbs_threads must be >= 1"))
    |>.also (s.setting "inference_prior" standard.prior
      (numberWhere inUnit "inference_prior must be in (0, 1)"))
    |>.also (s.setting "inference_do_hillclimb" standard.hillClimb asTruth)
    |>.also (s.setting "inference_acceptance_threshold" standard.threshold
      (numberWhere inClosedUnit "inference_acceptance_threshold must be in [0, 1]"))
    |>.also (s.setting "inference_acyclic" standard.acyclic asTruth)
    |>.also (s.setting "inference_acyclic_order" standard.acyclicOrder
      (chosen WeightOrder.ofName?))
    |>.also (readHacks s)
    |>.also (s.setting "log_level" standard.logLevel (chosen LogLevel.ofName?))
    |>.also (s.setting "log_format" standard.logFormat (chosen LogFormat.ofName?))
    |>.also (s.setting "log_file" standard.logFile asText)
    |>.also (s.setting "log_rotation" standard.logRotation asText)
    |>.also (s.setting "log_retention" standard.logRetention (wholeFrom 0 negativeMessage))

/-- The settings that values from several sources make. -/
def load (s : SettingSources) : Except SettingsFault Settings :=
  match readValues s with
  | .error faults => .error (.invalid faults)
  | .ok settings =>
    match settings.inconsistencies with
    | [] => .ok settings
    | messages => .error (.inconsistent ("; ".intercalate messages))

/-- Settings by their names, with values that can be given again. -/
def members (s : Settings) : List (String × Json) := [
    ("inference_engine", .text s.engine.name),
    ("inference_rules_files", .text s.rulesFiles),
    ("inference_rules_cutoff", .number s.cutoff),
    ("inference_depth", .int s.depth),
    ("inference_rules_mode", .text s.rulesMode.name),
    ("inference_do_map", .bool s.doMap),
    ("inference_merge_method", .text s.mergeMethod.name),
    ("inference_gibbs_samples", .int s.samples),
    ("inference_gibbs_threads", .int s.threads),
    ("inference_prior", .number s.prior),
    ("inference_do_hillclimb", .bool s.hillClimb),
    ("inference_acceptance_threshold", .number s.threshold),
    ("inference_acyclic", .bool s.acyclic),
    ("inference_acyclic_order", .text s.acyclicOrder.name),
    ("inference_hacks_always_true", .bool s.hacks.alwaysTrue),
    ("inference_hacks_soft_priors", .bool s.hacks.softPriors),
    ("inference_hacks_no_spouse", .bool s.hacks.noSpouse),
    ("inference_hacks_no_negative_translations", .bool s.hacks.noNegativeTranslations),
    ("log_level", .text s.logLevel.name),
    ("log_format", .text s.logFormat.name),
    ("log_file", .text s.logFile),
    ("log_rotation", .text s.logRotation),
    ("log_retention", .int s.logRetention)]

end Settings

end FactNet
