import FactNet.Log.Rotation
import FactNet.Text.Case

/-!
# Setting up logging

Log records go to the console, and to a file if one is named.  Both write them in the same
format.

## Main definitions

* `LogOptions` — what is asked for.
* `LogSetup` — the least level and the places that records go to.
* `LogOptions.setup` — the setup of some options.
-/

namespace FactNet

open FactNet.Text

/-- How records are written. -/
inductive LogFormat where
  /-- As JSON objects. -/
  | json
  /-- As lines for the eye. -/
  | text
  deriving DecidableEq, Repr, Inhabited

/-- What logging is asked to do. -/
structure LogOptions where
  /-- The name of the least level. -/
  level : String := "INFO"
  /-- The name of the format; any other than that of JSON means text. -/
  format : String := "json"
  /-- The file, if there is to be one; an empty name means none. -/
  file : Option String := none
  /-- The size at which a file is put aside. -/
  rotation : String := "10MB"
  /-- How many files that were put aside are kept. -/
  retention : Int := 5
  deriving Repr, Inhabited

/-- Where records go to. -/
inductive LogSink where
  /-- To the console. -/
  | console
  /-- To a file that is put aside at some size, of which some are kept. -/
  | file (maxBytes : Nat) (kept : Int)
  deriving DecidableEq, Repr, Inhabited

/-- How records are logged. -/
structure LogSetup where
  /-- The least level, as a number. -/
  level : Nat
  /-- The format. -/
  format : LogFormat
  /-- Where records go to. -/
  sinks : List LogSink
  deriving DecidableEq, Repr, Inhabited

/-- The number of a level by its name in any case; an unknown name means that of information. -/
def levelNumber (name : String) : Nat :=
  match capitals name with
  | "NOTSET" => 0
  | "DEBUG" => 10
  | "WARNING" => 30
  | "WARN" => 30
  | "ERROR" => 40
  | "CRITICAL" => 50
  | "FATAL" => 50
  | _ => 20

/-- The setup of some options. -/
def LogOptions.setup (o : LogOptions) : Except SizeFault LogSetup :=
  let format := if o.format == "json" then LogFormat.json else .text
  let level := levelNumber o.level
  match o.file with
  | none => .ok ⟨level, format, [.console]⟩
  | some name =>
    if name.isEmpty then .ok ⟨level, format, [.console]⟩
    else (parseSize o.rotation).map fun bytes =>
      ⟨level, format, [.console, .file bytes o.retention]⟩

end FactNet
