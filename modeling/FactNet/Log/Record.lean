import FactNet.Log.Context
import FactNet.Log.Message

/-!
# Log records

A record is written with its context: as a JSON object, or on a line for the eye.  Parts of the
context that are not known, or that are empty, are left out of the line.

## Main definitions

* `Record` — what is logged.
* `Record.json` — a record as a JSON object.
* `Record.line` — a record on a line.
-/

namespace FactNet

/-- What is logged. -/
structure Record where
  /-- The name of its level. -/
  level : String
  /-- The name of the logger. -/
  logger : String
  /-- The message. -/
  message : String
  /-- Further data. -/
  data : Json := .null
  deriving Repr, Inhabited

/-- The name of a logger of this program. -/
def loggerName (name : String) : String := "kbpinfer." ++ name

namespace Record

/-- A record as a JSON object.  An empty context and empty data are left out. -/
def json (r : Record) (c : Context) : Json :=
  let context := c.members.map fun (name, v) => (name, Json.text v)
  .object <|
    [("level", .text r.level), ("logger", .text r.logger), ("message", .text r.message)]
      ++ (if context.isEmpty then [] else [("context", .object context)])
      ++ (if r.data.isTruthy then [("data", r.data)] else [])

/-- A part of the context between two marks, if it is there. -/
def marked (opening closing : String) (part : Option String) : List String :=
  match part with
  | none => []
  | some s => if s.isEmpty then [] else [opening ++ s ++ closing]

/-- The name of a level, filled up to eight characters. -/
def levelColumn (level : String) : String :=
  "[" ++ level ++ String.ofList (List.replicate (8 - level.length) ' ') ++ "]"

/-- A record on a line. -/
def line (r : Record) (c : Context) : String :=
  " ".intercalate <|
    [levelColumn r.level, r.logger] ++ marked "[" "]" c.engine ++ marked "<" ">" c.pivot
      ++ marked "(" ")" c.phase ++ ["- " ++ r.message]

end Record

end FactNet
