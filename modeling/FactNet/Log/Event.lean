/-!
# Events

What a computation has to tell, beside its result, is a list of events: each has a level and
a message in one text.

## Main definitions

* `Level` — how serious an event is, with `name`.
* `Event` — a message with its level.
-/

namespace FactNet

/-- How serious an event is. -/
inductive Level where
  | debug
  | info
  | warning
  | error
  deriving DecidableEq, Repr, Inhabited

/-- The name of a level in a record. -/
def Level.name : Level → String
  | .debug => "DEBUG"
  | .info => "INFO"
  | .warning => "WARNING"
  | .error => "ERROR"

/-- A message with its level. -/
structure Event where
  /-- How serious it is. -/
  level : Level
  /-- What is said. -/
  message : String
  deriving DecidableEq, Repr, Inhabited

end FactNet
