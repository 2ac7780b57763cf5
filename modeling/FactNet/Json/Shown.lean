import FactNet.Decimal.Shortest
import FactNet.Json.Value
import FactNet.Text.Quoted

/-!
# Values in messages

A value that a message tells of is written on one line.  A text stands as it is; inside a
list or an object it is quoted.

## Main definitions

* `Json.shown` — a value as it appears in a message.
* `Json.inside` — a value as it appears inside a list or object.
* `Json.isTruthy` — whether a value is worth mentioning.
-/

namespace FactNet

open FactNet.Decimal FactNet.Text

namespace Json

mutual

/-- A value as it appears inside a list or object: texts are quoted. -/
def inside : Json → String
  | .null => "None"
  | .bool b => if b then "True" else "False"
  | .int n => toString n
  | .number x => shortestText x
  | .text s => quote s
  | .list items => "[" ++ ", ".intercalate (insideItems items) ++ "]"
  | .object members => "\x7b" ++ ", ".intercalate (insideMembers members) ++ "\x7d"

/-- The items of a list as they appear inside it. -/
def insideItems : List Json → List String
  | [] => []
  | v :: vs => inside v :: insideItems vs

/-- The members of an object as they appear inside it. -/
def insideMembers : List (String × Json) → List String
  | [] => []
  | (name, v) :: ms => (quote name ++ ": " ++ inside v) :: insideMembers ms

end

/-- A value as it appears in a message. -/
def shown : Json → String
  | .text s => s
  | v => inside v

/-- Whether a value is worth mentioning: not nothing, not zero and not empty. -/
def isTruthy : Json → Bool
  | .null => false
  | .bool b => b
  | .int n => n != 0
  | .number x => x != 0.0
  | .text s => !s.isEmpty
  | .list items => !items.isEmpty
  | .object members => !members.isEmpty

end Json

end FactNet
