/-!
# JSON values

Fact files, settings and log records are exchanged as JSON.  Whole numbers are kept apart
from numbers with a point or an exponent, since only the former have no bound.  The members
of an object keep their order; of two with the same name the last one counts.

## Main definitions

* `Json` — a value.
* `Json.member?` — the member of an object with a name.
-/

namespace FactNet

/-- A JSON value. -/
inductive Json where
  /-- The absence of a value. -/
  | null
  /-- A truth value. -/
  | bool (b : Bool)
  /-- A number written without a point or an exponent. -/
  | int (n : Int)
  /-- Any other number. -/
  | number (x : Float)
  /-- A text. -/
  | text (s : String)
  /-- Values one after another. -/
  | list (items : List Json)
  /-- Values with names. -/
  | object (members : List (String × Json))
  deriving Repr, Inhabited, BEq

namespace Json

/-- The member of an object with a name. -/
def member? (v : Json) (name : String) : Option Json :=
  match v with
  | .object members => (members.reverse.find? fun m => m.1 == name).map (·.2)
  | _ => none

end Json

end FactNet
