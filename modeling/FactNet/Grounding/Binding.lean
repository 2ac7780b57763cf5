import FactNet.Program.Basic

/-!
# Bindings

Grounding a rule binds its variables to constants one after another.  Different variables are
bound to different constants.

## Main definitions

* `Binding` — the constants of some variables.
* `Binding.get?` — the constant of a variable.
* `Binding.unify` — the binding under which a token denotes a constant.
-/

namespace FactNet

/-- The constants that some variables are bound to. -/
abbrev Binding := List (String × String)

namespace Binding

/-- The constant that a variable is bound to. -/
def get? (b : Binding) (x : String) : Option String :=
  (b.find? fun e => e.1 == x).map (·.2)

/-- Whether some variable is bound to a constant. -/
def holds (b : Binding) (value : String) : Bool :=
  b.any fun e => e.2 == value

/-- What a token denotes: a constant denotes itself, and a variable what it is bound to. -/
def denotes? (b : Binding) (token : String) : Option String :=
  if isConstant token then some token else b.get? token

/-- The binding under which a token denotes a constant, if there is one that binds no constant
twice. -/
def unify (b : Binding) (token value : String) : Option Binding :=
  if isConstant token then
    if token = value then some b else none
  else
    match b.get? token with
    | some bound => if bound = value then some b else none
    | none => if b.holds value then none else some ((token, value) :: b)

/-- The binding under which two tokens denote two constants. -/
def unifyBoth (b : Binding) (token1 value1 token2 value2 : String) : Option Binding :=
  match b.unify token1 value1 with
  | none => none
  | some b => b.unify token2 value2

end Binding

end FactNet
