import FactNet.Program.Dependency

/-!
# Selecting rules without a cycle

Rules are considered in the order of their weight, and each is admitted unless it would
close a cycle with those admitted before it.  To see that at once, every predicate keeps the
set of its ancestors, itself among them.  A rule is refused when one of its head predicates
is an ancestor of one of its body predicates.  After a rule is admitted, the ancestors of
its body go to its head predicates and to everything that descends from them.

## Main definitions

* `Ancestors` — the ancestor sets.
* `Ancestors.refuses`, `Ancestors.extend` — what a rule is tested against, and what it changes.
* `admitRules` — the rules that are admitted.
* `Program.keeping`, `Program.makeAcyclic` — the program of those rules, in some order and by weight.
-/

namespace FactNet

/-- The texts of the second list that are not in the first, put after it. -/
def unionTexts (xs ys : List String) : List String :=
  ys.foldl (fun acc y => if acc.contains y then acc else acc ++ [y]) xs

/-- The ancestors of every predicate that has been met. -/
structure Ancestors where
  /-- The predicates in the order they were met, each with its ancestors. -/
  entries : List (String × List String) := []
  deriving Repr, Inhabited

namespace Ancestors

/-- The ancestors of a predicate; one that has not been met has itself alone. -/
def of (t : Ancestors) (name : String) : List String :=
  match t.entries.find? fun e => e.1 == name with
  | some e => e.2
  | none => [name]

/-- The table with a predicate entered. -/
def enter (t : Ancestors) (name : String) : Ancestors :=
  if t.entries.any fun e => e.1 == name then t else ⟨t.entries ++ [(name, [name])]⟩

/-- Whether a rule would close a cycle: a predicate of its head is an ancestor of one of its
body. -/
def refuses {α : Type} (t : Ancestors) (r : Rule α) : Bool :=
  r.bodyNames.any fun a => (t.of a).any fun b => r.headNames.contains b

/-- The table with some ancestors given to a predicate and to all that descend from it. -/
def inherit (t : Ancestors) (inherited : List String) (head : String) : Ancestors :=
  ⟨(t.enter head).entries.map fun e =>
    -- a predicate descends from its ancestors, and from itself
    if e.2.contains head then (e.1, unionTexts e.2 inherited) else e⟩

/-- The table after a rule is admitted. -/
def extend {α : Type} (t : Ancestors) (r : Rule α) : Ancestors :=
  let t := r.bodyNames.foldl enter t
  let inherited := r.bodyNames.foldl (fun acc a => unionTexts acc (t.of a)) []
  r.headNames.foldl (fun t c => t.inherit inherited c) t

end Ancestors

/-- Goes through rules with their places and admits those that close no cycle. -/
def admitRules {α : Type} : Ancestors → List (Nat × Rule α) → List (Nat × Rule α)
  | _, [] => []
  | t, x :: rest =>
    if t.refuses x.2 then admitRules t rest else x :: admitRules (t.extend x.2) rest

/-- Whether a rule at a place is among some: it is the rule at that place, or equal to one of
them. -/
def isAmong {α : Type} [BEq α] (xs : List (Nat × Rule α)) (x : Nat × Rule α) : Bool :=
  xs.any fun y => y.1 == x.1 || y.2 == x.2

namespace Program

variable {α : Type}

/-- Rules with their places. -/
def placed (rules : List (Rule α)) : List (Nat × Rule α) :=
  rules.zipIdx.map Prod.swap

/-- The program with the rules that are admitted when they are considered in some order.  The rules
that stay keep their order. -/
def keeping [BEq α] (p : Program α) (order : List (Nat × Rule α)) : Program α :=
  let admitted := admitRules {} order
  p.withRules (((placed p.rules).filter (isAmong admitted)).map (·.2))

variable [Scalar α]

/-- The rules with their places, by weight; rules of the same weight keep their order. -/
def byWeight (descending : Bool) (rules : List (Rule α)) : List (Nat × Rule α) :=
  (placed rules).mergeSort fun x y =>
    if descending then !decide (x.2.weight < y.2.weight) else !decide (y.2.weight < x.2.weight)

/-- The program without the rules that would close a cycle, heavier rules being considered first or
last. -/
def makeAcyclic (p : Program α) (descending : Bool := true) : Program α :=
  p.keeping (byWeight descending p.rules)

end Program

end FactNet
