/-!
# Pairs

Names are given values one after another, and a name may be given several.  The last one
counts, but the name keeps the place where it came first.

## Main definitions

* `Pairs.last?` — the value that counts for a name.
* `Pairs.collapse` — every name once, with the value that counts.
-/

namespace FactNet.Pairs

variable {κ β : Type} [BEq κ]

/-- The last value that is given to a name. -/
def last? (pairs : List (κ × β)) (key : κ) : Option β :=
  (pairs.reverse.find? fun e => e.1 == key).map (·.2)

/-- Every name at the place where it comes first, with the last value that is given to it. -/
def collapse (pairs : List (κ × β)) : List (κ × β) :=
  (pairs.map (·.1)).eraseDups.filterMap fun k => (last? pairs k).map fun b => (k, b)

@[simp] theorem last?_nil (key : κ) : last? ([] : List (κ × β)) key = none := rfl

@[simp] theorem collapse_nil : collapse ([] : List (κ × β)) = [] := rfl

end FactNet.Pairs
