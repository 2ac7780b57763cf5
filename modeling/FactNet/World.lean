/-!
# Worlds

The variables of a network are numbered from zero.  A world gives each of them a truth value;
a factor only needs the values of its own variables, so it is also read in a valuation, which
has a value for every number.

Reading a variable beyond the end of a world is a fault, and so is a sum that grows too large
to be the logarithm of a number.

## Main definitions

* `Valuation`, `World` — truth values by number.
* `World.value`, `World.value?` — the value of a variable.
* `EvalFault` — why there is no value.
-/

namespace FactNet

/-- A truth value for every number. -/
abbrev Valuation := Nat → Bool

/-- The truth values of the first variables. -/
abbrev World := Array Bool

/-- Why a factor has no value in a world. -/
inductive EvalFault where
  /-- The world gives a variable no value. -/
  | unassigned
  /-- An exponential is too large. -/
  | overflow
  deriving DecidableEq, Repr, Inhabited

namespace World

/-- The value of a variable; one that the world does not reach is false. -/
@[inline] def value (w : World) (i : Nat) : Bool := w.getD i false

/-- The value of a variable, if the world reaches it. -/
def value? (w : World) (i : Nat) : Except EvalFault Bool :=
  match w[i]? with
  | some b => .ok b
  | none => .error .unassigned

/-- The world in which all of the first `n` variables are false. -/
def allFalse (n : Nat) : World := Array.replicate n false

/-- The world with a variable changed; one that the world does not reach stays out of it. -/
@[inline] def assign (w : World) (i : Nat) (b : Bool) : World := w.setIfInBounds i b

/-- The worlds of given values for variables, the last value of each one counting. -/
def assignAll (w : World) (values : List (Nat × Bool)) : World :=
  values.foldl (fun w (i, b) => w.assign i b) w

@[simp] theorem size_allFalse (n : Nat) : (allFalse n).size = n := by
  simp [allFalse]

@[simp] theorem size_assign (w : World) (i : Nat) (b : Bool) : (w.assign i b).size = w.size := by
  simp [assign]

@[simp] theorem size_assignAll (w : World) (values : List (Nat × Bool)) :
    (w.assignAll values).size = w.size := by
  unfold assignAll
  induction values generalizing w with
  | nil => rfl
  | cons e es ih => rw [List.foldl_cons, ih, size_assign]

theorem value_assign_of_ne (w : World) {i j : Nat} (h : j ≠ i) (b : Bool) :
    (w.assign i b).value j = w.value j := by
  simp [assign, value, Array.getD_eq_getD_getElem?, Array.getElem?_setIfInBounds_ne h.symm]

/-- A variable given the value it has. -/
theorem assign_value (w : World) (i : Nat) : w.assign i (w.value i) = w := by
  apply Array.ext_getElem?
  intro j
  rw [assign, Array.getElem?_setIfInBounds]
  split
  · next h =>
    subst h
    split
    · next h => simp [value, h]
    · next h => simp [h]
  · rfl

end World

end FactNet
