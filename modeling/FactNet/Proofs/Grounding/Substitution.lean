import Mathlib.Data.List.Basic
import Mathlib.Data.Set.Function
import FactNet.Grounding.Binding

/-!
# Substitutions and bindings

A substitution gives every variable a constant.  A binding is what grounding knows of one: the
constants of the variables met so far.  Binding a further token to what the substitution
makes of it succeeds exactly when the substitution gives no other variable met so far the
same constant.

## Main definitions

* `Substitution`, `Substitution.value`, `Literal.under` — a substitution, and what it makes of
  a token and of a literal.
* `Substitution.Fresh` — a token gets no constant of another variable.
* `Binding.Follows` — a binding holds what a substitution gives to the variables met so far.

## Main results

* `Binding.Follows.isSome_unify` — when a token can be bound.
* `Binding.Follows.unify`, `Binding.Follows.unifyBoth` — the binding after that.
* `Binding.value_of_unify` — a substitution that agrees with a binding agrees with those it was
  made from.
-/

namespace FactNet

/-- The constants that variables are replaced with. -/
abbrev Substitution := String → String

/-- The variable that a token is, if it is one. -/
def variablesOf (token : String) : List String :=
  if isConstant token then [] else [token]

theorem mem_variablesOf {x token : String} :
    x ∈ variablesOf token ↔ isConstant token = false ∧ x = token := by
  unfold variablesOf
  split
  · next h => simp [h]
  · next h => simp [h]

/-- The variables of a literal, in order. -/
def Literal.variables (l : Literal) : List String :=
  variablesOf l.arg1 ++ variablesOf l.arg2

/-- The variables of a rule, in order. -/
def Rule.variables {α : Type} (rule : Rule α) : List String :=
  rule.literals.flatMap Literal.variables

namespace Substitution

/-- What a substitution makes of a token; a constant stays as it is. -/
def value (t : Substitution) (token : String) : String :=
  if isConstant token then token else t token

theorem value_eq {t : Substitution} {x token : String} (h : x ∈ variablesOf token) :
    t.value token = t x := by
  obtain ⟨hvariable, rfl⟩ := mem_variablesOf.mp h
  unfold value
  rw [hvariable, if_neg Bool.false_ne_true]

/-- A token that has not been met gets no constant of a variable that has been. -/
def Fresh (t : Substitution) (seen : List String) (token : String) : Prop :=
  ∀ x ∈ variablesOf token, x ∉ seen → ∀ y ∈ seen, t y ≠ t x

end Substitution

/-- What a substitution makes of a literal. -/
def Literal.under (l : Literal) (t : Substitution) : Literal :=
  l.withArgs (t.value l.arg1) (t.value l.arg2)

@[simp] theorem Literal.under_name (l : Literal) (t : Substitution) : (l.under t).name = l.name := rfl

@[simp] theorem Literal.under_truth (l : Literal) (t : Substitution) :
    (l.under t).truth = l.truth := rfl

@[simp] theorem Literal.under_arg1 (l : Literal) (t : Substitution) :
    (l.under t).arg1 = t.value l.arg1 := rfl

@[simp] theorem Literal.under_arg2 (l : Literal) (t : Substitution) :
    (l.under t).arg2 = t.value l.arg2 := rfl

namespace Binding

variable {b b' : Binding} {t : Substitution} {seen : List String} {token : String}

/-! ### What a binding is made from -/

/-- A substitution agrees with a binding. -/
def Agrees (b : Binding) (t : Substitution) : Prop :=
  ∀ x v, b.get? x = some v → t x = v

theorem get?_cons (x y v : String) (b : Binding) :
    get? ((x, v) :: b) y = if x = y then some v else b.get? y := by
  unfold get?
  by_cases hxy : x = y
  · simp [hxy]
  · simp [hxy]

/-- **A substitution that agrees with a binding agrees with the one that was extended**, and gives
the token the constant it was bound to. -/
theorem value_of_unify {v : String} (h : b.unify token v = some b') (hagrees : b'.Agrees t) :
    b.Agrees t ∧ t.value token = v := by
  unfold unify at h
  unfold Substitution.value
  split at h
  · next hconstant =>
    rw [if_pos hconstant]
    split at h
    · next heq =>
      cases h
      exact ⟨hagrees, heq⟩
    · cases h
  · next hvariable =>
    rw [if_neg hvariable]
    split at h
    · next bound hbound =>
      split at h
      · next heq =>
        cases h
        exact ⟨hagrees, heq ▸ hagrees token bound hbound⟩
      · cases h
    · next hnone =>
      split at h
      · cases h
      · cases h
        refine ⟨fun x w hx => hagrees x w ?_, hagrees token v ?_⟩
        · rw [get?_cons, if_neg ?_]
          · exact hx
          · rintro rfl
            rw [hnone] at hx
            cases hx
        · rw [get?_cons, if_pos rfl]

theorem value_of_unifyBoth {token' v v' : String}
    (h : b.unifyBoth token v token' v' = some b') (hagrees : b'.Agrees t) :
    b.Agrees t ∧ t.value token = v ∧ t.value token' = v' := by
  unfold unifyBoth at h
  split at h
  · cases h
  · next b₁ h₁ =>
    obtain ⟨hagrees₁, hvalue'⟩ := value_of_unify h hagrees
    obtain ⟨hagrees₀, hvalue⟩ := value_of_unify h₁ hagrees₁
    exact ⟨hagrees₀, hvalue, hvalue'⟩

/-! ### Bindings that follow a substitution -/

/-- A binding holds what a substitution gives to the variables met so far, and nothing else. -/
structure Follows (b : Binding) (t : Substitution) (seen : List String) : Prop where
  get?_eq : ∀ x, b.get? x = if x ∈ seen then some (t x) else none
  holds_iff : ∀ v, b.holds v = true ↔ ∃ x ∈ seen, t x = v

theorem follows_nil (t : Substitution) : Follows [] t [] where
  get?_eq x := by simp [get?]
  holds_iff v := by simp [holds]

namespace Follows

theorem agrees (h : b.Follows t seen) : b.Agrees t := by
  intro x v hx
  rw [h.get?_eq x] at hx
  split at hx
  · exact Option.some.inj hx
  · cases hx

/-- What a token denotes once it has been met. -/
theorem denotes?_eq (h : b.Follows t seen) (token : String) : b.denotes? token =
    if ∀ x ∈ variablesOf token, x ∈ seen then some (t.value token) else none := by
  unfold denotes? Substitution.value
  by_cases hconstant : isConstant token = true
  · simp [hconstant, variablesOf]
  · simp [hconstant, variablesOf, h.get?_eq]

/-- Only which variables have been met counts, not their order. -/
theorem congr {seen' : List String} (h : b.Follows t seen) (hseen : ∀ x, x ∈ seen ↔ x ∈ seen') :
    b.Follows t seen' where
  get?_eq x := by rw [h.get?_eq, if_congr (hseen x) rfl rfl]
  holds_iff v := by
    rw [h.holds_iff]
    exact exists_congr fun x => and_congr_left fun _ => hseen x

/-- A variable is bound. -/
theorem cons (h : b.Follows t seen) (x : String) :
    Follows ((x, t x) :: b) t (seen ++ [x]) where
  get?_eq y := by
    rw [get?_cons, h.get?_eq]
    by_cases hxy : x = y
    · subst hxy
      simp
    · simp [hxy, Ne.symm hxy]
  holds_iff v := by
    have hcons : holds ((x, t x) :: b) v = true ↔ t x = v ∨ b.holds v = true := by simp [holds]
    rw [hcons, h.holds_iff]
    simp only [List.mem_append, List.mem_singleton]
    constructor
    · rintro (hv | ⟨y, hy, hv⟩)
      · exact ⟨x, .inr rfl, hv⟩
      · exact ⟨y, .inl hy, hv⟩
    · rintro ⟨y, hy | rfl, hv⟩
      · exact .inr ⟨y, hy, hv⟩
      · exact .inl hv

/-- The binding after a token is bound to what the substitution makes of it. -/
theorem unify (h : b.Follows t seen) (hunify : b.unify token (t.value token) = some b') :
    b'.Follows t (seen ++ variablesOf token) := by
  unfold Binding.unify Substitution.value at hunify
  unfold variablesOf
  split at hunify
  · next hconstant =>
    rw [if_pos rfl, Option.some.injEq] at hunify
    rw [← hunify, if_pos hconstant, List.append_nil]
    exact h
  · next hvariable =>
    rw [h.get?_eq] at hunify
    rw [if_neg hvariable]
    by_cases hseen : token ∈ seen
    · -- the variable is bound already
      rw [if_pos hseen] at hunify
      simp only [if_true, Option.some.injEq] at hunify
      rw [← hunify]
      refine h.congr fun x => ?_
      rw [List.mem_append, List.mem_singleton]
      exact ⟨.inl, fun hx => hx.elim id fun hx => hx ▸ hseen⟩
    · rw [if_neg hseen] at hunify
      dsimp only at hunify
      split at hunify
      · cases hunify
      · cases hunify
        exact h.cons token

/-- **When a token can be bound** to what the substitution makes of it. -/
theorem isSome_unify (h : b.Follows t seen) (token : String) :
    (b.unify token (t.value token)).isSome = true ↔ t.Fresh seen token := by
  unfold Binding.unify Substitution.value Substitution.Fresh
  by_cases hconstant : isConstant token = true
  · simp [hconstant, variablesOf]
  · rw [if_neg hconstant, if_neg hconstant, h.get?_eq, variablesOf, if_neg hconstant]
    simp only [List.mem_singleton, forall_eq]
    by_cases hseen : token ∈ seen
    · simp [hseen]
    · have hholds := h.holds_iff (t token)
      by_cases hb : b.holds (t token) = true
      · obtain ⟨x, hx, hv⟩ := hholds.mp hb
        simp only [hseen, if_false, hb, if_true, Option.isSome_none, Bool.false_eq_true,
          not_false_eq_true, forall_const, false_iff]
        exact fun hall => hall x hx hv
      · simp only [hseen, if_false, hb, Bool.false_eq_true, Option.isSome_some, not_false_eq_true,
          forall_const, true_iff]
        exact fun x hx hv => hb (hholds.mpr ⟨x, hx, hv⟩)

/-- The binding after two tokens are bound. -/
theorem unifyBoth {token' : String} (h : b.Follows t seen)
    (hunify : b.unifyBoth token (t.value token) token' (t.value token') = some b') :
    b'.Follows t (seen ++ variablesOf token ++ variablesOf token') := by
  unfold Binding.unifyBoth at hunify
  split at hunify
  · cases hunify
  · next b₁ h₁ => exact (h.unify h₁).unify hunify

end Follows

end Binding

end FactNet
