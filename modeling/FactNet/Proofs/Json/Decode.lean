import FactNet.Json.Decode

/-!
# Outcomes that nothing is wrong with

An outcome is put together from the outcomes of its parts.  Nothing is wrong with the whole just if
nothing is wrong with any part, and then it is made of what the parts are.

## Main results

* `Outcome.also_eq_ok_iff`, `Outcome.within_eq_ok_iff`, `Outcome.ofExcept_eq_ok_iff` — **nothing is
  wrong with the whole just if nothing is wrong with the parts.**
-/

namespace FactNet.Json.Outcome

variable {β γ : Type}

@[simp] theorem also_eq_ok_iff {f : Outcome (β → γ)} {x : Outcome β} {c : γ} :
    f.also x = .ok c ↔ ∃ g b, f = .ok g ∧ x = .ok b ∧ g b = c := by
  cases f with
  | error fs => simp [also]
  | ok g =>
    cases x with
    | error fs => simp [also]
    | ok b => simp [also]

@[simp] theorem within_eq_ok_iff {step : Step} {x : Outcome β} {b : β} :
    within step x = .ok b ↔ x = .ok b := by
  cases x <;> simp [within]

@[simp] theorem ofExcept_eq_ok_iff {x : Except Mismatch β} {b : β} :
    ofExcept x = .ok b ↔ x = .ok b := by
  cases x <;> simp [ofExcept]

@[simp] theorem start_eq_ok_iff {b c : β} : start b = .ok c ↔ b = c := by
  simp [start]

end FactNet.Json.Outcome
