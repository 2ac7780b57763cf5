import Mathlib.Data.List.Lex
import Mathlib.Data.List.Nodup
import Mathlib.Data.String.Basic
import FactNet.Program.Basic
import FactNet.Proofs.Distinct

/-!
# Declared predicates

The predicates of a program are a set, kept in the order of their text.  A program can declare one
name in several ways; where it does not, a name has the declaration that is in the set.

## Main results

* `Predicate.key_injective` — predicates that are ordered alike are the same.
* `Predicate.mem_setOf` — the set of some predicates has those and no others.
* `Program.nodup_predicates` — a program has each of its predicates once.
* `Program.get?_eq_some_iff` — where no two predicates share a name, a name has the declaration with
  that name.
-/

namespace FactNet

namespace Predicate

/-- Predicates that are ordered alike are the same; the star in the text of a closed one tells it
from an open one. -/
theorem key_injective : Function.Injective key := by
  rintro ⟨name, type1, type2, closed⟩ ⟨name', type1', type2', closed'⟩ h
  simp only [key, List.cons.injEq, and_true] at h
  obtain ⟨htext, rfl, rfl, rfl⟩ := h
  have hlength := congrArg String.length htext
  cases closed <;> cases closed' <;> simp [text, String.length_append] at hlength ⊢

@[simp] theorem mem_insertInto {p x : Predicate} {ps : List Predicate} :
    x ∈ p.insertInto ps ↔ x = p ∨ x ∈ ps := by
  refine ⟨mem_of_mem_insertInto, fun h => ?_⟩
  induction ps with
  | nil => simpa [insertInto] using h
  | cons q qs ih =>
    rw [insertInto]
    split
    · simpa using h
    · next hnot =>
      split
      · rcases h with rfl | h
        · exact List.mem_cons_of_mem _ (ih (.inl rfl))
        · rcases List.mem_cons.1 h with rfl | h
          · exact List.mem_cons_self
          · exact List.mem_cons_of_mem _ (ih (.inr h))
      · next hnot' =>
        have heq : p = q := key_injective (le_antisymm (not_lt.1 hnot') (not_lt.1 hnot))
        rcases h with rfl | h
        · exact heq ▸ List.mem_cons_self
        · exact h

/-- The set of some predicates has those and no others. -/
@[simp] theorem mem_setOf {p : Predicate} {ps : List Predicate} : p ∈ setOf ps ↔ p ∈ ps := by
  have hfold : ∀ acc, p ∈ ps.foldl (fun acc q => q.insertInto acc) acc ↔ p ∈ acc ∨ p ∈ ps := by
    induction ps with
    | nil => simp
    | cons q ps ih =>
      intro acc
      rw [List.foldl_cons, ih, mem_insertInto, List.mem_cons]
      tauto
  simpa [setOf] using hfold []

/-- Where no two predicates share a name, the one that is found for a name is the one with it. -/
theorem find?_name_eq_some_iff {ps : List Predicate} (h : (ps.map (·.name)).Nodup) {name : String}
    {p : Predicate} : (ps.find? fun q => q.name == name) = some p ↔ p ∈ ps ∧ p.name = name :=
  find?_key_eq_some_iff h

end Predicate

namespace Program

variable {α : Type} {p : Program α}

/-- A program has each of its predicates once. -/
theorem nodup_predicates (p : Program α) : p.predicates.Nodup :=
  p.ordered.imp fun {q q'} hlt heq => absurd hlt (by rw [heq]; exact lt_irrefl q'.key)

/-- Where no two predicates share a name, a name has the declaration with that name. -/
theorem get?_eq_some_iff (h : (p.predicates.map (·.name)).Nodup) {name : String} {d : Predicate} :
    p.get? name = some d ↔ d ∈ p.predicates ∧ d.name = name :=
  Predicate.find?_name_eq_some_iff h

end Program

end FactNet
