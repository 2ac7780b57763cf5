import FactNet.Proofs.Grounding.History
import FactNet.Proofs.Program.Declarations

/-!
# Registrations that are accepted

A registration is refused where a predicate is declared in two ways or not at all, where evidence is
given for an open predicate or with a variable, and where a prior is not one literal.  Where the
predicates have different names and everything else is about them, nothing is refused.

## Main definitions

* `Registered.Accepted` — a registration is accepted and leaves a registry with a property.
* `Registry.HasDeclared` — some predicates are declared.

## Main results

* `Registry.accepted_each` — **a list is accepted if each of its elements is**, whatever has been
  accepted before it.
* `Registry.accepted_addPredicates` — predicates with different names are accepted.
* `Registry.HasDeclared.accepted_addEvidence`, `Registry.HasDeclared.accepted_addPrior`,
  `Registry.HasDeclared.accepted_addRule` — what is about declared predicates is accepted.
-/

namespace FactNet

variable {α : Type}

/-- A registration is accepted and leaves a registry with a property. -/
structure Registered.Accepted (done : Registered α) (P : Registry α → Prop) : Prop where
  /-- It is accepted. -/
  accepted : done.2 = none
  /-- The registry has the property. -/
  left : P done.1

/-- A registration that is accepted leaves a registry, and nothing is told. -/
theorem Registered.Accepted.exists_eq {done : Registered α} {P : Registry α → Prop}
    (h : done.Accepted P) : ∃ r, done = (r, none) ∧ P r :=
  ⟨done.1, Prod.ext rfl h.accepted, h.left⟩

namespace Registry

variable {r : Registry α} {ps : List Predicate}

/-- **A list is accepted if each of its elements is**, whatever has been accepted before it. -/
theorem accepted_each {β : Type} {P : Registry α → Prop} {f : Registry α → β → Registered α}
    {bs : List β} (hf : ∀ b ∈ bs, ∀ r, P r → (f r b).Accepted P) (hr : P r) :
    (each f r bs).Accepted P := by
  induction bs generalizing r with
  | nil => exact ⟨rfl, hr⟩
  | cons b bs ih =>
    obtain ⟨r', heq, hr'⟩ := (hf b List.mem_cons_self r hr).exists_eq
    rw [each, heq]
    exact ih (fun b' hb' => hf b' (List.mem_cons_of_mem b hb')) hr'

/-! ### Predicates -/

/-- Some predicates are declared. -/
def HasDeclared (r : Registry α) (ps : List Predicate) : Prop :=
  ∀ p ∈ ps, r.predicate? p.name = some p

/-- Predicates with different names are declared one after another. -/
theorem accepted_each_addPredicate (h : ((r.predicates ++ ps).map (·.name)).Nodup) :
    (each addPredicate r ps).Accepted fun r' => r'.predicates = r.predicates ++ ps := by
  -- every predicate that is declared moves from what is to come to what has been
  induction ps generalizing r with
  | nil => exact ⟨rfl, (List.append_nil _).symm⟩
  | cons p ps ih =>
    have hnew : r.predicate? p.name = none := by
      refine List.find?_eq_none.2 fun q hq heq => ?_
      rw [List.map_append, List.nodup_append] at h
      exact h.2.2 q.name (List.mem_map_of_mem hq) p.name (by simp) (by simpa using heq)
    obtain ⟨r', heq, hpredicates⟩ : ∃ r', r.addPredicate p = (r', none) ∧
        r'.predicates = r.predicates ++ [p] := by
      rw [addPredicate, hnew]
      exact ⟨_, rfl, rfl⟩
    rw [List.append_cons, ← hpredicates] at h ⊢
    rw [each, heq]
    exact ih h

/-- Predicates with different names are accepted. -/
theorem accepted_addPredicates (hr : r.predicates = []) (h : (ps.map (·.name)).Nodup) :
    (r.addPredicates ps).Accepted (·.HasDeclared ps) := by
  have hperm := List.mergeSort_perm ps fun p q => decide (p.text ≤ q.text)
  have hnames := ((hperm.map (·.name)).nodup_iff).2 h
  obtain ⟨haccepted, hleft⟩ := accepted_each_addPredicate (r := r) (by rwa [hr, List.nil_append])
  refine ⟨haccepted, fun p hp => ?_⟩
  rw [hr, List.nil_append, ← addPredicates] at hleft
  rw [predicate?, hleft]
  exact (Predicate.find?_name_eq_some_iff hnames).2 ⟨hperm.mem_iff.2 hp, rfl⟩

/-! ### What is about declared predicates -/

namespace HasDeclared

theorem of_addsConstants {r' : Registry α} (h : r.HasDeclared ps) (hadds : r.AddsConstants r') :
    r'.HasDeclared ps := fun p hp => (hadds.predicate?_eq p.name).trans (h p hp)

/-- A rule whose predicates are all declared has its constants added. -/
theorem accepted_addRuleConstants (h : r.HasDeclared ps) {rule : Rule α}
    (hrule : ∀ l ∈ rule.literals, l.isEquality = false → l.name ∈ ps.map (·.name)) :
    (r.addRuleConstants rule).Accepted (·.HasDeclared ps) := by
  refine accepted_each (fun l hl r hr => ⟨?_, ?_⟩) h
  · unfold addLiteralConstants
    split
    · rfl
    · next heq =>
      obtain ⟨p, hp, hname⟩ := List.mem_map.1 (hrule l hl (Bool.eq_false_iff.2 heq))
      rw [← hname, hr p hp]
  · exact hr.of_addsConstants (AddsConstants.addLiteralConstants r l)

theorem accepted_addRule (h : r.HasDeclared ps) {rule : Rule α}
    (hrule : ∀ l ∈ rule.literals, l.isEquality = false → l.name ∈ ps.map (·.name)) :
    (r.addRule rule).Accepted (·.HasDeclared ps) := by
  obtain ⟨r', heq, hr'⟩ := (h.accepted_addRuleConstants hrule).exists_eq
  rw [addRule, heq]
  exact ⟨rfl, hr'⟩

theorem accepted_addPrior [Scalar α] [Numeral α] (h : r.HasDeclared ps) {rule : Rule α}
    (hunit : rule.literals.length = 1)
    (hrule : ∀ l ∈ rule.literals, l.isEquality = false → l.name ∈ ps.map (·.name)) :
    (r.addPrior rule).Accepted (·.HasDeclared ps) := by
  obtain ⟨r', heq, hr'⟩ := (h.accepted_addRuleConstants hrule).exists_eq
  rw [addPrior, if_neg (not_not.2 hunit), heq]
  exact ⟨rfl, hr'⟩

theorem accepted_addEvidence (h : r.HasDeclared ps) {p : Predicate} (hp : p ∈ ps)
    (hclosed : p.closed = true) {l : Literal} (hname : l.name = p.name)
    (harg1 : isConstant l.arg1 = true) (harg2 : isConstant l.arg2 = true) :
    (r.addEvidence l).Accepted (·.HasDeclared ps) := by
  have hadds := (AddsConstants.addConstant r p.type1 l.arg1).trans
    (AddsConstants.addConstant _ p.type2 l.arg2)
  have hadded := h.of_addsConstants hadds
  rw [addEvidence, hname, h p hp]
  simp only [hclosed, harg1, harg2, Bool.not_true, Bool.and_self, Bool.false_eq_true, if_false]
  exact ⟨rfl, hadded⟩

end HasDeclared

end Registry

end FactNet
