import FactNet.Proofs.Grounding.Candidates
import FactNet.Proofs.Grounding.Clauses

/-!
# Registries that are alike

Grounding asks a registry for the declaration of a name, the constants of a type, which constants
may be paired, and for its evidence, priors and rules.  Where two registries give the same answers
to the first questions, and lists that are alike to the others, their clauses and the literals
that they mention are alike in the same way.

This is said once for every way in which lists can be alike: for having the same elements, which
is what registering in another order leaves, and for having the same first occurrences, which
is what registering again leaves.

## Main definitions

* `Registry.Alike` — two registries give answers that are alike.

## Main results

* `Registry.Alike.instances` — the instances of a rule are alike.
* `Registry.Alike.mentioned`, `Registry.Alike.clauses` — **what is mentioned and the clauses are
  alike.**
-/

namespace FactNet

namespace Registry

variable {α : Type} {R : ∀ {β : Type}, List β → List β → Prop} {r r' : Registry α}

/-- Two registries give answers that are alike. -/
structure Alike (R : ∀ {β : Type}, List β → List β → Prop) (r r' : Registry α) : Prop where
  predicate?_eq : ∀ name, r.predicate? name = r'.predicate? name
  get_eq : ∀ type, r.domains.get type = r'.domains.get type
  mayPair_eq : ∀ first second, r.mayPair first second = r'.mayPair first second
  evidence : R r.evidence r'.evidence
  priors : R r.priors r'.priors
  rules : R r.rules r'.rules

namespace Alike

theorem slotValues_eq (h : r.Alike R r') (type token : String) (b : Binding) :
    (slotValues r type token b).1 = (slotValues r' type token b).1 := by
  rw [fst_slotValues, fst_slotValues, h.get_eq]

theorem secondCandidates_eq (h : r.Alike R r') (p : Predicate) (l : Literal) (value1 : String)
    (b : Binding) :
    (secondCandidates r p l value1 b).1 = (secondCandidates r' p l value1 b).1 := by
  unfold secondCandidates
  dsimp only
  rw [h.slotValues_eq, funext (h.mayPair_eq value1)]

theorem openCandidates_eq (h : r.Alike R r') (p : Predicate) (l : Literal) (b : Binding) :
    (openCandidates r p l b).1 = (openCandidates r' p l b).1 := by
  rw [fst_openCandidates, fst_openCandidates, h.slotValues_eq]
  refine List.flatMap_congr fun v _ => ?_
  cases b.unify l.arg1 v with
  | none => rfl
  | some b' => exact h.secondCandidates_eq p l v b'

/-- What a literal can take is alike. -/
theorem candidates (hR : Likeness R) (h : r.Alike R r') (l : Literal) (b : Binding) :
    R (candidates r l b).1 (candidates r' l b).1 := by
  unfold FactNet.candidates
  rw [← h.predicate?_eq]
  cases r.predicate? l.name with
  | none => exact hR.refl _
  | some p =>
    dsimp only
    split
    · exact hR.filterMap (hR.filter h.evidence _) _
    · rw [h.openCandidates_eq]
      exact hR.refl _

theorem fst_instancesFrom_cons (r : Registry α) (ruleText : String) (equalities : List Literal)
    (l : Literal) (ls : List Literal) (b : Binding) (ground : List Literal) :
    (instancesFrom r ruleText equalities (l :: ls) b ground).1 =
      (FactNet.candidates r l b).1.flatMap fun c =>
        (instancesFrom r ruleText equalities ls c.binding
          (l.withArgs c.arg1 c.arg2 :: ground)).1 := by
  simp only [instancesFrom, List.flatMap_map]

theorem instancesFrom (hR : Likeness R) (h : r.Alike R r') (ruleText : String)
    (equalities ls : List Literal) (b : Binding) (ground : List Literal) :
    R (instancesFrom r ruleText equalities ls b ground).1
      (instancesFrom r' ruleText equalities ls b ground).1 := by
  induction ls generalizing b ground with
  | nil => exact hR.refl _
  | cons l ls ih =>
    rw [fst_instancesFrom_cons, fst_instancesFrom_cons]
    exact hR.flatMap (h.candidates hR l b) fun c _ => ih _ _

variable [Scalar α] [Numeral α]

/-- The instances of a rule are alike. -/
theorem instances (hR : Likeness R) (h : r.Alike R r') (rule : Rule α) :
    R (instances r rule).1 (instances r' rule).1 := by
  unfold FactNet.instances
  split
  · exact h.instancesFrom hR _ _ _ _ _
  · exact hR.refl _

omit [Numeral α] in
theorem units (hR : Likeness R) (h : r.Alike R r') : R r.units r'.units :=
  hR.filterMap (hR.append h.priors h.rules) _

theorem firstClauses (hR : Likeness R) (h : r.Alike R r') : R r.firstClauses r'.firstClauses := by
  refine hR.append (hR.map (hR.filter (h.units hR) _) _) ?_
  exact hR.flatMap (hR.filter h.rules _) fun rule _ => hR.map (h.instances hR rule) _

/-- **What is mentioned is alike.** -/
theorem mentioned (hR : Likeness R) (h : r.Alike R r') : R r.mentioned r'.mentioned :=
  hR.append (hR.map h.evidence _)
    (hR.flatMap (h.firstClauses hR) fun _ _ => hR.refl _)

/-- **The clauses are alike.** -/
theorem clauses (hR : Likeness R) (h : r.Alike R r') : R r.clauses r'.clauses := by
  refine hR.append (h.firstClauses hR) (hR.flatMap (hR.filter (h.units hR) _) fun u _ => ?_)
  rw [eraseDups_eq_firsts, eraseDups_eq_firsts]
  exact hR.map (hR.filter (hR.firsts (h.mentioned hR)) _) _

end Alike

end Registry

end FactNet
