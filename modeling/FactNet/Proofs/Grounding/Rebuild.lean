import FactNet.Proofs.Grounding.Network
import FactNet.Proofs.Grounding.Repetition

/-!
# Building again

Where nothing but repetitions has been added to a registry, the same network is built of it, with
the same numbers of the variables and the same factors in the same order: the literals that are
mentioned have the same first occurrences, and so have the grounded rules of every consequent,
of which repetitions are dropped before anything is made of them.

Only the evidence might be read in another way, since the last value of a literal counts; it is
not where no literal is given two values.

## Main results

* `Registry.Repeats.literals_eq`, `Registry.Repeats.rulesOf` — the variables are the same, and
  grounded rules have the same first occurrences.
* `Registry.Repeats.settleAt_eq` — the same becomes of a consequent.
* `Registry.Repeats.build_eq` — **the same network is built.**
-/

namespace FactNet

open GroundState

/-- Whether rules fix their consequent depends on which there are. -/
theorem fixedBy?_congr {α : Type} [Scalar α] {rules rules' : List (GroundedRule α)}
    (h : ∀ g, g ∈ rules ↔ g ∈ rules') : fixedBy? rules = fixedBy? rules' := by
  have hall : ∀ p : GroundedRule α → Bool, rules.all p = rules'.all p := by
    intro p
    rw [Bool.eq_iff_iff, List.all_eq_true, List.all_eq_true]
    exact forall_congr' fun g => by rw [h]
  rw [fixedBy?, hall, hall, ← fixedBy?]

theorem GroundState.weightedGroundingOf_congr {α : Type} [Scalar α] [Numeral α]
    {s s' : GroundState α} (h : s.literals = s'.literals) :
    s.weightedGroundingOf = s'.weightedGroundingOf := by
  have hnumber : s.numberOf = s'.numberOf := by
    funext l
    rw [numberOf, numberOf, h]
  funext c
  rw [weightedGroundingOf, weightedGroundingOf, groundingOf, groundingOf, hnumber]

namespace Registry

variable {α : Type} [Scalar α] [Numeral α] {r r' : Registry α}

/-- Every grounded rule is told to be itself, which a number that is none would keep it from. -/
def Reflexive (r : Registry α) : Prop := ∀ g ∈ r.groundAll.1.groundings.toList, (g == g) = true

namespace Repeats

/-- **The variables are the same.** -/
theorem literals_eq (h : r.Repeats r') : r.groundAll.1.literals = r'.groundAll.1.literals := by
  refine Array.toList_inj.1 ?_
  rw [literals_groundAll, literals_groundAll, eraseDups_eq_firsts, eraseDups_eq_firsts]
  exact h.toAlike.mentioned likeness_firsts

/-- Grounded rules have the same first occurrences. -/
theorem groundings (h : r.Repeats r') : firsts r.groundAll.1.groundings.toList =
    firsts r'.groundAll.1.groundings.toList := by
  obtain ⟨-, -, hgroundings⟩ := r.groundings_groundAll
  obtain ⟨-, -, hgroundings'⟩ := r'.groundings_groundAll
  rw [hgroundings, hgroundings', weightedGroundingOf_congr h.literals_eq]
  exact likeness_firsts.filterMap (h.toAlike.clauses likeness_firsts) _

/-- So have those of one consequent. -/
theorem rulesOf (h : r.Repeats r') (i : Nat) : firsts (r.rulesOf i) = firsts (r'.rulesOf i) :=
  likeness_firsts.filter h.groundings _

theorem consequents_eq (h : r.Repeats r') : r.consequents = r'.consequents := by
  rw [consequents, consequents, eraseDups_eq_firsts, eraseDups_eq_firsts]
  exact likeness_firsts.map h.groundings _

/-- **The evidence is read in the same way**, where it gives no literal two values. -/
theorem evidenceOf_eq (h : r.Repeats r') (hconsistent : r.Consistent) :
    r.evidenceOf = r'.evidenceOf := by
  have hnumber : r.groundAll.1.numberOf = r'.groundAll.1.numberOf := by
    funext l
    rw [numberOf, numberOf, h.literals_eq]
  rw [Registry.evidenceOf_eq, Registry.evidenceOf_eq]
  refine Pairs.collapse_congr ?_ hconsistent.eq_of_mem
  rw [hnumber]
  exact likeness_firsts.map h.evidence _

omit [Numeral α] in
theorem makeFactors_eq (h : r.Repeats r') (text : String) {rules rules' : List (GroundedRule α)}
    (hrules : rules.eraseDups = rules'.eraseDups) :
    r.makeFactors text rules = r'.makeFactors text rules' := by
  have htable : r.tableOf text = r'.tableOf text := by
    funext rules
    rw [tableOf, tableOf, h.method_eq, h.defaultPrior_eq]
  rw [makeFactors, makeFactors, hrules, h.defaultPrior_eq, htable]

/-- **The same becomes of a consequent.** -/
theorem settleAt_eq (h : r.Repeats r') (hconsistent : r.Consistent) (hreflexive : r.Reflexive)
    (i : Nat) : r.settleAt i = r'.settleAt i := by
  have hfixed : fixedBy? (r.rulesOf i) = fixedBy? (r'.rulesOf i) :=
    fixedBy?_congr (mem_iff_of_firsts_eq (h.rulesOf i))
  have hkept : (r.rulesOf i).eraseDups = (r'.rulesOf i).eraseDups :=
    eraseDups_congr (h.rulesOf i) fun g hg => hreflexive g (List.mem_of_mem_filter hg)
  unfold settleAt settle
  rw [h.evidenceOf_eq hconsistent, h.literals_eq, hfixed, h.makeFactors_eq _ hkept]

/-- **The same network is built.** -/
theorem build_eq (h : r.Repeats r') (hconsistent : r.Consistent) (hreflexive : r.Reflexive) :
    r.build.map (·.1) = r'.build.map (·.1) := by
  have hsettle : r.settleAt = r'.settleAt := funext (h.settleAt_eq hconsistent hreflexive)
  have hassemble : r.assemble = r'.assemble := by
    funext settled
    rw [assemble, assemble, h.literals_eq, h.evidenceOf_eq hconsistent, h.hillClimb_eq,
      h.threads_eq]
  have hsettled : r.consequents.mapM (fun i => (r.settleAt i).map fun o => (i, o)) =
      r'.consequents.mapM fun i => (r'.settleAt i).map fun o => (i, o) := by
    rw [h.consequents_eq, hsettle]
  cases heach : r'.consequents.mapM fun i => (r'.settleAt i).map fun o => (i, o) with
  | error e => rw [build_of_unsettled (hsettled.trans heach), build_of_unsettled heach]
  | ok settled =>
    -- only what there is to tell can differ
    rw [build_of_settled (hsettled.trans heach), build_of_settled heach, hassemble]
    cases r'.assemble settled <;> simp only [Except.map]

end Repeats

end Registry

end FactNet
