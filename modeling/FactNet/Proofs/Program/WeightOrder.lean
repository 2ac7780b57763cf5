import Mathlib
import FactNet.Program.Acyclic
import FactNet.Proofs.Double

/-!
# Rules in the order of their weights

The rules of a program are considered by weight, heavier rules first or last.  As long as every
weight is a number this is an order, and it is the only one that keeps rules of one weight
as the program has them.

## Main definitions

* `Program.IsWeightOrder` — an order of rules by weight in which equal weights keep their order.

## Main results

* `filter_mergeSort` — elements that compare equal keep their order.
* `Program.isWeightOrder_byWeight` — **rules are considered by weight.**
-/

namespace FactNet

/-- Sorting does not change the order of elements each of which may stand before the other. -/
theorem filter_mergeSort {β : Type} {le : β → β → Bool}
    (htrans : ∀ a b c, le a b = true → le b c = true → le a c = true)
    (htotal : ∀ a b, (le a b || le b a) = true) {tied : β → Bool}
    (htied : ∀ a b, tied a = true → tied b = true → le a b = true) (xs : List β) :
    (xs.mergeSort le).filter tied = xs.filter tied := by
  have hpairwise : (xs.filter tied).Pairwise fun a b => le a b = true := by
    refine List.pairwise_of_forall_mem_list ?_
    intro a ha b hb
    exact htied a b (List.of_mem_filter ha) (List.of_mem_filter hb)
  have hsublist : (xs.filter tied).Sublist ((xs.mergeSort le).filter tied) := by
    have h := (List.sublist_mergeSort htrans htotal hpairwise List.filter_sublist).filter tied
    rwa [List.filter_filter, List.filter_congr fun a _ => Bool.and_self (tied a)] at h
  have hlength := ((List.mergeSort_perm xs le).filter tied).length_eq
  exact (hsublist.eq_of_length hlength.symm).symm

namespace Program

/-- An order of the rules of a program by weight, in which rules of one weight keep their order. -/
structure IsWeightOrder (descending : Bool) (rules : List (Rule Float))
    (order : List (Nat × Rule Float)) : Prop where
  perm : order.Perm (placed rules)
  sorted : order.Pairwise fun x y =>
    if descending then y.2.weight ≤ x.2.weight else x.2.weight ≤ y.2.weight
  stable : ∀ r ∈ rules, (order.filter fun x => x.2.weight == r.weight) =
    (placed rules).filter fun x => x.2.weight == r.weight

/-- Whether a rule may be considered before another, by the ranks of their weights. -/
def mayPrecede (descending : Bool) (x y : Nat × Rule Float) : Bool :=
  if descending then Double.rank y.2.weight ≤ Double.rank x.2.weight
  else Double.rank x.2.weight ≤ Double.rank y.2.weight

theorem mayPrecede_trans (descending : Bool) (x y z : Nat × Rule Float)
    (hxy : mayPrecede descending x y = true) (hyz : mayPrecede descending y z = true) :
    mayPrecede descending x z = true := by
  unfold mayPrecede at *
  cases descending with
  | true =>
    simp only [if_true, decide_eq_true_eq] at *
    exact le_trans hyz hxy
  | false =>
    simp only [Bool.false_eq_true, if_false, decide_eq_true_eq] at *
    exact le_trans hxy hyz

theorem mayPrecede_total (descending : Bool) (x y : Nat × Rule Float) :
    (mayPrecede descending x y || mayPrecede descending y x) = true := by
  unfold mayPrecede
  cases descending with
  | true => simpa using le_total _ _
  | false => simpa using le_total _ _

theorem mem_rules_of_mem_placed {rules : List (Rule Float)} {x : Nat × Rule Float}
    (hx : x ∈ placed rules) : x.2 ∈ rules := by
  obtain ⟨y, hy, rfl⟩ := List.mem_map.mp hx
  exact List.fst_mem_of_mem_zipIdx hy

variable {rules : List (Rule Float)}

/-- Weights that are numbers are sorted by their ranks. -/
theorem byWeight_eq (hweights : ∀ r ∈ rules, r.weight.isNaN = false) (descending : Bool) :
    byWeight descending rules = (placed rules).mergeSort (mayPrecede descending) := by
  have hsame := List.map_mergeSort (f := id) (l := placed rules) (s := mayPrecede descending)
    (r := fun x y => if descending then !decide (x.2.weight < y.2.weight)
      else !decide (y.2.weight < x.2.weight)) ?_
  · rwa [List.map_id, List.map_id] at hsame
  · intro x hx y hy
    have hx' := hweights x.2 (mem_rules_of_mem_placed hx)
    have hy' := hweights y.2 (mem_rules_of_mem_placed hy)
    unfold mayPrecede
    cases descending with
    | true => simp [Double.lt_iff hx' hy', ← decide_not]
    | false => simp [Double.lt_iff hy' hx', ← decide_not]

/-- **Rules are considered by weight**, if every weight is a number. -/
theorem isWeightOrder_byWeight (hweights : ∀ r ∈ rules, r.weight.isNaN = false)
    (descending : Bool) : IsWeightOrder descending rules (byWeight descending rules) := by
  have hperm : (byWeight descending rules).Perm (placed rules) := List.mergeSort_perm _ _
  have hnumber : ∀ x ∈ byWeight descending rules, x.2.weight.isNaN = false := fun x hx =>
    hweights x.2 (mem_rules_of_mem_placed (hperm.mem_iff.mp hx))
  refine ⟨hperm, ?_, fun r hr => ?_⟩
  · have hsorted := List.pairwise_mergeSort (mayPrecede_trans descending)
      (mayPrecede_total descending) (placed rules)
    rw [← byWeight_eq hweights] at hsorted
    refine hsorted.imp_of_mem ?_
    intro x y hx hy hxy
    unfold mayPrecede at hxy
    cases descending with
    | true => simpa [Double.le_iff (hnumber y hy) (hnumber x hx)] using hxy
    | false => simpa [Double.le_iff (hnumber x hx) (hnumber y hy)] using hxy
  · -- rules of the weight of `r` are those of its rank
    have htied : ∀ x ∈ placed rules,
        (x.2.weight == r.weight) = decide (Double.rank x.2.weight = Double.rank r.weight) := by
      intro x hx
      rw [Bool.eq_iff_iff, decide_eq_true_iff]
      exact Double.beq_iff (hweights x.2 (mem_rules_of_mem_placed hx)) (hweights r hr)
    rw [List.filter_congr fun x hx => htied x (hperm.mem_iff.mp hx), List.filter_congr htied,
      byWeight_eq hweights]
    refine filter_mergeSort (mayPrecede_trans descending) (mayPrecede_total descending) ?_ _
    intro x y hx hy
    rw [decide_eq_true_iff] at hx hy
    unfold mayPrecede
    rw [hx, hy]
    simp

end Program

end FactNet
