import Mathlib
import FactNet.Net.Basic
import FactNet.Proofs.Exact
import FactNet.Proofs.Factor.Locality

/-!
# The factors of a variable

A network lists for every variable the places of the factors that depend on it.  Read at those
places, the factors are exactly those with the variable among their components, each as often
as the network has it.  So the score of a world is the sum of two parts: what the factors of a
variable give it, and what all others give it, and changing the variable changes the first
part only.

## Main definitions

* `BayesNet.factorsOf` — the factors that depend on a variable.
* `BayesNet.WellMade` — a network of parts, over the factors there are.
* `BayesNet.withThreads` — the same network asked with another number of chains.

## Main results

* `BayesNet.WellMade.filterMap_touching` — what the places lead to.
* `BayesNet.score?_eq` — the score of a world in which every factor has a value.
* `BayesNet.score_eq_part_add_rest` — the score in two parts.
* `BayesNet.WellMade.restScore_assign` — the second part does not depend on the variable.
-/

namespace FactNet

namespace BayesNet

variable {α : Type}

/-- The factors that depend on a variable. -/
def factorsOf (net : BayesNet α) (i : Nat) : List (Factor α) :=
  net.factors.toList.filter fun f => f.components.contains i

/-- A network that was made of some parts, over the factors there are. -/
structure WellMade [Scalar α] (net : BayesNet α) : Prop where
  /-- The parts. -/
  ofParts : ∃ literals factors priors fixed hillClimb threads,
    BayesNet.ofParts literals factors priors fixed hillClimb threads = .ok net
  /-- The factors. -/
  made : ∀ f ∈ net.factors.toList, f.Made

/-! ### What the parts make -/

/-- The places of the factors that depend on a variable. -/
def placesOf (factors : List (Factor α)) (i : Nat) : List Nat :=
  (factors.map Factor.components).zipIdx.filterMap fun (vs, j) =>
    if vs.contains i then some j else none

/-- What makes a network of parts: there is a chain, the factors depend on the variables there are,
and the places of the factors are listed for every variable. -/
theorem ofParts_eq_ok [Scalar α] {literals : List Literal} {factors : List (Factor α)}
    {priors : List (Nat × α)} {fixed : List (Nat × Bool)} {hillClimb : Bool} {threads : Int}
    {net : BayesNet α}
    (h : BayesNet.ofParts literals factors priors fixed hillClimb threads = .ok net) :
    net.literals = literals.toArray ∧ net.factors = factors.toArray ∧
      net.touching = ((List.range literals.length).map (placesOf factors)).toArray ∧
      unknownVariable? literals.length factors = none := by
  unfold BayesNet.ofParts at h
  simp only at h
  split at h
  · cases h
  · split at h
    · cases h
    · split at h
      · cases h
      · next hunknown =>
        cases h
        exact ⟨rfl, rfl, rfl, hunknown⟩

/-- The same network asked with another number of chains. -/
def withThreads (net : BayesNet α) (k : Nat) : BayesNet α :=
  { net with threads := k }

/-- A network can be asked with any number of chains above zero. -/
theorem WellMade.withThreads [Scalar α] {net : BayesNet α} (h : net.WellMade) {k : Nat}
    (hk : 0 < k) : (net.withThreads k).WellMade := by
  obtain ⟨literals, factors, priors, fixed, hillClimb, threads, hparts⟩ := h.ofParts
  refine ⟨⟨literals, factors, priors, fixed, hillClimb, k, ?_⟩, h.made⟩
  unfold BayesNet.ofParts at hparts ⊢
  simp only at hparts ⊢
  rw [if_neg (by omega)]
  split at hparts
  · cases hparts
  · split at hparts
    · cases hparts
    · next hfinite =>
      rw [if_neg hfinite]
      split at hparts
      · cases hparts
      · cases hparts
        rfl

/-- There is a chain. -/
theorem WellMade.threads_pos [Scalar α] {net : BayesNet α} (h : net.WellMade) :
    0 < net.threads := by
  obtain ⟨literals, factors, priors, fixed, hillClimb, threads, hparts⟩ := h.ofParts
  unfold BayesNet.ofParts at hparts
  simp only at hparts
  split at hparts
  · cases hparts
  · next hthreads =>
    split at hparts
    · cases hparts
    · split at hparts
      · cases hparts
      · cases hparts
        exact Int.pos_iff_toNat_pos.1 (by omega)

/-- Without an unknown variable, every component is a variable. -/
theorem lt_of_unknownVariable?_eq_none {n : Nat} {factors : List (Factor α)}
    (h : unknownVariable? n factors = none) {f : Factor α} (hf : f ∈ factors) {i : Nat}
    (hi : i ∈ f.components) : i < n := by
  simp only [unknownVariable?, List.findSome?_eq_none_iff, Option.map_eq_none_iff,
    List.find?_eq_none, decide_eq_true_eq, Nat.not_le] at h
  exact h f hf i hi

/-- The factors depend on variables that there are. -/
theorem WellMade.lt_of_mem_components [Scalar α] {net : BayesNet α} (h : net.WellMade)
    {f : Factor α} (hf : f ∈ net.factors.toList) {i : Nat} (hi : i ∈ f.components) :
    i < net.literals.size := by
  obtain ⟨literals, factors, priors, fixed, hillClimb, threads, hparts⟩ := h.ofParts
  obtain ⟨hliterals, hfactors, -, hknown⟩ := ofParts_eq_ok hparts
  rw [hfactors] at hf
  rw [hliterals, List.size_toArray]
  exact lt_of_unknownVariable?_eq_none hknown hf hi

/-- Read at the places of a variable, factors are those that depend on it. -/
theorem filterMap_placesOf (factors : List (Factor α)) (i : Nat) :
    (placesOf factors i).filterMap (fun j => factors[j]?) =
      factors.filter fun f => f.components.contains i := by
  have hplaced : (placesOf factors i).filterMap (fun j => factors[j]?) =
      factors.zipIdx.filterMap fun (f, j) =>
        (if f.components.contains i then some j else none).bind fun j => factors[j]? := by
    rw [placesOf, List.zipIdx_map, List.filterMap_map, List.filterMap_filterMap]
    rfl
  have hread : ∀ e ∈ factors.zipIdx,
      ((if e.1.components.contains i then some e.2 else none).bind fun j => factors[j]?) =
        if e.1.components.contains i then some e.1 else none := by
    intro e he
    have hget : factors[e.2]? = some e.1 := List.mem_zipIdx_iff_getElem?.mp he
    split
    · simpa using hget
    · rfl
  rw [hplaced, List.filterMap_congr hread]
  calc factors.zipIdx.filterMap (fun e => if e.1.components.contains i then some e.1 else none)
      = (factors.zipIdx.map Prod.fst).filterMap
          fun f => if f.components.contains i then some f else none := by
        rw [List.filterMap_map]
        rfl
    _ = factors.filter fun f => f.components.contains i := by
        rw [List.zipIdx_map_fst]
        simp [← List.filterMap_eq_filter, Option.guard_def]

/-- Read at the places a network lists for a variable, its factors are those that depend on it. -/
theorem WellMade.filterMap_touching [Scalar α] {net : BayesNet α} (h : net.WellMade) (i : Nat) :
    (net.touching.getD i []).filterMap (fun j => net.factors[j]?) = net.factorsOf i := by
  obtain ⟨literals, factors, priors, fixed, hillClimb, threads, hparts⟩ := h.ofParts
  obtain ⟨-, hfactors, htouching, hknown⟩ := ofParts_eq_ok hparts
  rw [factorsOf, htouching, hfactors]
  by_cases hi : i < literals.length
  · have hplaces : ((List.range literals.length).map (placesOf factors)).toArray.getD i [] =
        placesOf factors i := by
      simp [Array.getD_eq_getD_getElem?, hi]
    rw [hplaces]
    simpa using filterMap_placesOf factors i
  · -- there is no such variable, and no factor depends on it
    have hplaces : ((List.range literals.length).map (placesOf factors)).toArray.getD i [] = [] := by
      simp [Array.getD_eq_getD_getElem?, hi]
    rw [hplaces, List.filterMap_nil, eq_comm, List.filter_eq_nil_iff]
    intro f hf hmem
    have hmem : i ∈ f.components := by simpa using hmem
    exact hi (lt_of_unknownVariable?_eq_none hknown hf hmem)

/-! ### The score in two parts -/

/-- What the factors at some places give a world, added up. -/
theorem scoreOf_eq (net : BayesNet EReal) (w : World) (places : List Nat) (acc : EReal) :
    net.scoreOf w places acc =
      acc + ((places.filterMap fun j => net.factors[j]?).map fun f => f.logProb w).sum := by
  induction places generalizing acc with
  | nil => simp [scoreOf]
  | cons j js ih =>
    rw [scoreOf]
    split
    · next hj =>
      have hget : net.factors[j]? = some net.factors[j] := Array.getElem?_eq_getElem hj
      rw [ih, List.filterMap_cons_some hget, List.map_cons, List.sum_cons, add_assoc]
    · next hj =>
      have hget : net.factors[j]? = none := Array.getElem?_eq_none (Nat.le_of_not_lt hj)
      rw [ih, List.filterMap_cons_none hget]

theorem score_eq_sum (net : BayesNet EReal) (w : World) :
    net.score w = (net.factors.toList.map fun f => f.logProb w).sum := by
  have hfold := Scalar.foldl_add_eq_sum (net.factors.toList.map fun f => f.logProb w) 0
  rw [List.foldl_map, zero_add] at hfold
  rw [score, ← Array.foldl_toList, Scalar.zero_ereal, hfold]

/-- Values that are added one after another, none of them missing, make their sum. -/
theorem foldl_ok {ε β : Type} {step : Except ε EReal → β → Except ε EReal}
    {value : β → Except ε EReal} (hstep : ∀ acc b, step (.ok acc) b = (value b).map (acc + ·))
    {bs : List β} {xs : List EReal} (h : bs.map value = xs.map .ok) (acc : EReal) :
    bs.foldl step (.ok acc) = .ok (acc + xs.sum) := by
  induction bs generalizing xs acc with
  | nil =>
    rw [List.map_eq_nil_iff.1 h.symm]
    simp
  | cons b bs ih =>
    obtain ⟨x, xs, rfl⟩ : ∃ x rest, xs = x :: rest :=
      List.exists_cons_of_ne_nil fun hnil => by simp [hnil] at h
    rw [List.map_cons, List.map_cons, List.cons.injEq] at h
    rw [List.foldl_cons, hstep, h.1, List.sum_cons, ← add_assoc, ← ih h.2 (acc + x)]
    rfl

/-- Where every factor has a value, the score is their sum. -/
theorem score?_eq {net : BayesNet EReal} {w : World} {xs : List EReal}
    (h : net.factors.toList.map (fun f => f.logProb? w) = xs.map .ok) :
    net.score? w = .ok xs.sum := by
  rw [score?, ← Array.foldl_toList, foldl_ok (fun _ _ => rfl) h, Scalar.zero_ereal, zero_add]

/-- What the factors of a variable give a world. -/
noncomputable def partScore (net : BayesNet EReal) (i : Nat) (w : World) : EReal :=
  ((net.factorsOf i).map fun f => f.logProb w).sum

/-- What the factors that do not depend on a variable give a world. -/
noncomputable def restScore (net : BayesNet EReal) (i : Nat) (w : World) : EReal :=
  ((net.factors.toList.filter fun f => !f.components.contains i).map fun f => f.logProb w).sum

/-- The score is what the factors of a variable give and what the others give. -/
theorem score_eq_part_add_rest (net : BayesNet EReal) (i : Nat) (w : World) :
    net.score w = net.partScore i w + net.restScore i w := by
  rw [score_eq_sum, partScore, restScore, factorsOf, ← List.sum_append, ← List.map_append]
  exact (((List.filter_append_perm (fun f => f.components.contains i) net.factors.toList).map
    fun f => f.logProb w).sum_eq).symm

namespace WellMade

variable {net : BayesNet EReal}

/-- The sum over the places listed for a variable is what its factors give. -/
theorem scoreOf_touching (h : net.WellMade) (i : Nat) (w : World) :
    net.scoreOf w (net.touching.getD i []) 0 = net.partScore i w := by
  rw [scoreOf_eq, zero_add, h.filterMap_touching, partScore]

/-- Changing a variable leaves what the other factors give. -/
theorem restScore_assign (h : net.WellMade) (i : Nat) (w : World) (b : Bool) :
    net.restScore i (w.assign i b) = net.restScore i w := by
  refine congrArg List.sum (List.map_congr_left fun f hf => ?_)
  obtain ⟨hmem, hnot⟩ := List.mem_filter.mp hf
  have hnot : i ∉ f.components := by simpa using hnot
  exact Factor.logProb_assign (h.made f hmem) w hnot b

/-- The score of a world in which a variable has been changed. -/
theorem score_assign (h : net.WellMade) (i : Nat) (w : World) (b : Bool) :
    net.score (w.assign i b) = net.partScore i (w.assign i b) + net.restScore i w := by
  rw [score_eq_part_add_rest net i, h.restScore_assign]

end WellMade

end BayesNet

end FactNet
