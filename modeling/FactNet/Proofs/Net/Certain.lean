import Mathlib
import FactNet.Proofs.Net.BestWorld
import FactNet.Proofs.Net.Steady

/-!
# What a network tells of a fixed variable

A variable that a network fixes has its value in whatever a chain gets to, and so in the best world
that any search tells.  Its marginal is the value as well: every chain finds just that, and the
values of several chains are added up and divided by their number, which loses nothing as long as
that number can be computed with.

A network in which nothing is adjustable is not searched; what it tells is read off its fixed
values.

## Main definitions

* `BayesNet.Fixes` — a network fixes the variable of a literal.

## Main results

* `BayesNet.Fixes.holds` — **whatever a chain gets to, the variable has its value.**
* `BayesNet.Fixes.mem_assignment` — **so does the world that a search tells.**
* `averaged_getElem?` — equal marginals are their own mean.
* `BayesNet.Fixes.exists_gibbsMarginalsFrom` — **the marginal that is told is exactly the value.**
* `BayesNet.WellMade.exists_gibbsMapFrom` — over exact numbers a search always has an answer.
-/

namespace FactNet

open Scalar

/-! ### Means over chains -/

section Means

variable {α : Type} [Scalar α] {x m bound : Nat}

/-- Equal whole numbers are added up without loss. -/
theorem foldl_addRows (hexact : ExactBelow α bound) {rows : List (List α)} {acc : List α} {i : Nat}
    (hrows : ∀ row ∈ rows, row[i]? = some (nat x)) (hacc : acc[i]? = some (nat (x * m)))
    (hbound : x * (m + rows.length) < bound) :
    (rows.foldl addRows acc)[i]? = some (nat (x * (m + rows.length))) := by
  -- of the rows `m` have been added before
  induction rows generalizing acc m with
  | nil => exact hacc
  | cons row rows ih =>
    obtain ⟨hrow, hrows⟩ := List.forall_mem_cons.1 hrows
    have hlength : m + (row :: rows).length = m + 1 + rows.length := by
      rw [List.length_cons]
      omega
    rw [hlength] at hbound ⊢
    have hle : x * m + x ≤ x * (m + 1 + rows.length) := by
      rw [← Nat.mul_succ]
      exact Nat.mul_le_mul_left x (by omega)
    refine ih hrows ?_ hbound
    rw [addRows, List.getElem?_zipWith, hacc, hrow, Nat.mul_succ]
    exact congrArg some (hexact.add (by omega))

/-- **Equal marginals are their own mean.** -/
theorem averaged_getElem? (hexact : ExactBelow α bound) (b : Bool) {n k i : Nat} (hi : i < n)
    (hk : 0 < k) (hbound : k < bound) {rows : Nat → List α}
    (hrows : ∀ j < k, (rows j)[i]? = some (nat b.toNat)) :
    (averaged n ((List.range k).map fun j => (j, rows j)))[i]? = some (nat b.toNat) := by
  have hle : b.toNat * k ≤ k := by
    have := Nat.mul_le_mul_right k (Nat.lt_succ_iff.1 b.toNat_lt)
    omega
  have hall : ∀ row ∈ (List.range k).map rows, row[i]? = some (nat b.toNat) := by
    intro row hrow
    obtain ⟨j, hj, rfl⟩ := List.mem_map.1 hrow
    exact hrows j (List.mem_range.1 hj)
  have hzero : (List.replicate n (zero : α))[i]? = some (nat (b.toNat * 0)) := by
    rw [List.getElem?_replicate, if_pos hi]
    rfl
  have hlength : 0 + ((List.range k).map rows).length = k := by simp
  have hsum := foldl_addRows hexact hall hzero (by rw [hlength]; omega)
  rw [hlength] at hsum
  rw [map_range_eq_zipIdx, averaged_eq n _ (List.Perm.refl _), List.getElem?_map, hsum,
    List.length_map, List.length_range, Option.map_some, hexact.div hk hbound (by omega),
    hexact.clamp]

end Means

/-! ### Answers -/

/-- Of different names that are given a value each, every one is told with its own. -/
theorem Pairs.mem_collapse_zip {κ β : Type} [BEq κ] [LawfulBEq κ] {ks : List κ} (hnodup : ks.Nodup)
    {xs : List β} {i : Nat} {k : κ} {x : β} (hk : ks[i]? = some k) (hx : xs[i]? = some x) (y : β) :
    (k, y) ∈ collapse (ks.zip xs) ↔ y = x := by
  have hkeys : ((ks.zip xs).map Prod.fst).Nodup := by
    rw [List.zip_eq_zip_take_min, List.map_fst_zip (by simp)]
    exact hnodup.sublist (List.take_sublist _ _)
  rw [collapse_eq_self hkeys]
  constructor
  · intro hmem
    obtain ⟨j, hj⟩ := List.mem_iff_getElem?.1 hmem
    obtain ⟨hj, hy⟩ := List.getElem?_zip_eq_some.1 hj
    obtain ⟨hlt, -⟩ := List.getElem?_eq_some_iff.1 hk
    obtain rfl := (List.getElem?_inj hlt hnodup).1 (hk.trans hj.symm)
    exact Option.some_inj.1 (hy.symm.trans hx)
  · rintro rfl
    exact List.mem_iff_getElem?.2 ⟨i, List.getElem?_zip_eq_some.2 ⟨hk, hx⟩⟩

/-- Values by number, each with the name of that number. -/
theorem zipIdx_map_eq_zip {κ β : Type} (ks : List κ) (f : Nat → β) :
    (ks.zipIdx.map fun (k, i) => (k, f i)) = ks.zip ((List.range ks.length).map f) := by
  refine List.ext_getElem (by simp) fun i h h' => ?_
  simp

namespace BayesNet

section Chains

variable {σ α : Type} [Scalar α] [RandomStream σ α] {net : BayesNet α}
  (hadj : net.adjustable.isEmpty = false)
include hadj

/-- What a chain ends with it can get to. -/
theorem reachable_of_chain {mode : Mode} {stream : σ} {iters : Nat} {s : Sampler σ α}
    (hs : net.chain mode stream iters = .ok s) : s.Reachable net mode := by
  rw [chain_ok hs]
  exact Sampler.reachable_afterAll (.start stream) (Sampler.allowed_runMoves hadj 0 iters)

/-- A search that has an answer has chains that have come to their ends. -/
theorem exists_chain_of_answer {streams : Nat → σ} {iters : Nat}
    {answer : MapResult α × List Event} (h : net.gibbsMapFrom streams iters = .ok answer) (j : Nat) :
    ∃ s, j < net.threads → net.chain .search (streams j) iters = .ok s := by
  unfold gibbsMapFrom at h
  rw [if_neg (by simp [hadj])] at h
  cases hfinds : (List.range net.threads).mapM fun i => do
      let s ← net.chain .search (streams i) iters
      return (⟨i, s.bestScore, s.best⟩ : ChainBest α) with
  | error e =>
    rw [hfinds] at h
    cases h
  | ok finds =>
    cases hchain : net.chain .search (streams j) iters with
    | ok s => exact ⟨s, fun _ => rfl⟩
    | error e =>
      refine ⟨Sampler.start net .search (streams j), fun hj => ?_⟩
      obtain ⟨c, -, hc⟩ := exists_of_mapM_eq_ok hfinds (List.mem_range.2 hj)
      rw [hchain] at hc
      cases hc

/-- **A chain that estimates makes the moves of its run.** -/
theorem chain_estimate_eq (hfixed : ∀ e ∈ net.fixed, e.1 < net.literals.size) (stream : σ)
    (iters : Nat) : net.chain .estimate stream iters = .ok ((Sampler.start net .estimate
      stream).afterAll net .estimate (runMoves net .estimate 0 iters)) := by
  have hrun := (Sampler.start net .estimate stream).run_estimate_eq hadj iters
  rw [Sampler.start_steps] at hrun
  unfold chain Sampler.start?
  rw [fixedWorld?_eq hfixed]
  dsimp only
  rw [hrun]

end Chains

variable {α : Type}

/-- A network of different literals fixes the variable of one of them. -/
structure Fixes (net : BayesNet α) (i : Nat) (l : Literal) (b : Bool) : Prop where
  nodup : net.literals.toList.Nodup
  known : ∀ e ∈ net.fixed, e.1 < net.literals.size
  literal : net.literals[i]? = some l
  value : Pairs.last? net.fixed i = some b
  not_adjustable : i ∉ net.adjustable

namespace Fixes

variable {net : BayesNet α} {i : Nat} {l : Literal} {b : Bool}

theorem lt_size (h : net.Fixes i l b) : i < net.literals.size :=
  (Array.getElem?_eq_some_iff.1 h.literal).1

theorem value_fixedWorld (h : net.Fixes i l b) : net.fixedWorld.value i = b := by
  rw [BayesNet.value_fixedWorld net h.lt_size, h.value, Option.getD_some]

/-- Of values by number, the literal is told with that of its number. -/
theorem mem_collapse_iff {β : Type} (h : net.Fixes i l b) {xs : List β} {x : β}
    (hx : xs[i]? = some x) (y : β) :
    (l, y) ∈ Pairs.collapse (net.literals.toList.zip xs) ↔ y = x := by
  refine Pairs.mem_collapse_zip h.nodup ?_ hx y
  rw [Array.getElem?_toList]
  exact h.literal

theorem mem_literalValues (h : net.Fixes i l b) {w : World} (hw : w.value i = b) (v : Bool) :
    (l, v) ∈ net.literalValues w ↔ v = b := by
  rw [literalValues, zipIdx_map_eq_zip]
  exact h.mem_collapse_iff (by simp [h.lt_size, hw]) v

variable [Scalar α] {σ : Type} [RandomStream σ α] [LawfulChoice σ]

/-- **Whatever a chain gets to, the variable has its value**, and so in the best world so far. -/
theorem holds (h : net.Fixes i l b) {mode : Mode} {s : Sampler σ α}
    (hs : s.Reachable net mode) : s.Holds i b :=
  h.value_fixedWorld ▸ hs.holds h.not_adjustable

/-- **A search tells the literal with its value.** -/
theorem mem_assignment {β : Type} [LinearOrder β] {rank : α → β} {P : α → Prop}
    (hrank : Ranked rank P) (h : net.Fixes i l b) (hthreads : 0 < net.threads)
    {streams : Nat → σ} {iters : Nat} {result : MapResult α} {notes : List Event}
    (hanswer : net.gibbsMapFrom streams iters = .ok (result, notes)) (v : Bool) :
    (l, v) ∈ result.assignment ↔ v = b := by
  cases hadj : net.adjustable.isEmpty with
  | true =>
    -- there is no search, and the first world is told
    unfold gibbsMapFrom at hanswer
    rw [if_pos hadj, fixedWorld?_eq h.known] at hanswer
    dsimp only at hanswer
    split at hanswer
    · cases hanswer
    · cases hanswer
      exact h.mem_literalValues h.value_fixedWorld v
  | false =>
    -- the best world is that of one of the chains, which holds on to the value
    choose results hresults using exists_chain_of_answer hadj hanswer
    obtain ⟨best, hbest, hfound, -⟩ := exists_isBest_of_chains hrank hadj hthreads hresults
    rw [hfound] at hanswer
    cases hanswer
    obtain ⟨j, hj, hj'⟩ := List.mem_map.1 hbest.mem
    refine h.mem_literalValues ?_ v
    rw [← hj']
    exact (h.holds (reachable_of_chain hadj (hresults j (List.mem_range.1 hj)))).best

/-- **The marginal that is told of the literal is exactly its value**, for any number of steps. -/
theorem exists_gibbsMarginalsFrom {bound : Nat} (hexact : ExactBelow α bound)
    (hbound : Sampler.restartSteps < bound) (h : net.Fixes i l b) (hthreads : 0 < net.threads)
    (hlt : net.threads < bound) (streams : Nat → σ) (iters : Nat) :
    ∃ marginals notes, net.gibbsMarginalsFrom streams iters = .ok (marginals, notes) ∧
      ∀ p, (l, p) ∈ marginals ↔ p = if b then one else zero := by
  rw [sample_eq]
  cases hadj : net.adjustable.isEmpty with
  | true =>
    refine ⟨_, _, by unfold gibbsMarginalsFrom; rw [if_pos hadj], ?_⟩
    have hzip := zipIdx_map_eq_zip net.literals.toList fun i =>
      (if (Pairs.last? net.fixed i).getD false then one else zero : α)
    dsimp only at hzip ⊢
    rw [hzip]
    refine h.mem_collapse_iff ?_
    simp [h.lt_size, h.value, sample_eq]
  | false =>
    refine ⟨_, _, gibbsMarginalsFrom_eq hadj fun j _ =>
      chain_estimate_eq hadj h.known (streams j) iters, ?_⟩
    refine h.mem_collapse_iff (averaged_getElem? hexact b h.lt_size hthreads hlt fun j _ => ?_)
    have hmarginal := Sampler.marginals_run h.not_adjustable h.lt_size hadj hexact hbound
      (streams j) iters
    rwa [h.value_fixedWorld] at hmarginal

end Fixes

/-- **Over exact numbers a search always has an answer.** -/
theorem WellMade.exists_gibbsMapFrom {σ : Type} [RandomStream σ EReal] {net : BayesNet EReal}
    (h : net.WellMade) (hfixed : ∀ e ∈ net.fixed, e.1 < net.literals.size) (streams : Nat → σ)
    (iters : Nat) : ∃ result notes, net.gibbsMapFrom streams iters = .ok (result, notes) := by
  cases hadj : net.adjustable.isEmpty with
  | true => exact ⟨_, _, gibbsMapFrom_of_fixed h hfixed hadj streams iters⟩
  | false =>
    obtain ⟨score, w, hanswer, -⟩ := exists_bestSeen h hfixed hadj streams iters
    exact ⟨_, _, hanswer⟩

end BayesNet

end FactNet
