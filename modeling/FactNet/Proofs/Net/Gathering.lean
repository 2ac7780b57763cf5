import Mathlib
import FactNet.Net.Search
import FactNet.Proofs.Attempts
import FactNet.Proofs.Net.Fixed
import FactNet.Proofs.Ranked

/-!
# Chains that end in any order

Chains run apart and meet only when they end, and they can end in any order.  Of what has been found
the better is kept when a chain arrives, and of two equally good finds that of the chain with the
smaller number.  So whatever the order in which they arrive, the find that is kept at the end is
the best of all, the first of several; and it is never missing, not even where every score is the
lowest there is.

Marginals are put in the order of the chains before they are added up, so their order of arrival
does not count either, whatever is lost by rounding.

All of this asks of scores only that they can be compared, as doubles can unless they are no
numbers.

## Main definitions

* `IsBest` — a find is the best of some, and the first of those.
* `Sampler.found` — what a chain has found.

## Main results

* `IsBest.absorb` — **what is kept when a chain arrives is the best so far.**
* `exists_isBest`, `IsBest.foldl_absorb_of_perm` — so it is after all of them, in whatever order.
* `averaged_eq` — **marginals are added up in the order of the chains.**
* `gathered_in_any_order` — **answers do not depend on the order in which chains end.**
-/

namespace FactNet

open Scalar

/-! ### The best find -/

section Best

variable {α β : Type} [Scalar α] [LinearOrder β] {rank : α → β} {P : α → Prop}

/-- A find is the best of some: none has a greater score, and of those with an equal one it has the
smallest number. -/
structure IsBest (finds : List (ChainBest α)) (best : ChainBest α) : Prop where
  mem : best ∈ finds
  none_above : ∀ c ∈ finds, ¬best.score < c.score
  first : ∀ c ∈ finds, (c.score == best.score) = true → best.chain ≤ c.chain

theorem IsBest.perm {finds finds' : List (ChainBest α)} (h : finds.Perm finds')
    {best : ChainBest α} (hbest : IsBest finds best) : IsBest finds' best where
  mem := h.mem_iff.1 hbest.mem
  none_above c hc := hbest.none_above c (h.mem_iff.2 hc)
  first c hc := hbest.first c (h.mem_iff.2 hc)

/-- A best find has the greatest rank. -/
theorem IsBest.rank_le (hrank : Ranked rank P) {finds : List (ChainBest α)}
    (hP : ∀ c ∈ finds, P c.score) {best : ChainBest α} (h : IsBest finds best) {c : ChainBest α}
    (hc : c ∈ finds) : rank c.score ≤ rank best.score :=
  not_lt.1 fun hlt => h.none_above c hc ((hrank.lt_iff (hP _ h.mem) (hP c hc)).2 hlt)

/-- Where chains have different numbers there is one best find. -/
theorem IsBest.unique (hrank : Ranked rank P) {finds : List (ChainBest α)}
    (hP : ∀ c ∈ finds, P c.score) (hnodup : (finds.map (·.chain)).Nodup)
    {best best' : ChainBest α} (h : IsBest finds best) (h' : IsBest finds best') :
    best' = best := by
  have hsame : rank best'.score = rank best.score :=
    le_antisymm (h.rank_le hrank hP h'.mem) (h'.rank_le hrank hP h.mem)
  have hle := h.first _ h'.mem ((hrank.beq_iff (hP _ h'.mem) (hP _ h.mem)).2 hsame)
  have hle' := h'.first _ h.mem ((hrank.beq_iff (hP _ h.mem) (hP _ h'.mem)).2 hsame.symm)
  exact List.inj_on_of_nodup_map hnodup h'.mem h.mem (Nat.le_antisymm hle' hle)

/-- The first find that arrives is kept. -/
theorem absorb_none (hrank : Ranked rank P) {c : ChainBest α} (hc : P c.score) :
    absorb none c = some c :=
  if_pos (hrank.bottom_le hc)

/-- A newcomer is the best if it is better than the best so far, or as good and of a chain with a
smaller number. -/
theorem IsBest.concat_newcomer (hrank : Ranked rank P) {finds : List (ChainBest α)}
    {c : ChainBest α} (hP : ∀ c' ∈ finds ++ [c], P c'.score) {best : ChainBest α}
    (h : IsBest finds best) (hbetter : rank best.score < rank c.score ∨
      rank c.score = rank best.score ∧ c.chain < best.chain) : IsBest (finds ++ [c]) c := by
  obtain ⟨hPfinds, hPc⟩ := List.forall_mem_append.1 hP
  rw [List.forall_mem_singleton] at hPc
  have hle : ∀ c' ∈ finds, rank c'.score ≤ rank best.score := fun c' hc' =>
    h.rank_le hrank hPfinds hc'
  refine ⟨by simp, fun c' hc' => ?_, fun c' hc' heq => ?_⟩
  · rw [hrank.lt_iff hPc (hP c' hc')]
    rcases List.mem_append.1 hc' with hc' | hc'
    · rcases hbetter with hlt | ⟨heq, -⟩
      · exact ((hle c' hc').trans_lt hlt).not_gt
      · exact heq ▸ (hle c' hc').not_gt
    · obtain rfl := List.mem_singleton.1 hc'
      exact lt_irrefl _
  · rw [hrank.beq_iff (hP c' hc') hPc] at heq
    rcases List.mem_append.1 hc' with hc' | hc'
    · rcases hbetter with hlt | ⟨hsame, hchain⟩
      · exact absurd heq ((hle c' hc').trans_lt hlt).ne
      · have hfirst : best.chain ≤ c'.chain :=
          h.first c' hc' ((hrank.beq_iff (hPfinds c' hc') (hPfinds _ h.mem)).2 (heq.trans hsame))
        exact hchain.le.trans hfirst
    · obtain rfl := List.mem_singleton.1 hc'
      exact le_rfl

/-- The best so far stays the best if a newcomer is not better, nor as good and of a chain with a
smaller number. -/
theorem IsBest.concat_of_not_lt {finds : List (ChainBest α)} {c best : ChainBest α}
    (h : IsBest finds best) (hlt : ¬best.score < c.score)
    (hfirst : ¬((c.score == best.score) = true ∧ c.chain < best.chain)) :
    IsBest (finds ++ [c]) best := by
  refine ⟨List.mem_append_left _ h.mem, fun c' hc' => ?_, fun c' hc' heq => ?_⟩
  · rcases List.mem_append.1 hc' with hc' | hc'
    · exact h.none_above c' hc'
    · obtain rfl := List.mem_singleton.1 hc'
      exact hlt
  · rcases List.mem_append.1 hc' with hc' | hc'
    · exact h.first c' hc' heq
    · obtain rfl := List.mem_singleton.1 hc'
      exact Nat.le_of_not_lt fun hchain => hfirst ⟨heq, hchain⟩

/-- **What is kept when a chain arrives is the best so far.** -/
theorem IsBest.absorb (hrank : Ranked rank P) {finds : List (ChainBest α)} {c : ChainBest α}
    (hP : ∀ c' ∈ finds ++ [c], P c'.score) {best : ChainBest α} (h : IsBest finds best) :
    ∃ best', absorb (some best) c = some best' ∧ IsBest (finds ++ [c]) best' := by
  have hPc : P c.score := hP c (by simp)
  have hPbest : P best.score := hP best (List.mem_append_left _ h.mem)
  unfold FactNet.absorb
  dsimp only
  split
  · next hbetter =>
    rw [Bool.or_eq_true, Bool.and_eq_true, decide_eq_true_iff, decide_eq_true_iff,
      hrank.lt_iff hPbest hPc, hrank.beq_iff hPc hPbest] at hbetter
    exact ⟨c, rfl, h.concat_newcomer hrank hP hbetter⟩
  · next hkept =>
    rw [Bool.or_eq_true, Bool.and_eq_true, decide_eq_true_iff, decide_eq_true_iff] at hkept
    obtain ⟨hlt, hfirst⟩ := not_or.1 hkept
    exact ⟨best, rfl, h.concat_of_not_lt hlt hfirst⟩

/-- So it is however many arrive. -/
theorem IsBest.foldl_absorb (hrank : Ranked rank P) {finds arrivals : List (ChainBest α)}
    (hP : ∀ c ∈ finds ++ arrivals, P c.score) {best : ChainBest α} (h : IsBest finds best) :
    ∃ best', arrivals.foldl FactNet.absorb (some best) = some best' ∧
      IsBest (finds ++ arrivals) best' := by
  induction arrivals generalizing finds best with
  | nil => exact ⟨best, rfl, by rwa [List.append_nil]⟩
  | cons c arrivals ih =>
    rw [List.append_cons] at hP ⊢
    obtain ⟨best', habsorb, hbest'⟩ := h.absorb hrank fun c' hc' =>
      hP c' (List.mem_append_left _ hc')
    rw [List.foldl_cons, habsorb]
    exact ih hP hbest'

/-- **The find that is kept at the end is the best of all.** -/
theorem exists_isBest (hrank : Ranked rank P) {arrivals : List (ChainBest α)}
    (hne : arrivals ≠ []) (hP : ∀ c ∈ arrivals, P c.score) :
    ∃ best, arrivals.foldl absorb none = some best ∧ IsBest arrivals best := by
  obtain ⟨c, rest, rfl⟩ := List.exists_cons_of_ne_nil hne
  have hfirst : IsBest [c] c := by
    refine ⟨List.mem_singleton_self c, fun c' hc' => ?_, fun c' hc' _ => ?_⟩
    · obtain rfl := List.mem_singleton.1 hc'
      have hc := hP c' List.mem_cons_self
      rw [hrank.lt_iff hc hc]
      exact lt_irrefl _
    · obtain rfl := List.mem_singleton.1 hc'
      exact le_rfl
  rw [List.foldl_cons, absorb_none hrank (hP c List.mem_cons_self)]
  exact hfirst.foldl_absorb hrank hP

/-- **So it is in whatever order they arrive.** -/
theorem IsBest.foldl_absorb_of_perm (hrank : Ranked rank P) {finds arrivals : List (ChainBest α)}
    (hnodup : (finds.map (·.chain)).Nodup) (hP : ∀ c ∈ finds, P c.score) {best : ChainBest α}
    (h : IsBest finds best) (hperm : arrivals.Perm finds) :
    arrivals.foldl FactNet.absorb none = some best := by
  have hne : arrivals ≠ [] := by
    rintro rfl
    exact absurd h.mem (by simp [List.nil_perm.1 hperm])
  obtain ⟨best', hfold, hbest'⟩ := exists_isBest hrank hne fun c hc => hP c (hperm.mem_iff.1 hc)
  rw [hfold, h.unique hrank hP hnodup (hbest'.perm hperm)]

end Best

/-! ### Means over chains -/

section Means

variable {α : Type} [Scalar α]

/-- **Marginals are added up in the order of the chains**, whatever the order in which they arrive. -/
theorem averaged_eq (n : Nat) (rows : List (List α)) {arrivals : List (Nat × List α)}
    (h : arrivals.Perm (rows.zipIdx.map fun e => (e.2, e.1))) :
    averaged n arrivals = (rows.foldl addRows (List.replicate n zero)).map
      fun x => clampUnit (x / nat rows.length) := by
  set numbered := rows.zipIdx.map fun e => (e.2, e.1) with hnumbered
  have hkeys : numbered.map Prod.fst = List.range rows.length := by
    rw [hnumbered, List.map_map, List.range_eq_range']
    exact List.zipIdx_map_snd 0 rows
  have hrows : numbered.map Prod.snd = rows := by
    rw [hnumbered, List.map_map]
    exact List.zipIdx_map_fst 0 rows
  have hsorted : numbered.Pairwise fun a b => (decide (a.1 ≤ b.1)) = true := by
    have hrange : (numbered.map Prod.fst).Pairwise (· < ·) := hkeys ▸ List.pairwise_lt_range
    exact (List.pairwise_map.1 hrange).imp fun h => decide_eq_true h.le
  -- sorting is by number alone, which is enough because no two chains have the same one
  have hsort : arrivals.mergeSort (fun a b => a.1 ≤ b.1) = numbered := by
    refine List.Perm.eq_of_pairwise ?_ (List.pairwise_mergeSort ?_ ?_ _) hsorted
      ((List.mergeSort_perm _ _).trans h)
    · intro a b ha hb hab hba
      have hb' : b ∈ numbered := hb
      have ha' : a ∈ numbered := h.mem_iff.1 (List.mem_mergeSort.1 ha)
      have hnodup : (numbered.map Prod.fst).Nodup := hkeys ▸ List.nodup_range
      exact List.inj_on_of_nodup_map hnodup ha' hb'
        (Nat.le_antisymm (of_decide_eq_true hab) (of_decide_eq_true hba))
    · intro a b c hab hbc
      exact decide_eq_true ((of_decide_eq_true hab).trans (of_decide_eq_true hbc))
    · intro a b
      simpa using Nat.le_total a.1 b.1
  have hlength : arrivals.length = rows.length := by
    rw [h.length_eq, hnumbered, List.length_map, List.length_zipIdx]
  unfold averaged
  dsimp only
  rw [hsort, hlength, ← List.foldl_map (f := Prod.snd) (g := addRows), hrows]

omit [Scalar α] in
/-- The rows of some chains, each with its number. -/
theorem map_range_eq_zipIdx (f : Nat → List α) (n : Nat) :
    ((List.range n).map fun i => (i, f i)) =
      ((List.range n).map f).zipIdx.map fun e => (e.2, e.1) := by
  refine List.ext_getElem (by simp) fun i h h' => ?_
  simp

end Means

/-! ### Answers -/

namespace Sampler

variable {σ α β : Type} [Scalar α] [LinearOrder β] {rank : α → β} {P : α → Prop}

/-- What a chain has found. -/
def found (i : Nat) (s : Sampler σ α) : ChainBest α :=
  ⟨i, s.bestScore, s.best⟩

/-- Keeping the better world keeps a score that is ranked. -/
theorem ranked_trackBest (hrank : Ranked rank P) (mode : Mode) {s : Sampler σ α}
    (h : P s.bestScore) : P (trackBest mode s).bestScore := by
  unfold trackBest
  split
  · next hbetter =>
    rw [Bool.and_eq_true, decide_eq_true_iff] at hbetter
    exact hrank.of_lt hbetter.2
  · exact h

variable [RandomStream σ α] {net : BayesNet α} {mode : Mode}

theorem ranked_restart (hrank : Ranked rank P) (mode : Mode) {s : Sampler σ α}
    (h : P s.bestScore) : P (s.restart net mode).bestScore := by
  obtain ⟨t, ht, hscore, -⟩ := s.restart_eq_trackBest mode net
  rw [ht]
  exact ranked_trackBest hrank mode (hscore ▸ h)

/-- **The best score is always ranked**, even if the current one is no number. -/
theorem ranked_bestScore (hrank : Ranked rank P) (stream : σ) (ms : List Move) :
    P ((start net mode stream).afterAll net mode ms).bestScore := by
  refine afterAll_induction (P := fun s => P s.bestScore) (fun s m hs => ?_) ?_ ms
  · rcases s.after_cases net mode m with ⟨-, hscore, -⟩ | ⟨t, ht, hscore, -⟩
    · rwa [hscore]
    · rw [ht]
      exact ranked_trackBest hrank mode (hscore ▸ hs)
  · unfold start
    exact ranked_restart hrank mode hrank.bottom

end Sampler

namespace BayesNet

variable {σ α : Type} [Scalar α] [RandomStream σ α] {net : BayesNet α} {streams : Nat → σ}
  {iters : Nat} {results : Nat → Sampler σ α}

/-- A chain that has come to its end has made the moves of a run. -/
theorem chain_ok {mode : Mode} {stream : σ} {s : Sampler σ α}
    (h : net.chain mode stream iters = .ok s) :
    s = (Sampler.start net mode stream).afterAll net mode (runMoves net mode 0 iters) := by
  unfold chain Sampler.start? at h
  cases hworld : net.fixedWorld? with
  | error e =>
    rw [hworld] at h
    cases h
  | ok w =>
    rw [hworld] at h
    dsimp only at h
    split at h
    · cases h
    · next hrun =>
      cases h
      have hmoves := Sampler.run_ok hrun
      rwa [Sampler.start_steps] at hmoves

/-- The answer of chains that have found something. -/
theorem gibbsMapFrom_eq (hadj : net.adjustable.isEmpty = false)
    (hchains : ∀ i < net.threads, net.chain .search (streams i) iters = .ok (results i))
    {best : ChainBest α}
    (hbest : ((List.range net.threads).map fun i => (results i).found i).foldl absorb none =
      some best) :
    net.gibbsMapFrom streams iters = .ok (⟨net.literalValues best.world, best.score⟩, []) := by
  have hfinds : ((List.range net.threads).mapM fun i => do
      let s ← net.chain .search (streams i) iters
      return (⟨i, s.bestScore, s.best⟩ : ChainBest α)) =
        .ok ((List.range net.threads).map fun i => (results i).found i) :=
    mapM_eq_ok fun i hi => by
      rw [hchains i (List.mem_range.1 hi)]
      rfl
  unfold gibbsMapFrom
  rw [if_neg (by simp [hadj]), hfinds]
  dsimp only [bind, Except.bind]
  rw [hbest]

/-- The answer of chains that estimate. -/
theorem gibbsMarginalsFrom_eq (hadj : net.adjustable.isEmpty = false)
    (hchains : ∀ i < net.threads, net.chain .estimate (streams i) iters = .ok (results i)) :
    net.gibbsMarginalsFrom streams iters = .ok (Pairs.collapse (net.literals.toList.zip
      (averaged net.literals.size
        ((List.range net.threads).map fun i => (i, (results i).marginals)))), []) := by
  have hrows : ((List.range net.threads).mapM fun i => do
      let s ← net.chain .estimate (streams i) iters
      return (i, s.marginals)) =
        .ok ((List.range net.threads).map fun i => (i, (results i).marginals)) :=
    mapM_eq_ok fun i hi => by
      rw [hchains i (List.mem_range.1 hi)]
      rfl
  unfold gibbsMarginalsFrom
  rw [if_neg (by simp [hadj]), hrows]
  rfl

/-- **What is found together is the best of what the chains have found.** -/
theorem exists_isBest_of_chains {β : Type} [LinearOrder β] {rank : α → β} {P : α → Prop}
    (hrank : Ranked rank P) (hadj : net.adjustable.isEmpty = false) (hthreads : 0 < net.threads)
    (hchains : ∀ i < net.threads, net.chain .search (streams i) iters = .ok (results i)) :
    ∃ best, IsBest ((List.range net.threads).map fun i => (results i).found i) best ∧
      net.gibbsMapFrom streams iters = .ok (⟨net.literalValues best.world, best.score⟩, []) ∧
      (∀ c ∈ (List.range net.threads).map fun i => (results i).found i, P c.score) := by
  have hP : ∀ c ∈ (List.range net.threads).map fun i => (results i).found i, P c.score := by
    intro c hc
    obtain ⟨i, hi, rfl⟩ := List.mem_map.1 hc
    rw [Sampler.found, chain_ok (hchains i (List.mem_range.1 hi))]
    exact Sampler.ranked_bestScore hrank _ _
  have hne : ((List.range net.threads).map fun i => (results i).found i) ≠ [] := by
    simpa using hthreads.ne'
  obtain ⟨best, hfold, hbest⟩ := exists_isBest hrank hne hP
  exact ⟨best, hbest, gibbsMapFrom_eq hadj hchains hfold, hP⟩

end BayesNet

/-- **Answers do not depend on the order in which chains end.**

Of finds with scores that can be compared, one for each chain, one is the best and the first of
those, and it is the one that is kept, in whatever order they arrive.  Marginals that arrive in
any order are added up in that of the chains.  So the best world that is told is what the best
chain has found, and the marginals that are told are the means over the chains. -/
theorem gathered_in_any_order {α β : Type} [Scalar α] [LinearOrder β] {rank : α → β}
    {P : α → Prop} (hrank : Ranked rank P) :
    (∀ finds : List (ChainBest α), finds ≠ [] → (finds.map (·.chain)).Nodup →
      (∀ c ∈ finds, P c.score) → ∃ best, (∀ c, IsBest finds c ↔ c = best) ∧
        ∀ arrivals : List (ChainBest α), arrivals.Perm finds →
          arrivals.foldl absorb none = some best) ∧
    (∀ (n : Nat) (rows : List (List α)) (arrivals : List (Nat × List α)),
      arrivals.Perm (rows.zipIdx.map fun e => (e.2, e.1)) →
        averaged n arrivals = (rows.foldl addRows (List.replicate n zero)).map
          fun x => clampUnit (x / nat rows.length)) ∧
    ∀ {σ : Type} [RandomStream σ α] (net : BayesNet α) (streams : Nat → σ) (iters : Nat)
      (results : Nat → Sampler σ α), net.adjustable.isEmpty = false → 0 < net.threads →
      ((∀ i < net.threads, net.chain .search (streams i) iters = .ok (results i)) →
        ∃ best, IsBest ((List.range net.threads).map fun i => (results i).found i) best ∧
          net.gibbsMapFrom streams iters =
            .ok (⟨net.literalValues best.world, best.score⟩, []) ∧
          ∀ arrivals : List (ChainBest α),
            arrivals.Perm ((List.range net.threads).map fun i => (results i).found i) →
              arrivals.foldl absorb none = some best) ∧
      ((∀ i < net.threads, net.chain .estimate (streams i) iters = .ok (results i)) →
        ∀ arrivals : List (Nat × List α),
          arrivals.Perm ((List.range net.threads).map fun i => (i, (results i).marginals)) →
            net.gibbsMarginalsFrom streams iters = .ok (Pairs.collapse
              (net.literals.toList.zip (averaged net.literals.size arrivals)), [])) := by
  refine ⟨fun finds hne hnodup hP => ?_, fun n rows arrivals h => averaged_eq n rows h, ?_⟩
  · obtain ⟨best, hfold, hbest⟩ := exists_isBest hrank hne hP
    refine ⟨best, fun c => ⟨hbest.unique hrank hP hnodup, ?_⟩, fun arrivals hperm =>
      hbest.foldl_absorb_of_perm hrank hnodup hP hperm⟩
    rintro rfl
    exact hbest
  · intro σ _ net streams iters results hadj hthreads
    refine ⟨fun hchains => ?_, fun hchains arrivals hperm => ?_⟩
    · obtain ⟨best, hbest, hanswer, hP⟩ :=
        BayesNet.exists_isBest_of_chains hrank hadj hthreads hchains
      refine ⟨best, hbest, hanswer, fun arrivals hperm =>
        hbest.foldl_absorb_of_perm hrank ?_ hP hperm⟩
      rw [List.map_map]
      exact (List.map_id _).symm ▸ List.nodup_range
    · rw [BayesNet.gibbsMarginalsFrom_eq hadj hchains]
      rw [map_range_eq_zipIdx (fun i => (results i).marginals)] at hperm ⊢
      rw [averaged_eq _ _ hperm, averaged_eq _ _ (List.Perm.refl _)]

/-- A network with a variable that nothing bears on, asked with two chains. -/
def coinNet : BayesNet Float where
  literals := #[⟨"falls", "Coin", "Heads", true⟩]
  factors := #[]
  priorProbs := #[half]
  fixed := []
  adjustable := #[0]
  touching := #[[]]
  threads := 2

/-- Of two equally good finds, that of the chain with the smaller number is kept, though it comes
last; where all worlds are impossible, that of the first chain; and a network that is asked
gives such an answer. -/
theorem gathered_in_any_order_doubles :
    ([⟨2, one, #[false]⟩, ⟨0, bottom, #[false]⟩, ⟨1, one, #[true]⟩] :
      List (ChainBest Float)).foldl absorb none = some ⟨1, one, #[true]⟩ ∧
    ([⟨1, bottom, #[true]⟩, ⟨0, bottom, #[false]⟩] : List (ChainBest Float)).foldl absorb none =
      some ⟨0, bottom, #[false]⟩ ∧
    averaged 1 [(1, [one]), (0, [(zero : Float)])] = [half] ∧
    ∃ best : ChainBest Float, coinNet.gibbsMap 0 =
      .ok (⟨coinNet.literalValues best.world, best.score⟩, []) := by
  obtain ⟨hfinds, hrows, hnet⟩ := gathered_in_any_order ranked_float
  obtain ⟨best, hbest, harrivals⟩ := hfinds
    [⟨0, bottom, #[false]⟩, ⟨1, one, #[true]⟩, ⟨2, one, #[false]⟩] (List.cons_ne_nil _ _)
    (by decide) (by decide)
  obtain ⟨best', hbest', harrivals'⟩ := hfinds
    [⟨0, bottom, #[false]⟩, ⟨1, bottom, #[true]⟩] (List.cons_ne_nil _ _) (by decide) (by decide)
  have hfirst : (⟨1, one, #[true]⟩ : ChainBest Float) = best :=
    (hbest _).1 ⟨by simp, by decide, by decide⟩
  have hfirst' : (⟨0, bottom, #[false]⟩ : ChainBest Float) = best' :=
    (hbest' _).1 ⟨by simp, by decide, by decide⟩
  refine ⟨?_, ?_, ?_, ?_⟩
  · rw [harrivals _ (List.Perm.trans (List.Perm.swap _ _ _) ((List.Perm.swap _ _ _).cons _)), hfirst]
  · rw [harrivals' _ (List.Perm.swap _ _ _), hfirst']
  · rw [hrows 1 [[zero], [one]] [(1, [one]), (0, [zero])] (List.Perm.swap _ _ _)]
    decide
  · obtain ⟨best, -, hanswer, -⟩ := (hnet coinNet (fun i => MersenneTwister.ofSeed i) 0
      (fun i => Sampler.start coinNet .search (MersenneTwister.ofSeed i)) rfl (by decide)).1
      fun i _ => rfl
    exact ⟨best, hanswer⟩

end FactNet
