import Mathlib
import FactNet.Proofs.Factor.Equivalence
import FactNet.Proofs.Net.Gathering
import FactNet.Proofs.Net.RunningScore
import FactNet.Proofs.Pairs

/-!
# The best world of a search

A chain that searches compares every world it gets to with the best one so far.  Its best score is
therefore the greatest among the worlds it has visited, and several chains together find the
greatest of all they have visited.  A longer run visits what a shorter one visits, and more chains
visit what fewer do, so what is found never gets worse.

A world is kept only when its score exceeds the best one so far, which at first is that of an
impossible world.  So where some visited world is possible, the world that is told has the score
that is told.  Where all of them are impossible, none is kept: the score that is told is theirs, and
the world is the one in which only the fixed variables can be true, be it visited or not.

## Main definitions

* `Sampler.visited` — the worlds that a chain visits.
* `BayesNet.BestSeen` — a score and a world are the best of some worlds.
* `BayesNet.searched` — the worlds that the chains of a search visit.

## Main results

* `BayesNet.BestSeen.trackBest` — **keeping the better world keeps the best of those seen.**
* `Sampler.bestSeen_afterAll` — so a chain keeps the best world it has visited.
* `BayesNet.exists_bestSeen` — and so do several.
* `BayesNet.gibbsMapFrom_greatest` — **a search finds the greatest score of the worlds it visits**,
  and never gets worse by going on.
* `BayesNet.gibbsMapFrom_consistent` — **the world that is told has the score that is told, unless
  all visited ones are impossible.**
-/

namespace FactNet

open Scalar

/-! ### The worlds of a chain -/

namespace Sampler

section Visited

variable {σ α : Type} [Scalar α] [RandomStream σ α] {net : BayesNet α} {mode : Mode}

/-- The worlds that a chain visits: the one it is in, and that after each of some moves. -/
def visited (net : BayesNet α) (mode : Mode) (s : Sampler σ α) (ms : List Move) : List World :=
  ms.inits.map fun before => (s.afterAll net mode before).world

variable {s : Sampler σ α}

theorem mem_visited {ms : List Move} {w : World} :
    w ∈ s.visited net mode ms ↔ ∃ before, before <+: ms ∧ (s.afterAll net mode before).world = w := by
  simp only [visited, List.mem_map, List.mem_inits]

theorem visited_concat (ms : List Move) (m : Move) : s.visited net mode (ms ++ [m]) =
    s.visited net mode ms ++ [(s.afterAll net mode (ms ++ [m])).world] := by
  simp [visited, List.inits_append]

/-- The world that a chain is in has been visited. -/
theorem world_mem_visited (ms : List Move) :
    (s.afterAll net mode ms).world ∈ s.visited net mode ms :=
  mem_visited.2 ⟨ms, List.prefix_refl ms, rfl⟩

/-- More moves visit more. -/
theorem visited_subset {ms ms' : List Move} (h : ms <+: ms') :
    s.visited net mode ms ⊆ s.visited net mode ms' := by
  intro w hw
  obtain ⟨before, hbefore, hworld⟩ := mem_visited.1 hw
  exact mem_visited.2 ⟨before, hbefore.trans h, hworld⟩

/-- **A longer run visits what a shorter one visits.**  Adding samples at its end leads nowhere. -/
theorem visited_runMoves_subset (s : Sampler σ α) (t : Nat) {n n' : Nat} (h : n ≤ n') :
    s.visited net mode (runMoves net mode t n) ⊆ s.visited net mode (runMoves net mode t n') := by
  have hsteps : s.visited net mode (stepMoves net mode t n) ⊆
      s.visited net mode (runMoves net mode t n') :=
    visited_subset ((stepMoves_prefix_of_le net mode t h).trans (List.prefix_append _ _))
  rw [runMoves, visited_concat]
  intro w hw
  rcases List.mem_append.1 hw with hw | hw
  · exact hsteps hw
  · obtain rfl := List.mem_singleton.1 hw
    rw [afterAll_append, afterAll_cons, afterAll_nil, after, tally_world]
    exact hsteps (world_mem_visited _)

end Visited

end Sampler

/-! ### The best of some worlds -/

namespace BayesNet

/-- A score and a world are the best of some worlds.  The score is none of an impossible world only
if the world was seen; otherwise none was kept, and the world is the first one. -/
structure BestSeen (net : BayesNet EReal) (seen : List World) (score : EReal) (best : World) :
    Prop where
  le_score : ∀ w ∈ seen, net.score w ≤ score
  attained : ⊥ < score → best ∈ seen ∧ net.score best = score
  untouched : score = ⊥ → best = net.fixedWorld

namespace BestSeen

variable {net : BayesNet EReal} {seen : List World} {score : EReal} {best : World}

theorem nil (net : BayesNet EReal) : net.BestSeen [] ⊥ net.fixedWorld where
  le_score := List.forall_mem_nil _
  attained h := absurd h (lt_irrefl _)
  untouched _ := rfl

/-- A world that is seen again changes nothing. -/
theorem again (h : net.BestSeen seen score best) {w : World} (hw : w ∈ seen) :
    net.BestSeen (seen ++ [w]) score best where
  le_score w' hw' := by
    rcases List.mem_append.1 hw' with hw' | hw'
    · exact h.le_score w' hw'
    · obtain rfl := List.mem_singleton.1 hw'
      exact h.le_score w' hw
  attained hlt := ⟨List.mem_append_left _ (h.attained hlt).1, (h.attained hlt).2⟩
  untouched := h.untouched

/-- **Keeping the better world keeps the best of those seen.** -/
theorem trackBest {σ : Type} {t : Sampler σ EReal} (h : net.BestSeen seen t.bestScore t.best)
    (htracks : t.Tracks net) : net.BestSeen (seen ++ [t.world])
      (Sampler.trackBest .search t).bestScore (Sampler.trackBest .search t).best := by
  by_cases hlt : t.bestScore < t.logScore
  · rw [Sampler.trackBest_of_lt t hlt]
    refine ⟨fun w hw => ?_, fun _ => ⟨by simp, htracks.symm⟩, fun hbot => ?_⟩
    · rcases List.mem_append.1 hw with hw | hw
      · exact (h.le_score w hw).trans hlt.le
      · obtain rfl := List.mem_singleton.1 hw
        exact htracks.ge
    · rw [show t.logScore = ⊥ from hbot] at hlt
      exact absurd hlt not_lt_bot
  · rw [Sampler.trackBest_of_not_lt t .search hlt]
    refine ⟨fun w hw => ?_, fun hpos => ?_, h.untouched⟩
    · rcases List.mem_append.1 hw with hw | hw
      · exact h.le_score w hw
      · obtain rfl := List.mem_singleton.1 hw
        exact htracks.ge.trans (not_lt.1 hlt)
    · exact ⟨List.mem_append_left _ (h.attained hpos).1, (h.attained hpos).2⟩

/-- The best score is the greatest of those seen. -/
theorem isGreatest (h : net.BestSeen seen score best) (hne : seen ≠ []) :
    IsGreatest {x | ∃ w ∈ seen, net.score w = x} score := by
  refine ⟨?_, ?_⟩
  · rcases eq_or_ne score ⊥ with hbot | hpos
    · obtain ⟨w, hw⟩ := List.exists_mem_of_ne_nil seen hne
      exact ⟨w, hw, hbot ▸ le_bot_iff.1 (hbot ▸ h.le_score w hw)⟩
    · exact ⟨best, h.attained (bot_lt_iff_ne_bot.2 hpos)⟩
  · rintro x ⟨w, hw, rfl⟩
    exact h.le_score w hw

/-- The best of some worlds that are worse than others is worse than the best of these. -/
theorem mono (h : net.BestSeen seen score best) {seen' : List World} {score' : EReal}
    {best' : World} (h' : net.BestSeen seen' score' best') (hsub : seen ⊆ seen') :
    score ≤ score' := by
  rcases eq_or_ne score ⊥ with hbot | hpos
  · exact hbot ▸ bot_le
  · obtain ⟨hmem, hscore⟩ := h.attained (bot_lt_iff_ne_bot.2 hpos)
    exact hscore ▸ h'.le_score best (hsub hmem)

/-- **The best world has the best score, unless all worlds that were seen are impossible** and the
first one is not. -/
theorem score_eq_iff (h : net.BestSeen seen score best) : score = net.score best ↔
    (∃ w ∈ seen, net.score w ≠ ⊥) ∨ net.score net.fixedWorld = ⊥ := by
  constructor
  · intro heq
    rcases eq_or_ne score ⊥ with hbot | hpos
    · exact .inr (h.untouched hbot ▸ heq ▸ hbot)
    · obtain ⟨hmem, hscore⟩ := h.attained (bot_lt_iff_ne_bot.2 hpos)
      exact .inl ⟨best, hmem, hscore ▸ hpos⟩
  · rcases eq_or_ne score ⊥ with hbot | hpos
    · rintro (⟨w, hw, hne⟩ | hfixed)
      · exact absurd (le_bot_iff.1 (hbot ▸ h.le_score w hw)) hne
      · rw [hbot, h.untouched hbot, hfixed]
    · exact fun _ => (h.attained (bot_lt_iff_ne_bot.2 hpos)).2.symm

end BestSeen

end BayesNet

/-! ### What chains keep -/

namespace Sampler

variable {σ : Type} [RandomStream σ EReal] {net : BayesNet EReal}

omit [RandomStream σ EReal] in
/-- A move that ends by keeping the better world keeps the best of those seen. -/
theorem bestSeen_next {seen : List World} {s s' : Sampler σ EReal}
    (h : net.BestSeen seen s.bestScore s.best)
    (hnext : ∃ t : Sampler σ EReal, s' = trackBest .search t ∧ t.bestScore = s.bestScore ∧
      t.best = s.best)
    (htracks : s'.Tracks net) : net.BestSeen (seen ++ [s'.world]) s'.bestScore s'.best := by
  obtain ⟨t, rfl, hscore, hbest⟩ := hnext
  rw [Tracks, trackBest_logScore, trackBest_world] at htracks
  rw [trackBest_world]
  refine BayesNet.BestSeen.trackBest ?_ htracks
  rw [hscore, hbest]
  exact h

/-- **A chain keeps the best world it has visited.** -/
theorem bestSeen_afterAll (hnet : net.WellMade) (stream : σ) (ms : List Move) :
    net.BestSeen ((start net .search stream).visited net .search ms)
      ((start net .search stream).afterAll net .search ms).bestScore
      ((start net .search stream).afterAll net .search ms).best := by
  induction ms using List.reverseRecOn with
  | nil =>
    -- before its start a chain has seen nothing
    exact bestSeen_next (BayesNet.BestSeen.nil net) (restart_eq_trackBest _ .search net)
      (tracks_start net .search stream)
  | append_singleton ms m ih =>
    have htracks := tracks_afterAll hnet .search stream (ms ++ [m])
    rw [visited_concat]
    rw [afterAll_append, afterAll_cons, afterAll_nil] at htracks ⊢
    rcases after_cases net .search ((start net .search stream).afterAll net .search ms) m with
      ⟨hworld, hscore, hbest⟩ | hnext
    · rw [hworld, hscore, hbest]
      exact ih.again (world_mem_visited ms)
    · exact bestSeen_next ih hnext htracks

end Sampler

/-! ### Searches -/

namespace BayesNet

section Chains

variable {σ α : Type} [Scalar α] [RandomStream σ α]

/-- The worlds that a chain visits in a search. -/
def visitedBy (net : BayesNet α) (stream : σ) (iters : Nat) : List World :=
  (Sampler.start net .search stream).visited net .search (runMoves net .search 0 iters)

/-- The worlds that the chains of a search visit. -/
def searched (net : BayesNet α) (streams : Nat → σ) (iters : Nat) : List World :=
  (List.range net.threads).flatMap fun i => net.visitedBy (streams i) iters

variable {net : BayesNet α} {streams : Nat → σ} {iters : Nat}

theorem mem_searched {w : World} :
    w ∈ net.searched streams iters ↔ ∃ i < net.threads, w ∈ net.visitedBy (streams i) iters := by
  simp [searched]

omit [RandomStream σ α] [Scalar α] in
/-- Where the fixed variables are among the variables, there is a first world. -/
theorem fixedWorld?_eq (hfixed : ∀ e ∈ net.fixed, e.1 < net.literals.size) :
    net.fixedWorld? = .ok net.fixedWorld :=
  if_pos (List.all_eq_true.2 fun e he => decide_eq_true (hfixed e he))

end Chains

variable {σ : Type} [RandomStream σ EReal] {net : BayesNet EReal}

/-- **A chain that searches makes the moves of its run.** -/
theorem chain_search_eq (hnet : net.WellMade) (hfixed : ∀ e ∈ net.fixed, e.1 < net.literals.size)
    (hadj : net.adjustable.isEmpty = false) (stream : σ) (iters : Nat) :
    net.chain .search stream iters = .ok
      ((Sampler.start net .search stream).afterAll net .search (runMoves net .search 0 iters)) := by
  have hrun := Sampler.run_eq hadj (s := Sampler.start net .search stream)
    (fun _ ms => (Sampler.tracks_afterAll hnet .search stream ms).agrees) iters
  rw [Sampler.start_steps] at hrun
  unfold chain Sampler.start?
  rw [fixedWorld?_eq hfixed]
  dsimp only
  rw [hrun]

/-- **Several chains find the best world that one of them has visited.** -/
theorem exists_bestSeen (hnet : net.WellMade) (hfixed : ∀ e ∈ net.fixed, e.1 < net.literals.size)
    (hadj : net.adjustable.isEmpty = false) (streams : Nat → σ) (iters : Nat) :
    ∃ score w, net.gibbsMapFrom streams iters = .ok (⟨net.literalValues w, score⟩, []) ∧
      net.BestSeen (net.searched streams iters) score w := by
  obtain ⟨best, hbest, hanswer, hP⟩ := exists_isBest_of_chains ranked_ereal hadj hnet.threads_pos
    fun i _ => chain_search_eq hnet hfixed hadj (streams i) iters
  refine ⟨best.score, best.world, hanswer, fun w hw => ?_, fun hpos => ?_, fun hbot => ?_⟩
  · obtain ⟨i, hi, hw⟩ := mem_searched.1 hw
    refine ((Sampler.bestSeen_afterAll hnet (streams i) _).le_score w hw).trans ?_
    exact hbest.rank_le ranked_ereal hP (List.mem_map.2 ⟨i, List.mem_range.2 hi, rfl⟩)
  · obtain ⟨i, hi, rfl⟩ := List.mem_map.1 hbest.mem
    obtain ⟨hmem, hscore⟩ := (Sampler.bestSeen_afterAll hnet (streams i) _).attained hpos
    exact ⟨mem_searched.2 ⟨i, List.mem_range.1 hi, hmem⟩, hscore⟩
  · obtain ⟨i, hi, rfl⟩ := List.mem_map.1 hbest.mem
    exact (Sampler.bestSeen_afterAll hnet (streams i) _).untouched hbot

end BayesNet

/-! ### The number of chains -/

namespace BayesNet

variable {σ α : Type} [Scalar α] {net : BayesNet α}

theorem scoreOf_withThreads (k : Nat) (w : World) (js : List Nat) (acc : α) :
    (net.withThreads k).scoreOf w js acc = net.scoreOf w js acc := by
  induction js generalizing acc with
  | nil => rfl
  | cons j js ih =>
    rw [scoreOf, scoreOf, ih]
    simp only [ih]
    rfl

theorem conditional_withThreads (k : Nat) (s : Sampler σ α) (i : Nat) :
    s.conditional (net.withThreads k) i = s.conditional net i := by
  unfold Sampler.conditional
  simp only [scoreOf_withThreads]
  rfl

omit [Scalar α] in
theorem runMoves_withThreads (k : Nat) (mode : Mode) (t n : Nat) :
    runMoves (net.withThreads k) mode t n = runMoves net mode t n := by
  have hsteps : stepMoves (net.withThreads k) mode t n = stepMoves net mode t n := by
    induction n generalizing t with
    | zero => rfl
    | succ n ih =>
      rw [stepMoves, stepMoves, ih]
      rfl
  rw [runMoves, runMoves, hsteps]

variable [RandomStream σ α]

theorem after_withThreads (k : Nat) (mode : Mode) (s : Sampler σ α) (m : Move) :
    s.after (net.withThreads k) mode m = s.after net mode m := by
  cases m with
  | restart => rfl
  | climb i =>
    simp only [Sampler.after, Sampler.climb, conditional_withThreads]
  | resync => rfl
  | step =>
    simp only [Sampler.after, Sampler.advance, Sampler.step, conditional_withThreads]
    rfl
  | tally => rfl

/-- **How many chains there are does not count for what one of them does.** -/
theorem visitedBy_withThreads (k : Nat) (stream : σ) (iters : Nat) :
    (net.withThreads k).visitedBy stream iters = net.visitedBy stream iters := by
  have hafter : Sampler.after (σ := σ) (net.withThreads k) .search = Sampler.after net .search :=
    funext fun s => funext fun m => after_withThreads k .search s m
  unfold visitedBy Sampler.visited Sampler.afterAll
  rw [runMoves_withThreads, hafter]
  rfl

/-- More chains and longer runs visit more. -/
theorem searched_withThreads_subset (net : BayesNet α) (streams : Nat → σ) {k k' n n' : Nat}
    (hk : k ≤ k') (hn : n ≤ n') :
    (net.withThreads k).searched streams n ⊆ (net.withThreads k').searched streams n' := by
  intro w hw
  obtain ⟨i, hi, hw⟩ := mem_searched.1 hw
  refine mem_searched.2 ⟨i, Nat.lt_of_lt_of_le hi hk, ?_⟩
  rw [visitedBy_withThreads] at hw ⊢
  exact Sampler.visited_runMoves_subset _ 0 hn hw

end BayesNet

/-! ### What is told -/

namespace BayesNet

section Telling

variable {α : Type} {net : BayesNet α}

/-- Where literals are different, each is told with its value. -/
theorem literalValues_eq (hnodup : net.literals.toList.Nodup) (w : World) :
    net.literalValues w = net.literals.toList.zipIdx.map fun (l, i) => (l, w.value i) := by
  refine Pairs.collapse_eq_self ?_
  rw [List.map_map]
  exact (List.zipIdx_map_fst 0 _).symm ▸ hnodup

/-- **Where literals are different, what is told of a world is all of it.** -/
theorem literalValues_inj (hnodup : net.literals.toList.Nodup) {w w' : World}
    (hw : w.size = net.literals.size) (hw' : w'.size = net.literals.size)
    (h : net.literalValues w = net.literalValues w') : w = w' := by
  rw [literalValues_eq hnodup, literalValues_eq hnodup] at h
  refine Array.ext (hw.trans hw'.symm) fun i hi hi' => ?_
  have hin : i < net.literals.size := hw ▸ hi
  have hat := congrArg (fun es => (es[i]?).map (·.2)) h
  simpa [hin, World.value, hi, hi'] using hat

end Telling

/-- A network of different literals has a score in every world that reaches its variables. -/
theorem WellMade.score?_eq {net : BayesNet EReal} (h : net.WellMade) {w : World}
    (hw : w.size = net.literals.size) : net.score? w = .ok (net.score w) := by
  rw [score_eq_sum]
  refine BayesNet.score?_eq ?_
  rw [List.map_map]
  exact List.map_congr_left fun f hf =>
    Factor.logProb?_eq fun i hi => hw ▸ h.lt_of_mem_components hf hi

variable {σ : Type} [RandomStream σ EReal] {net : BayesNet EReal}

/-- A network in which nothing is adjustable tells its only world. -/
theorem gibbsMapFrom_of_fixed (hnet : net.WellMade)
    (hfixed : ∀ e ∈ net.fixed, e.1 < net.literals.size) (hadj : net.adjustable.isEmpty = true)
    (streams : Nat → σ) (iters : Nat) : net.gibbsMapFrom streams iters =
      .ok (⟨net.literalValues net.fixedWorld, net.score net.fixedWorld⟩,
        [net.allFixedWarning "skipping MAP search"]) := by
  have hsize : net.fixedWorld.size = net.literals.size := by
    rw [fixedWorld, World.size_assignAll, World.size_allFalse]
  unfold gibbsMapFrom
  rw [if_pos hadj, fixedWorld?_eq hfixed]
  dsimp only
  rw [hnet.score?_eq hsize]

/-- The world that is kept gives every variable a value. -/
theorem BestSeen.size_best {streams : Nat → σ} {iters : Nat} {score : EReal} {w : World}
    (h : net.BestSeen (net.searched streams iters) score w) : w.size = net.literals.size := by
  rcases eq_or_ne score ⊥ with hbot | hpos
  · rw [h.untouched hbot, fixedWorld, World.size_assignAll, World.size_allFalse]
  · obtain ⟨i, -, hw⟩ := mem_searched.1 (h.attained (bot_lt_iff_ne_bot.2 hpos)).1
    obtain ⟨before, -, rfl⟩ := Sampler.mem_visited.1 hw
    exact Sampler.size_afterAll net .search (streams i) before

theorem mem_searched_withThreads {k : Nat} {streams : Nat → σ} {n : Nat} {w : World} :
    w ∈ (net.withThreads k).searched streams n ↔ ∃ i < k, w ∈ net.visitedBy (streams i) n := by
  rw [mem_searched]
  simp only [visitedBy_withThreads]
  rfl

/-- What a search with some number of chains tells is the best of what they have visited. -/
theorem exists_bestSeen_withThreads (hnet : net.WellMade)
    (hfixed : ∀ e ∈ net.fixed, e.1 < net.literals.size) (hadj : net.adjustable.isEmpty = false)
    (streams : Nat → σ) (n : Nat) {k : Nat} (hk : 0 < k) : ∃ score w,
      (net.withThreads k).gibbsMapFrom streams n = .ok (⟨net.literalValues w, score⟩, []) ∧
      net.BestSeen ((net.withThreads k).searched streams n) score w ∧
      w.size = net.literals.size := by
  obtain ⟨score, w, hanswer, hbest⟩ :=
    exists_bestSeen (hnet.withThreads hk) hfixed hadj streams n
  -- scores do not depend on the number of chains
  exact ⟨score, w, hanswer, ⟨hbest.le_score, hbest.attained, hbest.untouched⟩, hbest.size_best⟩

/-- **A search finds the greatest score of the worlds it visits.**

The chains of a search make the moves of their runs, and the score that is told is the greatest of
the worlds after these: the first draw, every restart, every step and every climb.  If it is not
that of an impossible world, it is the score of the world that is told, which is one of them.  It
never gets worse by more steps or more chains. -/
theorem gibbsMapFrom_greatest (hnet : net.WellMade)
    (hfixed : ∀ e ∈ net.fixed, e.1 < net.literals.size) (hadj : net.adjustable.isEmpty = false)
    (streams : Nat → σ) :
    (∀ i n, net.chain .search (streams i) n = .ok ((Sampler.start net .search (streams i)).afterAll
      net .search (runMoves net .search 0 n))) ∧
    ∃ found : Nat → Nat → MapResult EReal,
      (∀ k n, 0 < k → (net.withThreads k).gibbsMapFrom streams n = .ok (found k n, []) ∧
        IsGreatest {x | ∃ i < k, ∃ w ∈ net.visitedBy (streams i) n, net.score w = x}
          (found k n).logScore ∧
        (⊥ < (found k n).logScore → ∃ i < k, ∃ w ∈ net.visitedBy (streams i) n,
          (found k n).assignment = net.literalValues w ∧ net.score w = (found k n).logScore ∧
          (net.literals.toList.Nodup → ∀ w', w'.size = net.literals.size →
            net.literalValues w' = (found k n).assignment → w' = w))) ∧
      ∀ k k' n n', 0 < k → k ≤ k' → n ≤ n' → (found k n).logScore ≤ (found k' n').logScore := by
  refine ⟨fun i n => chain_search_eq hnet hfixed hadj (streams i) n, ?_⟩
  have hseen : ∀ k n, ∃ score w, 0 < k →
      (net.withThreads k).gibbsMapFrom streams n = .ok (⟨net.literalValues w, score⟩, []) ∧
      net.BestSeen ((net.withThreads k).searched streams n) score w ∧
      w.size = net.literals.size := by
    intro k n
    rcases Nat.eq_zero_or_pos k with hk | hk
    · exact ⟨⊥, #[], fun h => absurd hk h.ne'⟩
    · obtain ⟨score, w, h⟩ := exists_bestSeen_withThreads hnet hfixed hadj streams n hk
      exact ⟨score, w, fun _ => h⟩
  choose score world hseen using hseen
  refine ⟨fun k n => ⟨net.literalValues (world k n), score k n⟩, fun k n hk => ?_,
    fun k k' n n' hk hkk' hnn' => ?_⟩
  · obtain ⟨hanswer, hbest, hsize⟩ := hseen k n hk
    refine ⟨hanswer, ?_, fun hpos => ?_⟩
    · have hne : (net.withThreads k).searched streams n ≠ [] :=
        List.ne_nil_of_mem (mem_searched_withThreads.2 ⟨0, hk, Sampler.world_mem_visited _⟩)
      have hset : {x | ∃ w ∈ (net.withThreads k).searched streams n, net.score w = x} =
          {x | ∃ i < k, ∃ w ∈ net.visitedBy (streams i) n, net.score w = x} := by
        ext x
        constructor
        · rintro ⟨w, hw, hx⟩
          obtain ⟨i, hi, hw⟩ := mem_searched_withThreads.1 hw
          exact ⟨i, hi, w, hw, hx⟩
        · rintro ⟨i, hi, w, hw, hx⟩
          exact ⟨w, mem_searched_withThreads.2 ⟨i, hi, hw⟩, hx⟩
      exact hset ▸ hbest.isGreatest hne
    · obtain ⟨hw, hscore⟩ := hbest.attained hpos
      obtain ⟨i, hi, hw⟩ := mem_searched_withThreads.1 hw
      exact ⟨i, hi, world k n, hw, rfl, hscore, fun hnodup w' hw' h =>
        literalValues_inj hnodup hw' hsize h⟩
  · exact (hseen k n hk).2.1.mono (hseen k' n' (hk.trans_le hkk')).2.1
      (searched_withThreads_subset net streams hkk' hnn')

/-- A search of four steps over a network with impossible worlds. -/
theorem gibbsMapFrom_greatest_followNet : ∃ result : MapResult EReal,
    Sampler.followNet.gibbsMap 4 = .ok (result, []) ∧
      IsGreatest {x | ∃ i < 1, ∃ w ∈ Sampler.followNet.visitedBy
        (MersenneTwister.ofSeed (i : Nat)) 4, Sampler.followNet.score w = x} result.logScore := by
  obtain ⟨-, found, hfound, -⟩ := gibbsMapFrom_greatest Sampler.wellMade_followNet
    (List.forall_mem_nil _) rfl fun i => MersenneTwister.ofSeed i
  obtain ⟨hanswer, hgreatest, -⟩ := hfound 1 4 Nat.one_pos
  exact ⟨found 1 4, hanswer, hgreatest⟩

/-- **The world that is told has the score that is told, unless all visited ones are impossible.**

A network in which nothing is adjustable tells its only world and the score of it.  Otherwise the
two belong together just if a chain has visited a possible world, or the world in which only fixed
variables are true is impossible as well: where they do not, it is this world that is told, with
the score of the impossible ones. -/
theorem gibbsMapFrom_consistent (hnet : net.WellMade)
    (hfixed : ∀ e ∈ net.fixed, e.1 < net.literals.size) (streams : Nat → σ) (iters : Nat) :
    ∃ result notes w, net.gibbsMapFrom streams iters = .ok (result, notes) ∧
      result.assignment = net.literalValues w ∧ w.size = net.literals.size ∧
      (net.literals.toList.Nodup → ∀ w', w'.size = net.literals.size →
        net.literalValues w' = result.assignment → w' = w) ∧
      (result.logScore = net.score w ↔ net.adjustable.isEmpty = true ∨
        (∃ w' ∈ net.searched streams iters, net.score w' ≠ ⊥) ∨ net.score net.fixedWorld = ⊥) ∧
      (result.logScore ≠ net.score w → result.logScore = ⊥ ∧ w = net.fixedWorld) := by
  cases hadj : net.adjustable.isEmpty with
  | true =>
    have hsize : net.fixedWorld.size = net.literals.size := by
      rw [fixedWorld, World.size_assignAll, World.size_allFalse]
    exact ⟨_, _, net.fixedWorld, gibbsMapFrom_of_fixed hnet hfixed hadj streams iters, rfl, hsize,
      fun hnodup w' hw' h => literalValues_inj hnodup hw' hsize h, by simp, fun h => absurd rfl h⟩
  | false =>
    obtain ⟨score, w, hanswer, hbest⟩ := exists_bestSeen hnet hfixed hadj streams iters
    refine ⟨_, _, w, hanswer, rfl, hbest.size_best,
      fun hnodup w' hw' h => literalValues_inj hnodup hw' hbest.size_best h, ?_, fun hne => ?_⟩
    · rw [hbest.score_eq_iff]
      simp
    · rcases eq_or_ne score ⊥ with hbot | hpos
      · exact ⟨hbot, hbest.untouched hbot⟩
      · exact absurd (hbest.attained (bot_lt_iff_ne_bot.2 hpos)).2.symm hne

/-- A search in a network with impossible worlds: what is told belongs together, or is the score of
the impossible ones with the world in which nothing is true. -/
theorem gibbsMapFrom_consistent_followNet : ∃ (result : MapResult EReal) (notes : List Event)
    (w : World), Sampler.followNet.gibbsMap 4 = .ok (result, notes) ∧
      result.assignment = Sampler.followNet.literalValues w ∧
      (result.logScore ≠ Sampler.followNet.score w → result.logScore = ⊥ ∧
        w = Sampler.followNet.fixedWorld) := by
  obtain ⟨result, notes, w, hanswer, hassignment, -, -, -, hor⟩ :=
    gibbsMapFrom_consistent Sampler.wellMade_followNet (List.forall_mem_nil _)
      (fun i => MersenneTwister.ofSeed i) 4
  exact ⟨result, notes, w, hanswer, hassignment, hor⟩

/-! ### Impossible worlds only -/

/-- A number is drawn from below one. -/
theorem unit_lt_one (s : MersenneTwister) :
    (RandomStream.unit s : EReal × MersenneTwister).1 < 1 := by
  have hdraw : (MersenneTwister.draw53 s).1 < 9007199254740992 := by
    unfold MersenneTwister.draw53
    dsimp only
    rw [UInt32.toNat_shiftRight, UInt32.toNat_shiftRight]
    have h := (MersenneTwister.nextWord s).1.toNat_lt
    have h' := (MersenneTwister.nextWord (MersenneTwister.nextWord s).2).1.toNat_lt
    simp [Nat.shiftRight_eq_div_pow]
    omega
  show (nat (MersenneTwister.draw53 s).1 / nat 9007199254740992 : EReal) < 1
  rw [nat_ereal, nat_ereal, ← EReal.coe_div, ← EReal.coe_one, EReal.coe_lt_coe_iff, div_lt_one]
  · exact_mod_cast hdraw
  · norm_num

/-- A network of two variables that are drawn true for certain and must both be false. -/
noncomputable def sealedNet : BayesNet EReal where
  literals := #[⟨"leaks", "Pipe1", "Wall", true⟩, ⟨"leaks", "Pipe2", "Wall", true⟩]
  factors := #[.entailment ⟨"never", ⊥, 0, 0, []⟩, .entailment ⟨"never", ⊥, 0, 1, []⟩]
  priorProbs := #[1, 1]
  fixed := []
  adjustable := #[0, 1]
  touching := #[[0], [1]]
  threads := 1

theorem wellMade_sealedNet : sealedNet.WellMade where
  ofParts := by
    refine ⟨[⟨"leaks", "Pipe1", "Wall", true⟩, ⟨"leaks", "Pipe2", "Wall", true⟩],
      [.entailment ⟨"never", ⊥, 0, 0, []⟩, .entailment ⟨"never", ⊥, 0, 1, []⟩],
      [(0, 0), (1, 0)], [], false, 1, ?_⟩
    simp [BayesNet.ofParts, BayesNet.unknownVariable?, Factor.components,
      GroundedRule.components, sealedNet, List.range, List.range.loop, List.zipIdx, Pairs.last?,
      List.eraseDups_cons]
  made f hf := by
    obtain rfl | rfl : f = .entailment ⟨"never", ⊥, 0, 0, []⟩ ∨
        f = .entailment ⟨"never", ⊥, 0, 1, []⟩ := by simpa [sealedNet] using hf
    · exact .entailment _
    · exact .entailment _

theorem score_sealedNet (w : World) : sealedNet.score w =
    (if w.value 0 then ⊥ else 0) + if w.value 1 then ⊥ else 0 := by
  simp [score, sealedNet, Factor.logProb, GroundedRule.holds, GroundedRule.valueOf]

/-- At first both variables are true. -/
theorem world_start_sealedNet (stream : MersenneTwister) :
    (Sampler.start sealedNet .search stream).world = #[true, true] := by
  unfold Sampler.start Sampler.restart
  rw [Sampler.trackBest_world]
  simp [Sampler.redraw, sealedNet, unit_lt_one, fixedWorld, World.assignAll, World.allFalse,
    World.assign]
  rfl

/-- A world that one step leads to from there is impossible. -/
theorem score_assign_sealedNet (i : Nat) (b : Bool) :
    sealedNet.score (World.assign #[true, true] i b) = ⊥ := by
  rw [score_sealedNet]
  match i with
  | 0 => simp [World.assign, World.value]
  | 1 => simp [World.assign, World.value]
  | i + 2 => simp [World.assign, World.value]

/-- So a step or none leads to impossible worlds only. -/
theorem score_of_mem_visitedBy_sealedNet (stream : MersenneTwister) {n : Nat} (hn : n ≤ 1)
    {w : World} (hw : w ∈ sealedNet.visitedBy stream n) : sealedNet.score w = ⊥ := by
  have hstart := world_start_sealedNet stream
  have hfirst : sealedNet.score #[true, true] = ⊥ := score_assign_sealedNet 0 true
  obtain ⟨stream', i, b, hstep⟩ :=
    (Sampler.start sealedNet .search stream).advance_eq_setVariable .search sealedNet
  have hnext : sealedNet.score ((Sampler.start sealedNet .search stream).advance sealedNet
      .search).world = ⊥ := by
    rw [hstep, Sampler.setVariable_world, hstart]
    exact score_assign_sealedNet i b
  have hsteps : runMoves sealedNet .search 0 1 = [.step, .tally] := rfl
  have hnone : runMoves sealedNet .search 0 0 = [.tally] := rfl
  have hworlds : w = #[true, true] ∨
      w = ((Sampler.start sealedNet .search stream).advance sealedNet .search).world := by
    rcases Nat.le_one_iff_eq_zero_or_eq_one.1 hn with rfl | rfl
    · exact .inl (by simpa [visitedBy, Sampler.visited, hnone, Sampler.after, hstart] using hw)
    · simpa [visitedBy, Sampler.visited, hsteps, Sampler.after, hstart] using hw
  rcases hworlds with rfl | rfl
  · exact hfirst
  · exact hnext

/-- Before the first step and after it, only impossible worlds have been visited: their score is what
is told, and told of the possible world in which both variables are false. -/
theorem gibbsMap_sealedNet_of_le {n : Nat} (hn : n ≤ 1) : ∃ result : MapResult EReal,
    sealedNet.gibbsMap n = .ok (result, []) ∧
      result.assignment = sealedNet.literalValues #[false, false] ∧ result.logScore = ⊥ := by
  obtain ⟨score, w, hanswer, hbest⟩ := exists_bestSeen wellMade_sealedNet (List.forall_mem_nil _)
    rfl (fun i => MersenneTwister.ofSeed i) n
  have hbot : score = ⊥ := by
    by_contra hpos
    obtain ⟨hmem, hscore⟩ := hbest.attained (bot_lt_iff_ne_bot.2 hpos)
    obtain ⟨i, -, hmem⟩ := mem_searched.1 hmem
    exact hpos (hscore ▸ score_of_mem_visitedBy_sealedNet _ hn hmem)
  have hworld : w = #[false, false] := hbest.untouched hbot
  exact ⟨_, hanswer, by rw [hworld], hbot⟩

/-- **A world is told with a score that is not its own**, both without a step and after one. -/
theorem gibbsMap_sealedNet :
    sealedNet.score #[false, false] = 0 ∧
      (∃ result : MapResult EReal, sealedNet.gibbsMap 0 = .ok (result, []) ∧
        result.assignment = sealedNet.literalValues #[false, false] ∧ result.logScore = ⊥) ∧
      ∃ result : MapResult EReal, sealedNet.gibbsMap 1 = .ok (result, []) ∧
        result.assignment = sealedNet.literalValues #[false, false] ∧ result.logScore = ⊥ := by
  refine ⟨?_, gibbsMap_sealedNet_of_le (Nat.zero_le 1), gibbsMap_sealedNet_of_le le_rfl⟩
  rw [score_sealedNet]
  simp [World.value]

end BayesNet

end FactNet
