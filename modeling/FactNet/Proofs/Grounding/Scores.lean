import FactNet.Proofs.Grounding.Tables

/-!
# Scores of the network that is built

Over exact numbers the tables of a consequent can be made unless a rule is too wide, so that is all
that can keep a network from being built, besides asking for no chain.  A world then has as its
score the sum of what the tables stand for, one for each consequent where its rules are narrow.

## Main definitions

* `Registry.TooWide` — a consequent that is not fixed has a rule that is too wide.
* `Registry.logProbAt` — what the table of a consequent stands for in a world.

## Main results

* `Registry.build_error`, `Registry.build_ok` — **when a network is built.**
* `Registry.Built.eager_of_mem_factors` — what its factors are.
* `Registry.Built.score?_eq` — **the score of a world.**
-/

namespace FactNet

open Scalar GroundState

namespace Registry

variable [Numeral EReal] {r : Registry EReal}

/-- What a clause is registered as has its weight. -/
theorem areWeighted_rulesOf (r : Registry EReal) (i : Nat) : AreWeighted (r.rulesOf i) := by
  intro g hg
  obtain ⟨-, -, hgroundings⟩ := r.groundings_groundAll
  have hmem : g ∈ r.groundAll.1.groundings.toList := List.mem_of_mem_filter hg
  rw [hgroundings] at hmem
  obtain ⟨c, -, hc⟩ := List.mem_filterMap.1 hmem
  obtain ⟨head, -, rfl⟩ := Option.map_eq_some_iff.1 hc
  exact ⟨c.1, rfl, rfl⟩

theorem areSound_rulesOf (r : Registry EReal) (i : Nat) : AreSound i (r.rulesOf i) :=
  (r.said_rulesOf i).areSound (r.areWeighted_rulesOf i)

/-! ### Outcomes -/

/-- The tables of a consequent. -/
noncomputable def tablesAt (r : Registry EReal) (i : Nat) : List (RuleTable EReal) :=
  (groupsOf (r.rulesOf i)).map (r.tableWith (r.priorAt i))

/-- What becomes of a consequent of which no rule is too wide. -/
noncomputable def exactOutcome (r : Registry EReal) (i : Nat) : Settled EReal :=
  match r.fixedAt i with
  | some b => .fixed b
  | none => .factors (r.priorAt i) ((r.tablesAt i).map fun t => .eager (.listed t))

/-- A consequent that is not fixed has a rule that is too wide. -/
def TooWide (r : Registry EReal) (i : Nat) : Prop :=
  r.fixedAt i = none ∧ ∃ g ∈ r.rulesOf i, tableCeiling ≤ width [g]

/-- Where few literals are mentioned, no rule is too wide. -/
theorem not_tooWide (hfew : r.mentioned.length < tableCeiling) (i : Nat) : ¬r.TooWide i := by
  rintro ⟨-, g, hg, hle⟩
  have hsub : [g] ⊆ r.rulesOf i := by simpa using hg
  have hwidth := (width_mono hsub).trans (r.width_rulesOf_le i)
  omega

theorem settleAt_eq (h0 : 0 < r.defaultPrior) (h1 : r.defaultPrior < 1) {i : Nat}
    (hi : i ∈ r.consequents) (hwide : ¬r.TooWide i) : r.settleAt i = .ok (r.exactOutcome i) := by
  unfold settleAt settle exactOutcome
  rw [← fixedAt]
  cases hfixed : r.fixedAt i with
  | some b => rfl
  | none =>
    have hnarrow : ∀ g ∈ r.rulesOf i, width [g] < tableCeiling := fun g hg =>
      Nat.lt_of_not_le fun hle => hwide ⟨hfixed, g, hg, hle⟩
    dsimp only
    rw [makeFactors_eq (r.areSound_rulesOf i) h0 h1 (mem_consequents.1 hi) _ hnarrow, tablesAt,
      List.map_map]
    rfl

/-! ### Building -/

/-- **No network is built where a rule is too wide**, or where there is no chain. -/
theorem build_error (h0 : 0 < r.defaultPrior) (h1 : r.defaultPrior < 1)
    (h : r.threads < 1 ∨ ∃ i ∈ r.consequents, r.TooWide i) : ∃ e, r.build = .error e := by
  by_cases hwide : ∃ i ∈ r.consequents, r.TooWide i
  · obtain ⟨i, hi, hfixed, g, hg, hle⟩ := hwide
    exact build_error_of_settleAt hi (settleAt_error hfixed hg hle)
  · have hsettled : ∀ i ∈ r.consequents, r.settleAt i = .ok (r.outcome i) := by
      intro i hi
      have hi' := settleAt_eq h0 h1 hi fun hw => hwide ⟨i, hi, hw⟩
      rw [settleAt_eq_outcome hi', hi']
    have hnone : r.assemble r.outcomes = .error .noThreads := by
      unfold assemble BayesNet.ofParts
      exact if_pos (h.resolve_right hwide)
    exact ⟨.net .noThreads, by rw [build_of_settled (mapM_settleAt hsettled), hnone]⟩

/-- **Otherwise one is built.** -/
theorem build_ok (h0 : 0 < r.defaultPrior) (h1 : r.defaultPrior < 1) (hthreads : 1 ≤ r.threads)
    (hwide : ∀ i ∈ r.consequents, ¬r.TooWide i) : ∃ net notes, r.build = .ok (net, notes) := by
  cases hbuild : r.build with
  | ok made => exact ⟨made.1, made.2, rfl⟩
  | error e =>
    rw [← zero_ereal] at h0
    rw [← one_ereal] at h1
    obtain ⟨i, hi, hfixed, g, hg, hle, -⟩ :=
      exists_wide_of_build staysLow_ereal h0 h1 hthreads hbuild
    exact absurd ⟨hfixed, g, hg, hle⟩ (hwide i hi)

end Registry

/-! ### Scores -/

namespace Registry

variable [Numeral EReal] {r : Registry EReal} {net : BayesNet EReal}

/-- The log-probability that the table of a consequent of narrow rules stands for. -/
noncomputable def logProbAt (r : Registry EReal) (u : Literal → Bool) (i : Nat) : Option EReal :=
  match r.fixedAt i with
  | some _ => none
  | none => (r.tablesAt i).head?.map fun t => t.exactLogProb (r.groundAll.1.world u)

/-- A consequent of narrow rules has one table. -/
theorem tablesAt_eq (r : Registry EReal) {i : Nat}
    (hnarrow : width (r.rulesOf i) ≤ mostAntecedents) :
    ∃ b, b.Perm (dealt (r.rulesOf i)) ∧ b ∈ groupsOf (r.rulesOf i) ∧
      r.tablesAt i = [r.tableWith (r.priorAt i) b] := by
  obtain ⟨b, hgroups, hperm⟩ := groupsOf_eq hnarrow
  refine ⟨b, hperm, hgroups ▸ List.mem_singleton_self b, ?_⟩
  rw [tablesAt, hgroups]
  rfl

/-- The factors of a consequent of narrow rules give a world what its table stands for. -/
theorem map_logProb?_exactOutcome (h0 : 0 < r.defaultPrior) (h1 : r.defaultPrior < 1) {i : Nat}
    (hi : i ∈ r.consequents) (hnarrow : width (r.rulesOf i) ≤ mostAntecedents)
    (u : Literal → Bool) :
    (r.exactOutcome i).factorsOf.map (fun f => f.logProb? (r.groundAll.1.world u)) =
      (r.logProbAt u i).toList.map .ok := by
  obtain ⟨b, hperm, hb, htables⟩ := r.tablesAt_eq hnarrow
  unfold exactOutcome logProbAt
  cases r.fixedAt i with
  | some value => rfl
  | none =>
    have hmade := ofRules_tableWith (r := r) (r.areSound_rulesOf i) h0 h1 hb
    have hreached : (r.tableWith (r.priorAt i) b).Reached (r.groundAll.1.world u) := by
      intro a ha
      rw [size_world]
      exact (r.said_rulesOf i).components_lt (r.areWeighted_rulesOf i) h0 h1 (mem_consequents.1 hi)
        (fun g hg => (mem_dealt.1 (hperm.subset hg)).1) a ha
    have hvalue := EagerTable.logProb?_ereal hmade hreached
    simp only [htables, Settled.factorsOf, List.map_cons, List.map_nil, List.head?_cons,
      Option.map_some, Option.toList_some]
    exact congrArg (fun x => [x]) hvalue

/-- A consequent with an outcome has no rule that is too wide. -/
theorem Built.outcome_eq (h : r.Built net) (h0 : 0 < r.defaultPrior) (h1 : r.defaultPrior < 1)
    {i : Nat} (hi : i ∈ r.consequents) : r.outcome i = r.exactOutcome i := by
  have hwide : ¬r.TooWide i := by
    rintro ⟨hfixed, g, hg, hle⟩
    obtain ⟨e, he⟩ := settleAt_error hfixed hg hle
    have hsettled := h.settled i hi
    rw [he] at hsettled
    cases hsettled
  exact settleAt_eq_outcome (settleAt_eq h0 h1 hi hwide)

/-- **The factors are tables of the batches of the consequents.** -/
theorem Built.eager_of_mem_factors (h : r.Built net) (h0 : 0 < r.defaultPrior)
    (h1 : r.defaultPrior < 1) {f : Factor EReal} (hf : f ∈ net.factors.toList) :
    ∃ i ∈ r.consequents, ∃ b ∈ groupsOf (r.rulesOf i),
      f = .eager (.listed (r.tableWith (r.priorAt i) b)) := by
  rw [h.factors] at hf
  obtain ⟨i, hi, hf⟩ := List.mem_flatMap.1 hf
  rw [h.outcome_eq h0 h1 hi, exactOutcome] at hf
  cases hfixed : r.fixedAt i with
  | some b =>
    rw [hfixed] at hf
    cases hf
  | none =>
    rw [hfixed] at hf
    obtain ⟨t, ht, rfl⟩ := List.mem_map.1 hf
    obtain ⟨b, hb, rfl⟩ := List.mem_map.1 ht
    exact ⟨i, hi, b, hb, rfl⟩

/-- **The score of a world is the sum of what the tables stand for.** -/
theorem Built.score?_eq (h : r.Built net) (h0 : 0 < r.defaultPrior) (h1 : r.defaultPrior < 1)
    (hnarrow : ∀ i ∈ r.consequents, width (r.rulesOf i) ≤ mostAntecedents) (u : Literal → Bool) :
    net.score? (net.literals.map u) = .ok (r.consequents.filterMap (r.logProbAt u)).sum := by
  refine BayesNet.score?_eq ?_
  have hworld : net.literals.map u = r.groundAll.1.world u := by
    rw [h.literals]
    rfl
  rw [h.factors, List.map_flatMap, hworld, List.filterMap_eq_flatMap_toList, List.map_flatMap]
  refine List.flatMap_congr fun i hi => ?_
  rw [h.outcome_eq h0 h1 hi]
  exact map_logProb?_exactOutcome h0 h1 hi (hnarrow i hi) u

end Registry

end FactNet
