import FactNet.Proofs.Grounding.ClosedWorld

/-!
# What certain rules conclude

A rule with the weight `⊤` is certain.  Its instances are stored with the greatest log-probability
there is, which is enough to fix a variable.  So where everything that has been registered is
certain, a literal that some instance concludes is fixed true, unless the evidence speaks of it, and
sampling answers that it is certain.

## Main definitions

* `Registry.IsCertain` — all weights that have been registered are `⊤`.

## Main results

* `fixedBy?_of_top` — instances of certain rules fix their consequent.
* `Registry.estimates_of_isCertain` — **where all rules are certain, what they conclude is.**
-/

namespace FactNet

open Scalar GroundState

/-- Instances of certain rules fix their consequent. -/
theorem fixedBy?_of_top {rules : List (GroundedRule EReal)} (hne : rules ≠ [])
    (htop : ∀ g ∈ rules, g.ifTrue = LogProb.clip (LogProb.logSigmoid ⊤)) :
    fixedBy? rules = some true := by
  have hgreatest : (LogProb.greatest : EReal) ≤ 0 := by
    rw [LogProb.greatest_eq_ofReal, ← ENNReal.log_one]
    exact ENNReal.log_le_log (ENNReal.ofReal_le_one.2 (by norm_num))
  -- certainty is stored as the greatest number in the range, and that is above the bound
  have hclip : LogProb.clip (LogProb.logSigmoid (⊤ : EReal)) = LogProb.greatest := by
    rw [LogProb.logSigmoid_top, LogProb.clip_eq, min_eq_left hgreatest,
      max_eq_right LogProb.least_lt_greatest.le]
  rw [hclip] at htop
  have habove : (fixTrueAbove : EReal) < LogProb.greatest := by
    rw [fixTrueAbove, log_tenths, LogProb.greatest_eq_ofReal, ENNReal.log_lt_log_iff,
      ENNReal.ofReal_lt_ofReal_iff (by norm_num)]
    norm_num
  have hbelow : ¬(LogProb.greatest : EReal) < fixFalseBelow := by
    rw [fixFalseBelow, log_tenths, LogProb.greatest_eq_ofReal, ENNReal.log_lt_log_iff,
      ENNReal.ofReal_lt_ofReal_iff (by norm_num)]
    norm_num
  obtain ⟨g, hg⟩ := List.exists_mem_of_ne_nil rules hne
  unfold fixedBy?
  rw [if_neg fun hall => hbelow ?_, if_pos (List.all_eq_true.2 fun g hg => ?_)]
  · rw [htop g hg]
    exact decide_eq_true habove
  · rw [← htop g hg]
    exact of_decide_eq_true (List.all_eq_true.1 hall g hg)

namespace Registry

/-- All weights that have been registered are `⊤`, those of clauses of one literal after their
negation has turned the sign. -/
structure IsCertain (r : Registry EReal) : Prop where
  units : ∀ u ∈ r.units, u.2 = ⊤
  rules : ∀ rule ∈ r.longRules, rule.weight = ⊤

variable [Numeral EReal] {r : Registry EReal} {net : BayesNet EReal} {notes : List Event}
  {l : Literal}

theorem IsCertain.weight_eq (h : r.IsCertain) {c : Weighted EReal} (hc : c ∈ r.clauses) :
    c.1 = ⊤ := by
  rcases List.mem_append.1 hc with hc | hc
  · rcases List.mem_append.1 hc with hc | hc
    · obtain ⟨u, hu, rfl⟩ := List.mem_map.1 hc
      exact h.units u (List.mem_of_mem_filter hu)
    · obtain ⟨rule, hrule, hc⟩ := List.mem_flatMap.1 hc
      obtain ⟨clause, -, rfl⟩ := List.mem_map.1 hc
      exact h.rules rule hrule
  · obtain ⟨u, hu, hc⟩ := List.mem_flatMap.1 hc
    obtain ⟨v, -, rfl⟩ := List.mem_map.1 hc
    exact h.units u (List.mem_of_mem_filter hu)

theorem IsCertain.ifTrue_eq (h : r.IsCertain) {i : Nat} :
    ∀ g ∈ r.rulesOf i, g.ifTrue = LogProb.clip (LogProb.logSigmoid ⊤) := by
  intro g hg
  have hmem := (List.mem_filter.1 hg).1
  rw [r.groundings_groundAll.2.2] at hmem
  obtain ⟨c, hc, hg⟩ := List.mem_filterMap.1 hmem
  obtain ⟨head, -, rfl⟩ := Option.map_eq_some_iff.1 hg
  rw [← h.weight_eq hc]

/-- **Where all rules are certain, what they conclude is**, unless the evidence speaks of it. -/
theorem estimates_of_isCertain (h : r.IsCertain) (hbuild : r.build = .ok (net, notes))
    (hl : r.groundAll.1.Knows l) (hnone : r.lastEvidence? l = none)
    (hne : r.rulesOf (r.groundAll.1.numberOf l) ≠ []) : net.Estimates l one := by
  have hbuilt := built_of_build hbuild
  have hvalue : net.fixedValue? l = some true := by
    rw [hbuilt.fixedValue?_of_rules hl hnone hne, fixedBy?_of_top hne h.ifTrue_eq]
  rw [BayesNet.fixedValue?, hbuilt.idOf?_eq_some hl, Option.bind_some] at hvalue
  intro σ _ _ streams iters
  exact (fixes_of_fixed hbuild hl hvalue).exists_gibbsMarginalsFrom
    (exactBelow_ereal (Sampler.restartSteps + net.threads + 1)) (by omega)
    (wellMade_of_build hbuild).threads_pos (by omega) streams iters

end Registry

end FactNet
