import FactNet.Proofs.Factor.Pattern

/-!
# The prior that is kept

Of the rules of a consequent without antecedents one is kept as its prior, found by a pass that
starts with the default prior and the logarithm of zero.  If one of these rules makes the consequent
possible, the prior is the first of those that make it most probable.  If none does, the default
prior stays, even where there are such rules.

A second pass meets the prior as the only rule without antecedents.  If it makes the consequent
possible it is kept, and otherwise it is the default prior that the second pass starts with.  So
priors can be cleaned for all rules of a consequent and again for each part that is made of them.

## Main definitions

* `HasPossibleUnit` — a rule without antecedents makes the consequent possible.
* `IsBestPrior` — a prior is the first of the best rules without antecedents, and the default one
  only where there are none.
* `IsCleaned` — what rules of one consequent are cleaned to.

## Main results

* `choosePrior_ranked` — **the prior is the first of the best, or else the default one.**
* `choosePrior_cons` — a second pass keeps the prior, whatever rules with antecedents stay with it.
* `cleanPriors_keeps_best` — **cleaning keeps the best prior where one is possible**, and cleaning
  again keeps what is there.
-/

namespace FactNet

open Scalar RuleTable

variable {α β : Type} [Scalar α] [LinearOrder β] {rank : α → β} {P : α → Prop}
variable {rules sub : List (GroundedRule α)} {other prior : GroundedRule α} {c : Nat} {d : α}

/-- A rule without antecedents makes the consequent possible. -/
def HasPossibleUnit (rules : List (GroundedRule α)) : Prop :=
  ∃ u ∈ rules, u.isUnit = true ∧ bottom < u.ifTrue

/-- A prior is the first of the rules without antecedents that make the consequent most probable.
It is the default one where there are no such rules. -/
structure IsBestPrior (c : Nat) (d : α) (rules : List (GroundedRule α)) (prior : GroundedRule α) :
    Prop where
  first : (∃ u ∈ rules, u.isUnit = true) →
    IsFirstGreatest (·.ifTrue) (rules.filter (·.isUnit)) prior
  default : (∀ u ∈ rules, u.isUnit = false) → prior = .default c d

/-- What rules of one consequent are cleaned to: a prior without antecedents, and the rules with
antecedents in their order.  The prior is the first of the best rules without antecedents if one of
them makes the consequent possible, and else the default one. -/
structure IsCleaned (c : Nat) (d : α) (rules : List (GroundedRule α)) (prior : GroundedRule α)
    (others : List (GroundedRule α)) : Prop where
  consequent : prior.consequent = c
  antecedents : prior.antecedents = []
  others : others = rules.filter fun g => !g.antecedents.isEmpty
  first : HasPossibleUnit rules → IsFirstGreatest (·.ifTrue) (rules.filter (·.isUnit)) prior
  default : ¬HasPossibleUnit rules → prior = .default c d

/-! ### One pass -/

/-- **The prior is the first of the best rules without antecedents** if one of them makes the
consequent possible, and else what the pass starts with. -/
theorem choosePrior_ranked (hrank : Ranked rank P)
    (hP : ∀ u ∈ rules, u.isUnit = true → P u.ifTrue) (other : GroundedRule α) :
    (HasPossibleUnit rules ∧ bottom < (choosePrior other rules).ifTrue ∧
        IsFirstGreatest (·.ifTrue) (rules.filter (·.isUnit)) (choosePrior other rules)) ∨
      (¬HasPossibleUnit rules ∧ choosePrior other rules = other) := by
  have hunits : ∀ u ∈ rules.filter (·.isUnit), P u.ifTrue := fun u hu =>
    hP u (List.mem_filter.1 hu).1 (List.mem_filter.1 hu).2
  rw [choosePrior_eq]
  rcases foldl_keepGreatest hrank (bottom, other) hrank.bottom hunits with
    ⟨hlast, hnone⟩ | ⟨hvalue, hlt, hfirst⟩
  · refine .inr ⟨?_, by rw [hlast]⟩
    rintro ⟨u, hu, hunit, hpossible⟩
    exact hnone u (List.mem_filter.2 ⟨hu, hunit⟩) hpossible
  · obtain ⟨hmem, hunit⟩ := List.mem_filter.1 hfirst.mem
    rw [hvalue] at hlt
    exact .inl ⟨⟨_, hmem, hunit, hlt⟩, hlt, hfirst⟩

/-- A prior that is met alone is kept if it makes the consequent possible, or if the pass starts
with it. -/
theorem choosePrior_singleton (hprior : prior.isUnit = true)
    (h : bottom < prior.ifTrue ∨ prior = other) : choosePrior other [prior] = prior := by
  rw [choosePrior_eq, List.filter_cons_of_pos hprior, List.filter_nil, List.foldl_cons,
    List.foldl_nil, keepGreatest]
  split
  · rfl
  · next hnot => exact (h.resolve_left hnot).symm

/-- **A second pass keeps the prior**, whatever rules with antecedents stay with it. -/
theorem choosePrior_cons (hrank : Ranked rank P)
    (hP : ∀ u ∈ rules, u.isUnit = true → P u.ifTrue) (c : Nat) (d : α)
    (hsub : ∀ g ∈ sub, g.isUnit = false) :
    choosePrior (.default c d) (choosePrior (.default c d) rules :: sub) =
      choosePrior (.default c d) rules := by
  have hunit : (choosePrior (.default c d) rules).isUnit = true :=
    List.isEmpty_iff.2 (choosePrior_antecedents c d rules)
  have halone : (choosePrior (.default c d) rules :: sub).filter (·.isUnit) =
      [choosePrior (.default c d) rules].filter (·.isUnit) := by
    rw [List.filter_cons_of_pos hunit, List.filter_cons_of_pos hunit, List.filter_nil,
      List.filter_eq_nil_iff.2 fun g hg => by simp [hsub g hg]]
  rw [choosePrior_eq, halone, ← choosePrior_eq]
  refine choosePrior_singleton hunit ?_
  exact (choosePrior_ranked hrank hP (.default c d)).imp (fun h => h.2.1) (fun h => h.2)

/-- The prior belongs to the consequent of the rules. -/
theorem consequent_choosePrior (d : α) (hc : ∀ g ∈ rules, g.consequent = c) :
    (choosePrior (.default c d) rules).consequent = c := by
  rcases choosePrior_mem (.default c d) rules with heq | ⟨hmem, -⟩
  · rw [heq]
    rfl
  · exact hc _ hmem

/-! ### Cleaning -/

/-- Rules of one consequent are cleaned to their prior and those with antecedents. -/
theorem cleanPriors_eq (hne : rules ≠ []) (hc : ∀ g ∈ rules, g.consequent = c) (d : α) :
    cleanPriors rules d =
      some (choosePrior (.default c d) rules, rules.filter fun g => !g.isUnit) := by
  obtain ⟨g, rest, rfl⟩ := List.exists_cons_of_ne_nil hne
  rw [cleanPriors, hc g List.mem_cons_self]

/-- A prior and rules with antecedents that have been cleaned stay as they are. -/
theorem cleanPriors_cons (hrank : Ranked rank P)
    (hP : ∀ u ∈ rules, u.isUnit = true → P u.ifTrue) (hc : ∀ g ∈ rules, g.consequent = c) (d : α)
    (hsub : ∀ g ∈ sub, g ∈ rules ∧ g.isUnit = false) :
    cleanPriors (choosePrior (.default c d) rules :: sub) d =
      some (choosePrior (.default c d) rules, sub) := by
  have hprior : (choosePrior (.default c d) rules).isUnit = true :=
    List.isEmpty_iff.2 (choosePrior_antecedents c d rules)
  have hothers : (choosePrior (.default c d) rules :: sub).filter (fun g => !g.isUnit) = sub := by
    rw [List.filter_cons_of_neg (by simp [hprior]), List.filter_eq_self]
    intro g hg
    rw [(hsub g hg).2]
    rfl
  have hall : ∀ g ∈ choosePrior (.default c d) rules :: sub, g.consequent = c :=
    List.forall_mem_cons.2 ⟨consequent_choosePrior d hc, fun g hg => hc g (hsub g hg).1⟩
  rw [cleanPriors_eq (List.cons_ne_nil _ _) hall, hothers,
    choosePrior_cons hrank hP c d fun g hg => (hsub g hg).2]

namespace IsCleaned

/-- The default prior is kept in the place of a rule just if there are rules without antecedents and
none of them makes the consequent possible, given that the default prior does. -/
theorem isBestPrior_iff {others : List (GroundedRule α)} (h : IsCleaned c d rules prior others)
    (hpossible : bottom < LogProb.ofProb d) :
    IsBestPrior c d rules prior ↔ HasPossibleUnit rules ∨ ∀ u ∈ rules, u.isUnit = false := by
  constructor
  · intro hbest
    by_contra hnot
    obtain ⟨himpossible, hsome⟩ := not_or.1 hnot
    push Not at hsome
    obtain ⟨u, hu, hunit⟩ := hsome
    -- the default prior would be one of the rules, and it is possible
    have hmem := (hbest.first ⟨u, hu, Bool.eq_true_of_not_eq_false hunit⟩).mem
    rw [h.default himpossible] at hmem
    exact himpossible ⟨_, (List.mem_filter.1 hmem).1, rfl, hpossible⟩
  · rintro (hsome | hnone)
    · refine ⟨fun _ => h.first hsome, fun hnone => ?_⟩
      obtain ⟨u, hu, hunit, -⟩ := hsome
      rw [hnone u hu] at hunit
      cases hunit
    · refine ⟨fun ⟨u, hu, hunit⟩ => ?_, fun _ => h.default fun ⟨u, hu, hunit, _⟩ => ?_⟩
      · rw [hnone u hu] at hunit
        cases hunit
      · rw [hnone u hu] at hunit
        cases hunit

end IsCleaned

/-- **Rules of one consequent are cleaned.** -/
theorem isCleaned_choosePrior (hrank : Ranked rank P)
    (hP : ∀ u ∈ rules, u.isUnit = true → P u.ifTrue) (hc : ∀ g ∈ rules, g.consequent = c) (d : α) :
    IsCleaned c d rules (choosePrior (.default c d) rules) (rules.filter fun g => !g.isUnit) where
  consequent := consequent_choosePrior d hc
  antecedents := choosePrior_antecedents c d rules
  others := rfl
  first h := ((choosePrior_ranked hrank hP _).resolve_right fun h' => h'.1 h).2.2
  default h := ((choosePrior_ranked hrank hP _).resolve_left fun h' => h h'.1).2

/-- **Cleaning keeps the best prior where one is possible.**

Rules of one consequent are cleaned to one prior and to the rules with antecedents.  If a rule
without antecedents makes the consequent possible, the prior is the first of those that make it most
probable, and otherwise it is the default one.  So it is the best prior just if such a rule makes the
consequent possible or there is none.  Cleaning again changes nothing, and the prior stays the same
with any part of the other rules. -/
theorem cleanPriors_keeps_best (hrank : Ranked rank P) (hne : rules ≠ [])
    (hc : ∀ g ∈ rules, g.consequent = c) (hP : ∀ g ∈ rules, P g.ifTrue) (d : α) :
    ∃ prior others, cleanPriors rules d = some (prior, others) ∧ IsCleaned c d rules prior others ∧
      (bottom < LogProb.ofProb d → (IsBestPrior c d rules prior ↔
        HasPossibleUnit rules ∨ ∀ u ∈ rules, u.isUnit = false)) ∧
      cleanPriors (prior :: others) d = some (prior, others) ∧
      ∀ sub, sub.Sublist others → cleanPriors (prior :: sub) d = some (prior, sub) := by
  have hunits : ∀ u ∈ rules, u.isUnit = true → P u.ifTrue := fun u hu _ => hP u hu
  have hcleaned := isCleaned_choosePrior hrank hunits hc d
  have hagain : ∀ sub, sub.Sublist (rules.filter fun g => !g.isUnit) →
      cleanPriors (choosePrior (.default c d) rules :: sub) d =
        some (choosePrior (.default c d) rules, sub) := by
    refine fun sub hsub => cleanPriors_cons hrank hunits hc d fun g hg => ?_
    obtain ⟨hmem, hunit⟩ := List.mem_filter.1 (hsub.subset hg)
    exact ⟨hmem, by simpa using hunit⟩
  exact ⟨_, _, cleanPriors_eq hne hc d, hcleaned, hcleaned.isBestPrior_iff,
    hagain _ (List.Sublist.refl _), hagain⟩

/-! ### An impossible prior -/

/-- The bridge is open as a rule. -/
def usual : GroundedRule Float := ⟨"usual", -0.1053605156578263, -2.302585092994046, 0, []⟩

/-- It is more often open than not. -/
def likely : GroundedRule Float := ⟨"likely", -0.6, -0.8, 0, []⟩

/-- In a storm it is as likely open as not. -/
def storm : GroundedRule Float := ⟨"storm", -0.6931471805599453, -0.6931471805599453, 0, [1]⟩

/-- The bridge is never open. -/
def never : GroundedRule Float := ⟨"never", bottom, 0, 0, []⟩

/-- Of three priors the best is kept, and an impossible one does not stand in its way. -/
theorem cleanPriors_keeps_best_usual :
    Ranked Double.rank (fun x : Float => x.isNaN = false) ∧
      (∀ g ∈ [never, likely, storm, usual], g.ifTrue.isNaN = false) ∧
      HasPossibleUnit [never, likely, storm, usual] ∧
      ∃ prior others,
        cleanPriors [never, likely, storm, usual] 0.3 = some (prior, others) ∧
        IsFirstGreatest (·.ifTrue) [never, likely, usual] prior ∧
        cleanPriors [prior] 0.3 = some (prior, []) := by
  have hnumbers : ∀ g ∈ [never, likely, storm, usual], g.ifTrue.isNaN = false := by decide
  have hpossible : HasPossibleUnit [never, likely, storm, usual] :=
    ⟨usual, by simp, rfl, by decide⟩
  have hconsequent : ∀ g ∈ [never, likely, storm, usual], g.consequent = 0 := by decide
  obtain ⟨prior, others, hclean, hcleaned, -, -, hagain⟩ :=
    cleanPriors_keeps_best ranked_float (List.cons_ne_nil _ _) hconsequent hnumbers 0.3
  exact ⟨ranked_float, hnumbers, hpossible, prior, others, hclean, hcleaned.first hpossible,
    hagain [] (List.nil_sublist _)⟩

/-- **An impossible prior is not kept.**  The only rule says that the bridge is never open, and the
default prior takes its place. -/
theorem not_isBestPrior_never :
    (∀ g ∈ [never], g.consequent = 0 ∧ bottom ≤ g.ifTrue ∧ g.ifTrue ≤ 0 ∧ bottom ≤ g.ifFalse ∧
        g.ifFalse ≤ 0) ∧
      ((0 : Float) < 0.3 ∧ (0.3 : Float) < 1) ∧
      cleanPriors [never] 0.3 = some (.default 0 0.3, []) ∧
      ¬IsBestPrior 0 0.3 [never] (.default 0 0.3) := by
  refine ⟨by decide, by decide, rfl, fun hbest => ?_⟩
  have hmem := (hbest.first ⟨never, List.mem_singleton_self _, rfl⟩).mem
  have hname := congrArg GroundedRule.name (List.mem_singleton.1 hmem)
  exact absurd hname (by decide)

end FactNet
