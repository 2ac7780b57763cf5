import FactNet.Proofs.Grounding.ClosedWorld
import FactNet.Proofs.Grounding.Rows
import FactNet.Proofs.Odds

/-!
# What is stored

The log-probabilities of a clause are brought into the range between those of a ten-thousandth and
of all but a ten-thousandth before they are stored, so every grounded rule is in that range.  The
rows of a table are grounded rules, and they stay as they are.

The default prior is stored as it is.  It is a row where a consequent has no rule without
antecedents, and there it is in the range just if it is a probability between the two.

## Main definitions

* `LogProb.InRange`, `GroundedRule.InRange` — what may be stored.
* `Scalar.ClipsWeights` — numbers are ranked, and weights among them have log-probabilities.

## Main results

* `LogProb.clip_spec` — **what is clipped is in the range.**
* `Scalar.clipsWeights_ereal`, `Scalar.clipsWeights_float` — exact numbers and doubles.
* `Registry.stored_of_mem_groundings` — grounded rules are in the range.
* `GroundedRule.inRange_default_iff` — when the default prior is.
* `Registry.build_stores_in_range` — **rows are in the range but for the default prior.**
-/

namespace FactNet

open Scalar GroundState RuleTable

/-! ### The range -/

section Range

variable {α β : Type} [Scalar α]

/-- A log-probability is in the range that is stored. -/
def LogProb.InRange (x : α) : Prop := least ≤ x ∧ x ≤ greatest

/-- Both log-probabilities of a rule are in the range that is stored. -/
def GroundedRule.InRange (g : GroundedRule α) : Prop :=
  LogProb.InRange g.ifTrue ∧ LogProb.InRange g.ifFalse

/-- Some numbers are compared as their ranks are, weights among them have log-probabilities among
them, and so are the ends of the range, which are in order and above the logarithm of zero. -/
structure Scalar.ClipsWeights [LinearOrder β] (rank : α → β) (P : α → Prop) : Prop
    extends TotallyRanked rank P where
  least : P LogProb.least
  greatest : P LogProb.greatest
  bottom_lt_least : Scalar.bottom < (LogProb.least : α)
  least_lt_greatest : (LogProb.least : α) < LogProb.greatest
  neg : ∀ {w : α}, P w → P (-w)
  logSigmoid : ∀ {w : α}, P w → P (LogProb.logSigmoid w)

variable [LinearOrder β] {rank : α → β} {P : α → Prop}

/-- **What is clipped is in the range**, and above the logarithm of zero. -/
theorem LogProb.clip_spec (h : ClipsWeights rank P) {x : α} (hx : P x) :
    LogProb.InRange (clip x) ∧ bottom < clip x := by
  have hbottom := (h.lt_iff h.bottom h.least).1 h.bottom_lt_least
  have hends := (h.lt_iff h.least h.greatest).1 h.least_lt_greatest
  have hself : ∀ {y : α}, P y → y ≤ y := fun hy => (h.le_iff hy hy).2 le_rfl
  unfold clip
  split
  · exact ⟨⟨hself h.least, (h.le_iff h.least h.greatest).2 hends.le⟩, h.bottom_lt_least⟩
  · next hlow =>
    rw [h.lt_iff hx h.least, not_lt] at hlow
    split
    · exact ⟨⟨(h.le_iff h.least h.greatest).2 hends.le, hself h.greatest⟩,
        (h.lt_iff h.bottom h.greatest).2 (hbottom.trans hends)⟩
    · next hhigh =>
      rw [h.lt_iff h.greatest hx, not_lt] at hhigh
      exact ⟨⟨(h.le_iff h.least hx).2 hlow, (h.le_iff hx h.greatest).2 hhigh⟩,
        (h.lt_iff h.bottom hx).2 (hbottom.trans_le hlow)⟩

end Range

/-- This holds of exact numbers. -/
theorem Scalar.clipsWeights_ereal : ClipsWeights (id : EReal → EReal) fun _ => True where
  toTotallyRanked := totallyRanked_ereal
  least := trivial
  greatest := trivial
  bottom_lt_least := by
    rw [bottom_ereal, LogProb.least_eq, ENNReal.bot_lt_log_iff, ENNReal.ofReal_pos]
    norm_num
  least_lt_greatest := LogProb.least_lt_greatest
  neg _ := trivial
  logSigmoid _ := trivial

namespace Double

open Float.Model Float.Model.UnpackedFloat

/-- What a finite number and any number differ by is a number. -/
theorem isNaN_sub {s : Sign} {m : Nat} {e : Int} {hm : 0 < m} {b : UnpackedFloat}
    (hb : b.isNaN = false) :
    (UnpackedFloat.sub Format.binary64 (.finite s m e hm) b).isNaN = false := by
  cases b with
  | notANumber => cases hb
  | infinity s' => rfl
  | zero s' => rfl
  | finite s' m' e' hm' =>
    unfold UnpackedFloat.sub UnpackedFloat.normalize UnpackedFloat.round
    dsimp only
    split
    · exact isNaN_roundWithAccuracy ..
    · rfl
    · exact isNaN_roundWithAccuracy ..

/-- A number below zero that is not the one below all others is finite. -/
theorem unpack_eq_finite {x : Float} (hx : x.isNaN = false) (hbottom : (x == bottom) = false)
    (hneg : ¬Scalar.zero ≤ x) : ∃ s m e h, x.toModel.unpack = .finite s m e h := by
  have hlow : rank bottom = toLex (-2, toLex (0, 0)) := rfl
  have hzero : rank Scalar.zero = toLex (0, toLex (0, 0)) := rfl
  have hne : rank x ≠ rank bottom := fun heq => by
    rw [(beq_iff hx rfl).2 heq] at hbottom
    cases hbottom
  rw [le_iff rfl hx, hzero] at hneg
  rw [hlow] at hne
  unfold rank at hne hneg
  cases hu : x.toModel.unpack with
  | notANumber => exact absurd hu (unpack_ne_notANumber hx)
  | finite s m e h => exact ⟨s, m, e, h, rfl⟩
  | zero s =>
    rw [hu] at hneg
    exact absurd le_rfl hneg
  | infinity s =>
    rw [hu] at hne hneg
    cases s with
    | negative => exact absurd rfl hne
    | positive => exact absurd (by rw [rankOf, Prod.Lex.toLex_le_toLex]; omega) hneg

/-- The log-probability of a weight that is a number is a number, if the exponential of a number is
not below zero, and the logarithm of one more than what is not below zero is a number. -/
theorem isNaN_logSigmoid (hexp : ∀ x : Float, x.isNaN = false → Scalar.zero ≤ exp x)
    (hlog : ∀ x : Float, Scalar.zero ≤ x → (logOnePlus x).isNaN = false) {x : Float}
    (hx : x.isNaN = false) : (LogProb.logSigmoid x).isNaN = false := by
  unfold LogProb.logSigmoid
  split
  · rfl
  · split
    · rfl
    · next hbottom =>
      split
      · exact isNaN_neg (hlog _ (hexp _ (isNaN_neg hx)))
      · next hneg =>
        obtain ⟨s, m, e, h, hfinite⟩ :=
          unpack_eq_finite hx (Bool.eq_false_of_not_eq_true hbottom) hneg
        have hnumber := hlog _ (hexp x hx)
        show (Float.Model.pack (UnpackedFloat.sub Format.binary64 x.toModel.unpack
          (Scalar.logOnePlus (exp x)).toModel.unpack)).unpack.isNaN = false
        rw [hfinite]
        exact isNaN_unpack_pack (isNaN_sub hnumber)

end Double

/-- It holds of doubles that are numbers, if exponential and logarithm are what they should be. -/
theorem Scalar.clipsWeights_float
    (hexp : ∀ x : Float, x.isNaN = false → zero ≤ exp x)
    (hlog : ∀ x : Float, zero ≤ x → (logOnePlus x).isNaN = false)
    (hleast : bottom < (LogProb.least : Float))
    (hgreatest : (LogProb.least : Float) < LogProb.greatest) :
    ClipsWeights Double.rank fun x : Float => x.isNaN = false where
  toTotallyRanked := totallyRanked_float
  least := Double.isNaN_of_lt hleast
  greatest := Double.isNaN_of_lt hgreatest
  bottom_lt_least := hleast
  least_lt_greatest := hgreatest
  neg := Double.isNaN_neg
  logSigmoid := Double.isNaN_logSigmoid hexp hlog

/-! ### The default prior -/

/-- The logarithm of a probability is in the range if it is between a ten-thousandth and all but a
ten-thousandth. -/
theorem LogProb.inRange_ofProb_iff {x : ℝ} (hx : 0 < x) :
    InRange (ofProb (x : EReal)) ↔ 1 / 10 ^ 4 ≤ x ∧ x ≤ 1 - 1 / 10 ^ 4 := by
  rw [InRange, ofProb_coe hx, least_eq, greatest_eq_ofReal, ENNReal.log_le_log_iff,
    ENNReal.log_le_log_iff, ENNReal.ofReal_le_ofReal_iff hx.le,
    ENNReal.ofReal_le_ofReal_iff (by norm_num)]

/-- **When the default prior is in the range.** -/
theorem GroundedRule.inRange_default_iff (c : Nat) {d : EReal} (h0 : 0 < d) (h1 : d < 1) :
    (GroundedRule.default c d).InRange ↔ decimal 1 4 ≤ d ∧ d ≤ one - decimal 1 4 := by
  obtain ⟨x, rfl⟩ : ∃ x : ℝ, (x : EReal) = d :=
    ⟨d.toReal, EReal.coe_toReal (ne_top_of_lt h1) (ne_bot_of_gt h0)⟩
  have hx : 0 < x := by exact_mod_cast h0
  have hx' : 0 < 1 - x := sub_pos.2 (by exact_mod_cast h1)
  have hopposite : (one : EReal) - x = ((1 - x : ℝ) : EReal) := by
    rw [one_ereal, EReal.coe_sub, EReal.coe_one]
  have hends : (decimal 1 4 : EReal) = ((1 / 10 ^ 4 : ℝ) : EReal) ∧
      (one : EReal) - decimal 1 4 = ((1 - 1 / 10 ^ 4 : ℝ) : EReal) := by
    rw [one_ereal, decimal_ereal, Nat.cast_one, EReal.coe_sub, EReal.coe_one]
    exact ⟨rfl, rfl⟩
  rw [InRange, GroundedRule.default, hopposite, LogProb.inRange_ofProb_iff hx,
    LogProb.inRange_ofProb_iff hx', hends.2, hends.1, EReal.coe_le_coe_iff, EReal.coe_le_coe_iff]
  constructor
  · exact And.left
  · rintro ⟨hlow, hhigh⟩
    exact ⟨⟨hlow, hhigh⟩, by linarith, by linarith⟩

/-! ### Grounded rules -/

namespace Registry

variable {α β : Type} [Scalar α] [Numeral α] [LinearOrder β] {rank : α → β} {P : α → Prop}
variable {r : Registry α} {net : BayesNet α} {notes : List Event} {g : GroundedRule α} {i : Nat}

omit [LinearOrder β] in
/-- A clause has the weight of a prior or a rule, or that of its negation. -/
theorem exists_weight_of_mem_clauses {c : Weighted α} (hc : c ∈ r.clauses) :
    ∃ rule ∈ r.priors ++ r.rules, c.1 = rule.weight ∨ c.1 = -rule.weight := by
  have hunit : ∀ u ∈ r.units, ∃ rule ∈ r.priors ++ r.rules,
      u.2 = rule.weight ∨ u.2 = -rule.weight := by
    intro u hu
    obtain ⟨rule, hrule, hunit⟩ := List.mem_filterMap.1 hu
    refine ⟨rule, hrule, ?_⟩
    unfold positiveUnit? at hunit
    split at hunit
    · obtain rfl := Option.some_inj.1 hunit
      split
      · exact .inl rfl
      · exact .inr rfl
    · cases hunit
  rcases List.mem_append.1 hc with hc | hc
  · rcases List.mem_append.1 hc with hc | hc
    · obtain ⟨u, hu, rfl⟩ := List.mem_map.1 hc
      exact hunit u (List.mem_of_mem_filter hu)
    · obtain ⟨rule, hrule, hc⟩ := List.mem_flatMap.1 hc
      obtain ⟨clause, -, rfl⟩ := List.mem_map.1 hc
      exact ⟨rule, List.mem_append_right _ (List.mem_of_mem_filter hrule), .inl rfl⟩
  · obtain ⟨u, hu, hc⟩ := List.mem_flatMap.1 hc
    obtain ⟨v, -, rfl⟩ := List.mem_map.1 hc
    exact hunit u (List.mem_of_mem_filter hu)

/-- **Grounded rules are in the range.** -/
theorem stored_of_mem_groundings (h : ClipsWeights rank P)
    (hweights : ∀ rule ∈ r.priors ++ r.rules, P rule.weight)
    (hg : g ∈ r.groundAll.1.groundings.toList) : g.InRange ∧ bottom < g.ifTrue := by
  obtain ⟨-, -, hgroundings⟩ := r.groundings_groundAll
  rw [hgroundings] at hg
  obtain ⟨c, hc, hg⟩ := List.mem_filterMap.1 hg
  obtain ⟨head, -, rfl⟩ := Option.map_eq_some_iff.1 hg
  have hweight : P c.1 := by
    obtain ⟨rule, hrule, heq | heq⟩ := exists_weight_of_mem_clauses hc
    · rw [heq]
      exact hweights rule hrule
    · rw [heq]
      exact h.neg (hweights rule hrule)
  obtain ⟨htrue, hbottom⟩ := LogProb.clip_spec h (h.logSigmoid hweight)
  exact ⟨⟨htrue, (LogProb.clip_spec h (h.logSigmoid (h.neg hweight))).1⟩, hbottom⟩

/-! ### Rows -/

/-- A consequent has a rule without antecedents. -/
def HasPrior (r : Registry α) (i : Nat) : Prop := ∃ u ∈ r.rulesOf i, u.isUnit = true

omit [LinearOrder β] in
/-- The prior that is kept is the default one if there is no other, and otherwise one that is. -/
theorem priorAt_cases (hbelow : ∀ u ∈ r.rulesOf i, bottom < u.ifTrue) :
    (r.priorAt i = .default i r.defaultPrior ∧ ¬r.HasPrior i) ∨
      r.priorAt i ∈ r.rulesOf i ∧ r.HasPrior i := by
  rcases choosePrior_cases (.default i r.defaultPrior) (r.rulesOf i).eraseDups with
    ⟨heq, hnone⟩ | ⟨hmem, hunit⟩
  · refine .inl ⟨heq, fun ⟨u, hu, hunit⟩ => ?_⟩
    obtain ⟨u', hu', heq'⟩ :=
      exists_mem_eraseDups (fun _ _ => GroundedRule.antecedents_of_beq) hu
    have hunit' : u'.isUnit = true := by
      rw [GroundedRule.isUnit, heq']
      exact hunit
    exact hnone u' hu' hunit' (hbelow u' (eraseDups_subset _ hu'))
  · have hmem := eraseDups_subset _ hmem
    exact .inr ⟨hmem, _, hmem, hunit⟩

omit [LinearOrder β] in
/-- A row of a table of a consequent is one of its rules, or the default prior if it has none. -/
theorem mem_rulesOf_or_default (hbelow : ∀ u ∈ r.rulesOf i, bottom < u.ifTrue)
    {b : List (GroundedRule α)} (hb : b ∈ groupsOf (r.rulesOf i))
    (hg : g ∈ rowsOf i r.defaultPrior (r.priorAt i :: b)) :
    g ∈ r.rulesOf i ∨ g = .default i r.defaultPrior ∧ ¬r.HasPrior i := by
  have hmem : ∀ g ∈ r.priorAt i :: b,
      g ∈ r.rulesOf i ∨ g = .default i r.defaultPrior ∧ ¬r.HasPrior i := by
    refine List.forall_mem_cons.2 ⟨?_, fun g hg => .inl (mem_of_mem_groupsOf hb hg).1⟩
    exact (priorAt_cases hbelow).symm.imp_left And.left
  rcases mem_rowsOf.1 hg with rfl | ⟨hg, -⟩
  · rcases choosePrior_cases (.default i r.defaultPrior) (r.priorAt i :: b) with
      ⟨heq, hnone⟩ | ⟨hchosen, -⟩
    · refine .inr ⟨heq, fun hprior => ?_⟩
      -- the prior that is kept would be above the logarithm of zero
      have hunit : (r.priorAt i).isUnit = true :=
        List.isEmpty_iff.2 (choosePrior_antecedents i r.defaultPrior _)
      rcases priorAt_cases hbelow with ⟨-, hnot⟩ | ⟨hkept, -⟩
      · exact hnot hprior
      · exact hnone _ List.mem_cons_self hunit (hbelow _ hkept)
    · exact hmem _ hchosen
  · exact hmem g hg

omit [LinearOrder β] in
/-- Where a consequent has no rule without antecedents, the default prior is a row. -/
theorem default_mem_rowsOf (hnone : ¬r.HasPrior i) {b : List (GroundedRule α)}
    (hb : b ∈ groupsOf (r.rulesOf i)) :
    .default i r.defaultPrior ∈ rowsOf i r.defaultPrior (r.priorAt i :: b) := by
  have hkept : r.priorAt i = .default i r.defaultPrior := by
    refine (choosePrior_mem _ _).resolve_right fun ⟨hmem, hunit⟩ => hnone ⟨_, ?_, hunit⟩
    exact eraseDups_subset _ hmem
  refine mem_rowsOf.2 (.inl ?_)
  rcases choosePrior_mem (.default i r.defaultPrior) (r.priorAt i :: b) with heq | ⟨hmem, hunit⟩
  · exact heq.symm
  · rcases List.mem_cons.1 hmem with heq | hmem
    · rw [heq, hkept]
    · rw [(mem_of_mem_groupsOf hb hmem).2] at hunit
      cases hunit

/-! ### The network that is built -/

omit [LinearOrder β] in
/-- A consequent that is open and has no prior has the default prior as a row. -/
theorem Built.exists_default (h : r.Built net) (hi : i ∈ r.consequents)
    (hfixed : r.fixedAt i = none) (hnone : ¬r.HasPrior i) :
    ∃ f ∈ net.factors.toList, .default i r.defaultPrior ∈ f.rules := by
  obtain ⟨f, hf, b, hb, hrules⟩ := h.exists_factor hi hfixed
  exact ⟨f, hf, hrules ▸ default_mem_rowsOf hnone hb⟩

/-- **Rows are in the range but for the default prior.**

Whatever the numbers, if the weights of priors and rules have log-probabilities, then every grounded
rule is in the range that is stored, and so is every row of a table, unless it is the default prior
of a consequent that has no rule without antecedents.  So all rows are in the range just if the
default prior is or no table needs it.  Over exact numbers the default prior is in the range just if
it is no less than a ten-thousandth and no more than all but a ten-thousandth. -/
theorem build_stores_in_range (hclips : ClipsWeights rank P)
    (hweights : ∀ rule ∈ r.priors ++ r.rules, P rule.weight) (hbuild : r.build = .ok (net, notes)) :
    (∀ g ∈ r.groundAll.1.groundings.toList, g.InRange) ∧
    (∀ f ∈ net.factors.toList, ∀ g ∈ f.rules, g.InRange ∨
      g = .default g.consequent r.defaultPrior ∧ ¬r.HasPrior g.consequent) ∧
    ((∀ f ∈ net.factors.toList, ∀ g ∈ f.rules, g.InRange) ↔
      (∀ c, (GroundedRule.default c r.defaultPrior).InRange) ∨
        ∀ i ∈ r.consequents, r.fixedAt i = none → r.HasPrior i) ∧
    ∀ (c : Nat) (d : EReal), 0 < d → d < 1 →
      ((GroundedRule.default c d).InRange ↔ decimal 1 4 ≤ d ∧ d ≤ one - decimal 1 4) := by
  have hbuilt := built_of_build hbuild
  have hstored : ∀ g ∈ r.groundAll.1.groundings.toList, g.InRange ∧ bottom < g.ifTrue :=
    fun g hg => stored_of_mem_groundings hclips hweights hg
  have hrulesOf : ∀ i, ∀ u ∈ r.rulesOf i, u.InRange ∧ bottom < u.ifTrue := fun i u hu =>
    hstored u (List.mem_of_mem_filter hu)
  -- a row is a grounded rule, or the default prior of a consequent without a prior
  have hrows : ∀ f ∈ net.factors.toList, ∀ g ∈ f.rules, g.InRange ∨
      g = .default g.consequent r.defaultPrior ∧ ¬r.HasPrior g.consequent ∧
        g.consequent ∈ r.consequents ∧ r.fixedAt g.consequent = none := by
    intro f hf g hg
    obtain ⟨i, hi, hfixed, b, hb, hrules⟩ := hbuilt.rules_of_mem_factors hf
    rw [hrules] at hg
    rcases mem_rulesOf_or_default (fun u hu => (hrulesOf i u hu).2) hb hg with hg | ⟨rfl, hnone⟩
    · exact .inl (hrulesOf i g hg).1
    · exact .inr ⟨rfl, hnone, hi, hfixed⟩
  refine ⟨fun g hg => (hstored g hg).1, fun f hf g hg => ?_,
    ⟨fun hall => ?_, fun h f hf g hg => ?_⟩, fun c d => GroundedRule.inRange_default_iff c⟩
  · exact (hrows f hf g hg).imp_right fun ⟨heq, hnone, _⟩ => ⟨heq, hnone⟩
  · -- a consequent in need of the default prior has it as a row
    by_contra hnot
    obtain ⟨hdefault, hneeds⟩ := not_or.1 hnot
    push Not at hneeds
    obtain ⟨i, hi, hfixed, hnone⟩ := hneeds
    obtain ⟨f, hf, hrow⟩ := hbuilt.exists_default hi hfixed hnone
    have hrange := hall f hf _ hrow
    exact hdefault fun c => hrange
  · rcases hrows f hf g hg with hrange | ⟨heq, hnone, hi, hfixed⟩
    · exact hrange
    · rcases h with hdefault | hprior
      · rw [heq]
        exact hdefault _
      · exact absurd (hprior _ hi hfixed) hnone

/-- With a default prior of one half everything is in the range. -/
theorem build_stores_in_range_kinship : letI := unwritten
    let r := (fresh .geometricMean ((1 / 2 : ℝ) : EReal) false 1).after kinshipHistory
    ClipsWeights (id : EReal → EReal) (fun _ => True) ∧
      (decimal 1 4 : EReal) ≤ ((1 / 2 : ℝ) : EReal) ∧
      ∃ net notes, r.build = .ok (net, notes) ∧
        ∀ f ∈ net.factors.toList, ∀ g ∈ f.rules, g.InRange := by
  let _ := unwritten
  intro r
  obtain ⟨net, notes, hbuild⟩ := exists_build_kinship
  obtain ⟨-, -, hall, hdefault⟩ :=
    build_stores_in_range clipsWeights_ereal (fun _ _ => trivial) hbuild
  obtain ⟨h0, h1⟩ := lt_of_create create_kinship
  have hlow : (decimal 1 4 : EReal) ≤ ((1 / 2 : ℝ) : EReal) := by
    rw [decimal_ereal, EReal.coe_le_coe_iff]
    norm_num
  have hhigh : ((1 / 2 : ℝ) : EReal) ≤ one - decimal 1 4 := by
    rw [one_ereal, decimal_ereal, ← EReal.coe_one, ← EReal.coe_sub, EReal.coe_le_coe_iff]
    norm_num
  refine ⟨clipsWeights_ereal, hlow, net, notes, hbuild, hall.2 (.inl fun c => ?_)⟩
  rw [after_kinshipHistory]
  exact (hdefault c _ h0 h1).2 ⟨hlow, hhigh⟩

/-- Parents may be ancestors. -/
noncomputable def doubtRule : Rule EReal := ⟨1, kinshipRule.literals⟩

/-- A closed predicate with a piece of evidence, an open one without a prior, and a rule. -/
noncomputable def doubtHistory : List (Registration EReal) :=
  [.predicates [⟨"parent", "Person", "Person", true⟩],
    .predicates [⟨"ancestor", "Person", "Person", false⟩],
    .evidence [⟨"parent", "Ann", "Bob", true⟩],
    .rules [doubtRule]]

theorem after_doubtHistory : letI := unwritten
    (fresh .geometricMean ((1 / 10 ^ 5 : ℝ) : EReal) false 1).after doubtHistory =
      { fresh .geometricMean ((1 / 10 ^ 5 : ℝ) : EReal) false 1 with
        predicates := [⟨"parent", "Person", "Person", true⟩, ⟨"ancestor", "Person", "Person", false⟩]
        domains := ⟨[("Person", ["Ann", "Bob"])]⟩
        evidence := [⟨"parent", "Ann", "Bob", true⟩]
        rules := [doubtRule] } := by
  simp [doubtHistory, after, register, addPredicates]
  rfl

theorem create_doubt : letI := unwritten
    let d : EReal := ((1 / 10 ^ 5 : ℝ) : EReal)
    (0 < d ∧ d < 1) ∧ create .geometricMean d false 1 = .ok (fresh .geometricMean d false 1) := by
  let _ := unwritten
  intro d
  have h0 : 0 < d := by
    rw [← EReal.coe_zero, EReal.coe_lt_coe_iff]
    norm_num
  have h1 : d < 1 := by
    rw [← EReal.coe_one, EReal.coe_lt_coe_iff]
    norm_num
  exact ⟨⟨h0, h1⟩, create_eq_ok .geometricMean h0 h1 false 1⟩

/-- The consequent of the only grounded rule is open and without a prior, if the rule has an
antecedent and the weight one. -/
theorem open_of_groundings_eq [Numeral EReal] {r : Registry EReal} {g : GroundedRule EReal}
    (h : r.groundAll.1.groundings.toList = [g]) (hunit : g.isUnit = false)
    (hweight : g.ifTrue = LogProb.clip (LogProb.logSigmoid 1)) :
    g.consequent ∈ r.consequents ∧ r.fixedAt g.consequent = none ∧
      ¬r.HasPrior g.consequent := by
  have hrules : r.rulesOf g.consequent = [g] := by
    rw [rulesOf, h, List.filter_singleton, beq_self_eq_true]
    rfl
  refine ⟨mem_consequents.2 (by simp [hrules]), ?_, ?_⟩
  · unfold fixedAt
    split
    · rfl
    · exact fixedBy?_eq_none_of_one (by simp [hrules]) hweight
  · rintro ⟨u, hu, hunit'⟩
    rw [hrules, List.mem_singleton] at hu
    rw [hu, hunit] at hunit'
    cases hunit'

/-- The network that is built of it has a table, and the default prior is a row of that. -/
theorem exists_default_doubt : letI := unwritten
    let d : EReal := ((1 / 10 ^ 5 : ℝ) : EReal)
    let r := (fresh .geometricMean d false 1).after doubtHistory
    ∃ net notes, r.build = .ok (net, notes) ∧
      ∃ f ∈ net.factors.toList, ∃ c, GroundedRule.default c d ∈ f.rules := by
  let _ := unwritten
  intro d r
  have hr : r = _ := after_doubtHistory
  have hfew : r.mentioned.length < tableCeiling := by
    rw [hr]
    decide
  obtain ⟨net, notes, hbuild⟩ := exists_build_after create_doubt.2 (by decide) hfew
  have hclauses : r.clauses =
      [(1, [⟨"parent", "Ann", "Bob", false⟩, ⟨"ancestor", "Ann", "Bob", true⟩])] := by
    rw [hr]
    rfl
  obtain ⟨g, hgroundings, hunit, hweight⟩ : ∃ g, r.groundAll.1.groundings.toList = [g] ∧
      g.isUnit = false ∧ g.ifTrue = LogProb.clip (LogProb.logSigmoid 1) := by
    rw [r.groundings_groundAll.2.2, hclauses]
    exact ⟨_, rfl, rfl, rfl⟩
  have hprior : r.defaultPrior = d := by
    rw [hr]
    rfl
  obtain ⟨hconsequent, hopen, hnone⟩ := open_of_groundings_eq hgroundings hunit hweight
  obtain ⟨f, hf, hrow⟩ := (built_of_build hbuild).exists_default hconsequent hopen hnone
  exact ⟨net, notes, hbuild, f, hf, g.consequent, hprior ▸ hrow⟩

/-- With a default prior of one in a hundred thousand a row is below the range. -/
theorem not_inRange_doubt : letI := unwritten
    let d : EReal := ((1 / 10 ^ 5 : ℝ) : EReal)
    let r := (fresh .geometricMean d false 1).after doubtHistory
    create .geometricMean d false 1 = .ok (fresh .geometricMean d false 1) ∧
      ∃ net notes, r.build = .ok (net, notes) ∧
        ∃ f ∈ net.factors.toList, ∃ g ∈ f.rules, ¬g.InRange := by
  let _ := unwritten
  intro d r
  obtain ⟨⟨h0, h1⟩, hcreate⟩ := create_doubt
  obtain ⟨net, notes, hbuild, f, hf, c, hdefault⟩ := exists_default_doubt
  refine ⟨hcreate, net, notes, hbuild, f, hf, _, hdefault, ?_⟩
  rw [GroundedRule.inRange_default_iff c h0 h1, decimal_ereal, EReal.coe_le_coe_iff]
  norm_num

end Registry

end FactNet
