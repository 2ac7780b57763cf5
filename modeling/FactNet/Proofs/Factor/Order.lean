import FactNet.Proofs.Factor.Bounds
import FactNet.Proofs.Factor.Pattern

/-!
# The order of rules does not count

Over exact numbers a table of grounded rules does not depend on the order in which they were given:
which rules count is told by what holds and how many antecedents there are, and merging has a closed
form that adds numbers or takes a mean of them.  Nor does it depend on what the rules are called and
how the variables are numbered, as long as rules that say the same are there equally often.

Of several priors the one that is kept has the greatest log-probability of truth.

## Main definitions

* `GroundedRule.logs`, `GroundedRule.tells` — the log-probabilities of a rule, and beside them its
  antecedents under other names.
* `MergeMethod.sides`, `MergeMethod.closedForm` — what rules are merged to, without regard to their
  order.

## Main results

* `MergeMethod.runningMean_eq` — the mean that is kept up is the sum by the number.
* `MergeMethod.merge_eq_closedForm` — **merging in closed form.**
* `MergeMethod.merge_perm` — **merging depends on which log-probabilities there are.**
* `RuleTable.active_eq_filter` — the rules that count, without regard to their order.
* `RuleTable.entry_perm` — **an entry depends on what the rows say.**
* `choosePrior_spec`, `choosePrior_congr` — **the prior that is kept is a greatest one**, so what is
  read of it does not depend on the order.
-/

namespace FactNet

open Scalar

namespace GroundedRule

variable {α β : Type}

instance [BEq α] [LawfulBEq α] : LawfulBEq (GroundedRule α) where
  eq_of_beq {g g'} h := by
    obtain ⟨name, ifTrue, ifFalse, consequent, antecedents⟩ := g
    obtain ⟨name', ifTrue', ifFalse', consequent', antecedents'⟩ := g'
    change (name == name' && ifTrue == ifTrue' && ifFalse == ifFalse' && consequent == consequent'
      && antecedents == antecedents') = true at h
    simpa [and_assoc] using h
  rfl {g} := by
    change (g.name == g.name && g.ifTrue == g.ifTrue && g.ifFalse == g.ifFalse
      && g.consequent == g.consequent && g.antecedents == g.antecedents) = true
    simp

/-- Rules that are told to be the same have the same antecedents. -/
theorem antecedents_of_beq [BEq α] {g g' : GroundedRule α} (h : (g == g') = true) :
    g.antecedents = g'.antecedents := by
  change (g.name == g'.name && g.ifTrue == g'.ifTrue && g.ifFalse == g'.ifFalse
    && g.consequent == g'.consequent && g.antecedents == g'.antecedents) = true at h
  simp only [Bool.and_eq_true] at h
  exact eq_of_beq h.2

/-- The two log-probabilities of a rule. -/
def logs (g : GroundedRule α) : α × α := (g.ifTrue, g.ifFalse)

/-- The log-probabilities of a rule, and its antecedents by other names. -/
def tells (name : Nat → β) (g : GroundedRule α) : (α × α) × List β :=
  (g.logs, g.antecedents.map name)

/-- The logarithm of a probability is not above all numbers. -/
theorem IsProb.ifTrue_ne_top {r : GroundedRule EReal} (h : r.IsProb) : r.ifTrue ≠ ⊤ :=
  (h.1.trans_lt EReal.zero_lt_top).ne

theorem map_logs_of_tells (name : Nat → β) (rows : List (GroundedRule α)) :
    (rows.map (tells name)).map (·.1) = rows.map logs := by
  rw [List.map_map]
  rfl

end GroundedRule

/-- The logarithm of what is not above zero is that of zero. -/
theorem LogProb.ofProb_ereal (p : EReal) : LogProb.ofProb p = ENNReal.log p.toENNReal := by
  unfold LogProb.ofProb
  split
  · next h =>
    rw [EReal.toENNReal_of_nonpos (by simpa using h), ENNReal.log_zero]
    rfl
  · rfl

namespace MergeMethod

variable {prior prior' : GroundedRule EReal} {rows rows' : List (GroundedRule EReal)}

open GroundedRule

/-! ### Closed forms -/

section Sides

variable {α : Type} [Scalar α]

/-- Whether log-probabilities speak for a consequent. -/
def logsFavour (x : α × α) : Bool := x.2 < x.1

/-- The number of sides that rules are on: those that speak for the consequent, and the others. -/
def sides (rows : List (GroundedRule α)) : ℕ :=
  (if rows.any favours then 1 else 0) + (if rows.any fun r => !favours r then 1 else 0)

/-- Rules are on a side. -/
theorem sides_pos {rows : List (GroundedRule α)} (hne : rows ≠ []) : 0 < sides rows := by
  obtain ⟨r, hr⟩ := List.exists_mem_of_ne_nil rows hne
  unfold sides
  cases hfavours : favours r with
  | true =>
    have hpro : rows.any favours = true := List.any_eq_true.2 ⟨r, hr, hfavours⟩
    rw [if_pos hpro]
    exact Nat.add_pos_left Nat.one_pos _
  | false =>
    have hcontra : (rows.any fun r => !favours r) = true :=
      List.any_eq_true.2 ⟨r, hr, by rw [hfavours]; rfl⟩
    rw [if_pos hcontra]
    exact Nat.add_pos_right _ Nat.one_pos

end Sides

/-- The logarithm of the probability that no rule makes the consequent true, none making it less
probable than the prior does. -/
noncomputable def sumFalse (prior : GroundedRule EReal) (rows : List (GroundedRule EReal)) :
    EReal := (rows.map fun r => min prior.ifFalse r.ifFalse).sum

/-- The logarithm of the probability that every rule makes it true, none taken below the prior's. -/
noncomputable def sumTrue (prior : GroundedRule EReal) (rows : List (GroundedRule EReal)) :
    EReal := (rows.map fun r => max prior.ifTrue r.ifTrue).sum

/-- The logarithm of the mean of the probabilities of the sides that rules are on. -/
noncomputable def logMean (rows : List (GroundedRule EReal)) (p q : EReal) : EReal :=
  ENNReal.log (((if rows.any favours then p else 0) +
    (if rows.any fun r => !favours r then q else 0)) / (sides rows : ℝ)).toENNReal

/-- What rules are merged to, without regard to their order. -/
noncomputable def closedForm (m : MergeMethod) (prior : GroundedRule EReal)
    (rows : List (GroundedRule EReal)) : EReal :=
  let pro := rows.filter favours
  let contra := rows.filter fun r => !favours r
  match m with
  | .noisyOr => ENNReal.log (1 - EReal.exp (sumFalse prior rows))
  | .geometricMean => sumTrue prior rows / (rows.length : ℝ)
  | .hybridOr =>
    logMean rows (1 - EReal.exp (sumFalse prior pro)) (EReal.exp (sumTrue prior contra))
  | .gentleOr =>
    logMean rows (1 - EReal.exp (sumFalse prior pro)) (1 - EReal.exp (sumFalse prior contra))

theorem jointlyFalse_eq (prior : GroundedRule EReal) (rows : List (GroundedRule EReal)) :
    jointlyFalse prior rows = sumFalse prior rows := by
  rw [jointlyFalse, sum_ereal, sumFalse]
  simp only [least_ereal]

theorem jointlyTrue_eq (prior : GroundedRule EReal) (rows : List (GroundedRule EReal)) :
    jointlyTrue prior rows = sumTrue prior rows := by
  rw [jointlyTrue, sum_ereal, sumTrue]
  simp only [greatest_ereal]

/-- The mean of real numbers, of which the first counts `n` times, makes up for their sum. -/
theorem runningMean_real (a : ℝ) (n : Nat) (xs : List ℝ) :
    ∃ mean : ℝ, runningMean (a : EReal) n (xs.map Real.toEReal) = mean ∧
      mean * (n + xs.length : ℕ) = n * a + xs.sum := by
  induction xs generalizing a n with
  | nil => exact ⟨a, rfl, by simp [mul_comm]⟩
  | cons x xs ih =>
    obtain ⟨mean, hmean, hsum⟩ := ih (a + (x - a) / ((n + 1 : ℕ) : ℝ)) (n + 1)
    refine ⟨mean, ?_, ?_⟩
    · rw [← hmean, List.map_cons, runningMean, nat_ereal]
      norm_cast
    · have hstep : ((n + 1 : ℕ) : ℝ) * (a + (x - a) / ((n + 1 : ℕ) : ℝ)) = n * a + x := by
        have : ((n + 1 : ℕ) : ℝ) ≠ 0 := Nat.cast_ne_zero.2 (Nat.succ_ne_zero n)
        field_simp
        push_cast
        ring
      rw [hstep] at hsum
      rw [List.length_cons, List.sum_cons, ← add_assoc (n * a), ← hsum, ← Nat.add_assoc,
        Nat.add_right_comm]

/-- The logarithm of zero takes a mean with it. -/
theorem runningMean_bot {xs : List EReal} (hbot : ⊥ ∈ xs) (acc : EReal) (n : Nat) :
    runningMean acc n xs = ⊥ := by
  have hstays : ∀ (xs : List EReal) (n : Nat), runningMean (⊥ : EReal) n xs = ⊥ := by
    intro xs
    induction xs with
    | nil => exact fun _ => rfl
    | cons x xs ih =>
      intro n
      rw [runningMean, EReal.bot_add, ih]
  induction xs generalizing acc n with
  | nil => cases hbot
  | cons x xs ih =>
    rcases List.mem_cons.1 hbot with rfl | hbot
    · have hpos : (0 : EReal) < ((n + 1 : ℕ) : ℝ) := by exact_mod_cast Nat.succ_pos n
      rw [runningMean, nat_ereal, EReal.bot_sub,
        EReal.bot_div_of_pos_ne_top hpos (EReal.coe_ne_top _), EReal.add_bot, hstays]
    · exact ih hbot _ _

/-- **The mean that is kept up is the sum by the number.** -/
theorem runningMean_eq {xs : List EReal} (htop : ∀ x ∈ xs, x ≠ ⊤) :
    runningMean (0 : EReal) 0 xs = xs.sum / (xs.length : ℝ) := by
  by_cases hbot : ⊥ ∈ xs
  · have hsum : xs.sum = ⊥ := by
      obtain ⟨before, after, rfl⟩ := List.append_of_mem hbot
      rw [List.sum_append, List.sum_cons, EReal.bot_add, EReal.add_bot]
    have hpos : (0 : EReal) < (xs.length : ℝ) := by
      exact_mod_cast List.length_pos_of_mem hbot
    rw [runningMean_bot hbot, hsum, EReal.bot_div_of_pos_ne_top hpos (EReal.coe_ne_top _)]
  · -- all of them are real numbers
    obtain ⟨as, rfl⟩ : ∃ as : List ℝ, as.map Real.toEReal = xs := by
      refine ⟨xs.map EReal.toReal, ?_⟩
      rw [List.map_map]
      exact (List.map_congr_left fun x hx =>
        EReal.coe_toReal (htop x hx) fun h => hbot (h ▸ hx)).trans (List.map_id xs)
    have hsum : (as.map Real.toEReal).sum = (as.sum : EReal) := by
      induction as with
      | nil => simp
      | cons a as ih => simp_all
    obtain ⟨mean, hmean, hmul⟩ := runningMean_real 0 0 as
    rw [EReal.coe_zero] at hmean
    rw [Nat.cast_zero, zero_mul, Nat.zero_add, zero_add] at hmul
    rw [hmean, hsum, List.length_map, ← EReal.coe_div, ← hmul]
    rcases eq_or_ne as [] with rfl | hne
    · have hzero : (0 : EReal) = (mean : ℝ) := hmean
      simpa using hzero.symm
    · rw [mul_div_cancel_right₀ mean (Nat.cast_ne_zero.2 (by simpa using hne))]

/-- A mean of the sides is that of those that have a rule on them. -/
theorem meanOfBranches_eq (rows : List (GroundedRule EReal)) (p q : EReal) :
    meanOfBranches (rows.filter favours) (rows.filter fun r => !favours r) p q =
      logMean rows p q := by
  have hempty : ∀ side : GroundedRule EReal → Bool,
      (rows.filter side).isEmpty = !rows.any side := by
    intro side
    rw [Bool.eq_iff_iff]
    simp
  unfold meanOfBranches branch logMean sides
  rw [LogProb.ofProb_ereal, hempty, hempty, zero_ereal, nat_ereal]
  cases rows.any favours <;> cases rows.any fun r => !favours r <;> rfl

/-- **Merging in closed form.** -/
theorem merge_eq_closedForm (m : MergeMethod) (hprior : prior.ifTrue ≠ ⊤)
    (hrows : ∀ r ∈ rows, r.ifTrue ≠ ⊤) : m.merge prior rows = m.closedForm prior rows := by
  have hbranch : ∀ rows, -expLessOne (jointlyFalse prior rows) =
      1 - EReal.exp (sumFalse prior rows) := by
    intro rows
    rw [expLessOne_ereal, neg_sub_one_ereal, jointlyFalse_eq]
  cases m with
  | noisyOr =>
    rw [merge, closedForm, jointlyFalse_eq]
    rcases le_total (sumFalse prior rows) 0 with hle | hle
    · exact LogProb.complement_ereal hle
    · rw [LogProb.complement, if_pos (by simpa using hle),
        tsub_eq_zero_of_le (EReal.one_le_exp_iff.2 hle)]
      simp
  | geometricMean =>
    simp only [merge, closedForm, sumTrue, zero_ereal, greatest_ereal]
    rw [runningMean_eq, List.length_map]
    intro x hx
    obtain ⟨r, hr, rfl⟩ := List.mem_map.1 hx
    exact (max_lt (lt_top_iff_ne_top.2 hprior) (lt_top_iff_ne_top.2 (hrows r hr))).ne
  | hybridOr =>
    simp only [merge, closedForm, meanOfBranches_eq, hbranch, jointlyTrue_eq, exp_ereal]
  | gentleOr => simp only [merge, closedForm, meanOfBranches_eq, hbranch]

/-! ### The order of rules -/

theorem perm_map_logs_filter {α : Type} {rows rows' : List (GroundedRule α)} (p : α × α → Bool)
    (hrows : (rows.map logs).Perm (rows'.map logs)) :
    ((rows.filter fun r => p r.logs).map logs).Perm
      ((rows'.filter fun r => p r.logs).map logs) := by
  have hfilter : ∀ rows : List (GroundedRule α),
      (rows.filter fun r => p r.logs).map logs = (rows.map logs).filter p := by
    intro rows
    rw [List.filter_map]
    rfl
  rw [hfilter, hfilter]
  exact hrows.filter p

theorem sumFalse_perm (hprior : prior.logs = prior'.logs)
    (hrows : (rows.map logs).Perm (rows'.map logs)) :
    sumFalse prior rows = sumFalse prior' rows' := by
  have hsum : ∀ rows : List (GroundedRule EReal), sumFalse prior' rows =
      ((rows.map logs).map fun x => min prior'.ifFalse x.2).sum := by
    intro rows
    rw [List.map_map]
    rfl
  have hfalse : prior.ifFalse = prior'.ifFalse := congrArg Prod.snd hprior
  rw [sumFalse, hfalse, ← sumFalse, hsum, hsum]
  exact (hrows.map _).sum_eq

theorem sumTrue_perm (hprior : prior.logs = prior'.logs)
    (hrows : (rows.map logs).Perm (rows'.map logs)) :
    sumTrue prior rows = sumTrue prior' rows' := by
  have hsum : ∀ rows : List (GroundedRule EReal), sumTrue prior' rows =
      ((rows.map logs).map fun x => max prior'.ifTrue x.1).sum := by
    intro rows
    rw [List.map_map]
    rfl
  have htrue : prior.ifTrue = prior'.ifTrue := congrArg Prod.fst hprior
  rw [sumTrue, htrue, ← sumTrue, hsum, hsum]
  exact (hrows.map _).sum_eq

theorem logMean_perm (hrows : (rows.map logs).Perm (rows'.map logs)) (p q : EReal) :
    logMean rows p q = logMean rows' p q := by
  have hany : ∀ side : EReal × EReal → Bool,
      (rows.any fun r => side r.logs) = rows'.any fun r => side r.logs := by
    intro side
    have h := hrows.any_eq (f := side)
    rwa [List.any_map, List.any_map] at h
  unfold logMean sides
  rw [show rows.any favours = rows'.any favours from hany logsFavour,
    show (rows.any fun r => !favours r) = rows'.any fun r => !favours r from
      hany fun x => !logsFavour x]

/-- **The closed form depends on which log-probabilities there are.** -/
theorem closedForm_perm (m : MergeMethod) (hprior : prior.logs = prior'.logs)
    (hrows : (rows.map logs).Perm (rows'.map logs)) :
    m.closedForm prior rows = m.closedForm prior' rows' := by
  have hpro : ((rows.filter favours).map logs).Perm ((rows'.filter favours).map logs) :=
    perm_map_logs_filter logsFavour hrows
  have hcontra : ((rows.filter fun r => !favours r).map logs).Perm
      ((rows'.filter fun r => !favours r).map logs) :=
    perm_map_logs_filter (fun x => !logsFavour x) hrows
  cases m with
  | noisyOr => rw [closedForm, closedForm, sumFalse_perm hprior hrows]
  | geometricMean =>
    have hlength := hrows.length_eq
    rw [List.length_map, List.length_map] at hlength
    rw [closedForm, closedForm, sumTrue_perm hprior hrows, hlength]
  | hybridOr =>
    simp only [closedForm]
    rw [logMean_perm hrows, sumFalse_perm hprior hpro, sumTrue_perm hprior hcontra]
  | gentleOr =>
    simp only [closedForm]
    rw [logMean_perm hrows, sumFalse_perm hprior hpro, sumFalse_perm hprior hcontra]

/-- **Merging depends on which log-probabilities there are**, and on nothing else about the rules
and their order. -/
theorem merge_perm (m : MergeMethod) (hprior : prior.logs = prior'.logs)
    (hrows : (rows.map logs).Perm (rows'.map logs)) (htop : prior.ifTrue ≠ ⊤)
    (hlogs : ∀ r ∈ rows, r.ifTrue ≠ ⊤) :
    m.merge prior rows = m.merge prior' rows' := by
  have htrue : prior.ifTrue = prior'.ifTrue := congrArg Prod.fst hprior
  have hlogs' : ∀ r ∈ rows', r.ifTrue ≠ ⊤ := by
    intro r hr
    obtain ⟨r', hr', hsame⟩ := List.mem_map.1 (hrows.mem_iff.2 (List.mem_map_of_mem hr))
    have hsame : r'.ifTrue = r.ifTrue := congrArg Prod.fst hsame
    exact hsame ▸ hlogs r' hr'
  rw [merge_eq_closedForm m htop hlogs, merge_eq_closedForm m (htrue ▸ htop) hlogs',
    closedForm_perm m hprior hrows]

end MergeMethod

namespace RuleTable

open GroundedRule

variable {β : Type}

/-- Whether a rule counts where the rules say `all`: it holds, and no rule that holds has more
antecedents. -/
def counts {γ : Type} (u : β → Bool) (all : List (γ × List β)) (x : γ × List β) : Bool :=
  x.2.all u && all.all fun y => !y.2.all u || decide (y.2.length ≤ x.2.length)

/-- The rows of a table come with more antecedents first. -/
def Sorted {α : Type} (t : RuleTable α) : Prop :=
  t.rows.Pairwise fun r s => s.antecedents.length ≤ r.antecedents.length

theorem pairwise_mostSpecificFirst {α : Type} (rules : List (GroundedRule α)) :
    (mostSpecificFirst rules).Pairwise fun r s =>
      s.antecedents.length ≤ r.antecedents.length := by
  refine (List.pairwise_mergeSort ?_ ?_ _).imp fun h => of_decide_eq_true h
  · intro x y z hxy hyz
    exact decide_eq_true ((of_decide_eq_true hyz).trans (of_decide_eq_true hxy))
  · intro x y
    simpa using Nat.le_total _ _

/-- **The rules that count, without regard to their order.** -/
theorem active_eq_filter {α : Type} {t : RuleTable α} (hsorted : t.Sorted) (v : Valuation) :
    t.active v = t.rows.filter fun r => r.holds v &&
      t.rows.all fun s => !s.holds v || decide (s.antecedents.length ≤ r.antecedents.length) := by
  unfold active
  cases hfirst : t.rows.find? fun r => r.holds v with
  | none =>
    have hnone := List.find?_eq_none.1 hfirst
    refine (List.filter_eq_nil_iff.2 fun r hr => ?_).symm
    simp [Bool.eq_false_iff.2 (hnone r hr)]
  | some first =>
    obtain ⟨hholds, before, after, hrows, hbefore⟩ := List.find?_eq_some_iff_append.1 hfirst
    -- rows are sorted, so the first one that holds has the most antecedents
    have hmost : ∀ s ∈ t.rows, s.holds v = true →
        s.antecedents.length ≤ first.antecedents.length := by
      intro s hs hsholds
      unfold Sorted at hsorted
      rw [hrows] at hs hsorted
      rcases List.mem_append.1 hs with hs | hs
      · exact absurd hsholds (by simpa using hbefore s hs)
      · rcases List.mem_cons.1 hs with rfl | hs
        · exact Nat.le_refl _
        · exact (List.pairwise_cons.1 (List.pairwise_append.1 hsorted).2.1).1 s hs
    have hmem : first ∈ t.rows := List.mem_of_find?_eq_some hfirst
    refine List.filter_congr fun r hr => ?_
    cases hr' : r.holds v with
    | false => simp
    | true =>
      rw [Bool.and_true, Bool.true_and, Bool.eq_iff_iff, beq_iff_eq, List.all_eq_true]
      constructor
      · intro heq s hs
        by_cases hsholds : s.holds v
        · simp [heq, hmost s hs hsholds]
        · simp [hsholds]
      · intro hall
        have hle := hall first hmem
        rw [hholds] at hle
        exact Nat.le_antisymm (hmost r hr hr') (by simpa using hle)

/-- What the rules that count say is told by what the rows say. -/
theorem map_tells_active {α : Type} {t : RuleTable α} (hsorted : t.Sorted) {name : Nat → β}
    {u : β → Bool} {v : Valuation} (hv : ∀ r ∈ t.rows, ∀ a ∈ r.antecedents, v a = u (name a)) :
    (t.active v).map (tells name) =
      (t.rows.map (tells name)).filter (counts u (t.rows.map (tells name))) := by
  have hholds : ∀ r ∈ t.rows, r.holds v = (tells name r).2.all u := by
    intro r hr
    rw [tells, holds, List.all_map, Bool.eq_iff_iff, List.all_eq_true, List.all_eq_true]
    exact forall₂_congr fun a ha => by rw [Function.comp_apply, hv r hr a ha]
  rw [active_eq_filter hsorted, List.filter_map]
  refine congrArg _ (List.filter_congr fun r hr => ?_)
  rw [Function.comp_apply, counts, ← hholds r hr, List.all_map]
  congr 1
  rw [Bool.eq_iff_iff, List.all_eq_true, List.all_eq_true]
  refine forall₂_congr fun s hs => ?_
  rw [Function.comp_apply, ← hholds s hs]
  simp [tells]

/-- **An entry depends on what the rows say**, and not on their order, on what they are called or on
the numbers of their variables. -/
theorem entry_perm {t t' : RuleTable EReal} (hmethod : t.method = t'.method)
    (hprior : t.prior.logs = t'.prior.logs) (htop : t.prior.ifTrue ≠ ⊤)
    (hlogs : ∀ r ∈ t.rows, r.ifTrue ≠ ⊤) (hsorted : t.Sorted) (hsorted' : t'.Sorted)
    {name name' : Nat → β}
    (hrows : (t.rows.map (tells name)).Perm (t'.rows.map (tells name'))) {u : β → Bool}
    {v v' : Valuation} (hv : ∀ r ∈ t.rows, ∀ a ∈ r.antecedents, v a = u (name a))
    (hv' : ∀ r ∈ t'.rows, ∀ a ∈ r.antecedents, v' a = u (name' a)) : t.entry v = t'.entry v' := by
  have hcounts : counts u (t.rows.map (tells name)) = counts u (t'.rows.map (tells name')) := by
    funext x
    rw [counts, counts, hrows.all_eq]
  have hactive : ((t.active v).map logs).Perm ((t'.active v').map logs) := by
    rw [← map_logs_of_tells name, ← map_logs_of_tells name', map_tells_active hsorted hv,
      map_tells_active hsorted' hv', ← hcounts]
    exact (hrows.filter _).map _
  rw [entry, entry, ← hmethod]
  exact MergeMethod.merge_perm t.method hprior hactive htop fun r hr =>
    hlogs r (t.active_subset v hr)

end RuleTable

/-! ### Priors -/

section Priors

open RuleTable

variable {α : Type} [Scalar α] {P : α → Prop} {rules rules' : List (GroundedRule α)}

/-- **The prior that is kept is a greatest one**: the other one if no rule without antecedents is
above the logarithm of zero, and else one of those than which none is greater. -/
theorem choosePrior_spec (hP : Comparable P) (hrules : ∀ r ∈ rules, r.isUnit = true → P r.ifTrue)
    (other : GroundedRule α) :
    (choosePrior other rules = other ∧ ∀ r ∈ rules, r.isUnit = true → ¬bottom < r.ifTrue) ∨
      (choosePrior other rules ∈ rules ∧ (choosePrior other rules).isUnit = true ∧
        bottom < (choosePrior other rules).ifTrue ∧
        ∀ r ∈ rules, r.isUnit = true → ¬(choosePrior other rules).ifTrue < r.ifTrue) := by
  have hunits : ∀ r ∈ rules.filter (·.isUnit), P r.ifTrue := fun r hr =>
    hrules r (List.mem_filter.1 hr).1 (List.mem_filter.1 hr).2
  rw [choosePrior_eq]
  rcases foldl_keepGreatest_of_comparable hP (bottom, other) hunits with
    ⟨hlast, hnone⟩ | ⟨hlog, hmem, hgreater, hnone⟩
  · rw [hlast]
    exact .inl ⟨rfl, fun r hr hunit => hnone r (List.mem_filter.2 ⟨hr, hunit⟩)⟩
  · rw [hlog] at hgreater hnone
    obtain ⟨hmem, hunit⟩ := List.mem_filter.1 hmem
    exact .inr ⟨hmem, hunit, hgreater, fun r hr hunit => hnone r (List.mem_filter.2 ⟨hr, hunit⟩)⟩

/-- **What is read of the prior that is kept depends on what is read of the rules**, where that is
told by the log-probability of truth. -/
theorem choosePrior_congr {γ : Type} (f : GroundedRule α → γ) (hP : Comparable P)
    (hrules : ∀ r ∈ rules, r.isUnit = true → P r.ifTrue) {other other' : GroundedRule α}
    (hother : f other = f other')
    (hsame : ∀ x, (∃ r ∈ rules, r.isUnit = true ∧ (r.ifTrue, f r) = x) ↔
      ∃ r ∈ rules', r.isUnit = true ∧ (r.ifTrue, f r) = x)
    (htells : ∀ r ∈ rules, ∀ r' ∈ rules, r.isUnit = true → r'.isUnit = true →
      r.ifTrue = r'.ifTrue → f r = f r') :
    f (choosePrior other rules) = f (choosePrior other' rules') := by
  -- for every prior of the one list there is one of the other of which the same is read
  have hfrom : ∀ r ∈ rules, r.isUnit = true →
      ∃ r' ∈ rules', r'.isUnit = true ∧ r'.ifTrue = r.ifTrue ∧ f r' = f r := by
    intro r hr hunit
    obtain ⟨r', hr', hunit', heq⟩ := (hsame _).1 ⟨r, hr, hunit, rfl⟩
    exact ⟨r', hr', hunit', congrArg Prod.fst heq, congrArg Prod.snd heq⟩
  have hto : ∀ r' ∈ rules', r'.isUnit = true →
      ∃ r ∈ rules, r.isUnit = true ∧ r.ifTrue = r'.ifTrue ∧ f r = f r' := by
    intro r' hr' hunit'
    obtain ⟨r, hr, hunit, heq⟩ := (hsame _).2 ⟨r', hr', hunit', rfl⟩
    exact ⟨r, hr, hunit, congrArg Prod.fst heq, congrArg Prod.snd heq⟩
  have hrules' : ∀ r' ∈ rules', r'.isUnit = true → P r'.ifTrue := by
    intro r' hr' hunit'
    obtain ⟨r, hr, hunit, htrue, -⟩ := hto r' hr' hunit'
    exact htrue ▸ hrules r hr hunit
  rcases choosePrior_spec hP hrules other with ⟨hkept, hnone⟩ | ⟨hmem, hunit, hgreater, hnone⟩
  · rcases choosePrior_spec hP hrules' other' with ⟨hkept', -⟩ | ⟨hmem', hunit', hgreater', -⟩
    · rw [hkept, hkept', hother]
    · obtain ⟨r, hr, hunit, htrue, -⟩ := hto _ hmem' hunit'
      exact absurd (htrue ▸ hgreater') (hnone r hr hunit)
  · obtain ⟨s', hs', hs'unit, hs'true, -⟩ := hfrom _ hmem hunit
    rcases choosePrior_spec hP hrules' other' with ⟨-, hnone'⟩ | ⟨hmem', hunit', -, hnone'⟩
    · exact absurd (hs'true ▸ hgreater) (hnone' s' hs' hs'unit)
    · obtain ⟨s, hs, hsunit, hstrue, hsread⟩ := hto _ hmem' hunit'
      have htrue : (choosePrior other rules).ifTrue = s.ifTrue := by
        refine hP.eq_of_not_lt (hrules _ hmem hunit) (hrules s hs hsunit) (hnone s hs hsunit) ?_
        rw [hstrue, ← hs'true]
        exact hnone' s' hs' hs'unit
      rw [← hsread]
      exact htells _ hmem s hs hunit hsunit htrue

end Priors

end FactNet
