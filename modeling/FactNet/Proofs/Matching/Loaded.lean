import Mathlib.Data.List.Nodup
import FactNet.Matching.Engine
import FactNet.Proofs.Ranked

/-!
# Rules that have been read

Reading a file files every rule under the relation it adds, each relation once, and gives it the
probability of a score that some line of the file has.  At last the rules for every relation are put
in order, more probable ones first; that is an order as long as no score is what is no number.

## Main definitions

* `lineScore?` — the score of a line, if it has one.
* `RuleBook.IsFiled` — rules are filed under their relations, with probabilities of some kind.
* `RuleBook.IsSorted` — of the rules for a relation no later one is more probable.

## Main results

* `RuleBook.IsFiled.readMatchLine` — **a line keeps the rules filed.**
* `RuleBook.isFiled_ofLines_of_kept` — the rules of a file are filed, with the probabilities of its
  scores that are not below the cutoff.
* `RuleBook.isSorted_ofLines` — more probable ones come first.
-/

namespace FactNet

open Scalar Text

variable {α : Type}

/-- The score of a line, if it has one. -/
def lineScore? [Numeral α] (raw : String) : Option α :=
  (cutScore? (trim (trimEnd (before ['/', '/'] raw.toList)))).bind fun e =>
    Numeral.read? (String.ofList e.1)

/-- A line with a score is read as its score and its clauses. -/
theorem readMatchLine_scored [Scalar α] [Numeral α] {admission : Admission α}
    {reading reading' : Reading α} {number : Nat} {raw : String} {score body : List Char}
    (hcut : cutScore? (trim (trimEnd (before ['/', '/'] raw.toList))) = some (score, body))
    (hscored : readScored admission reading score body = .ok reading') :
    readMatchLine admission reading number raw = .ok reading' := by
  unfold readMatchLine
  dsimp only
  split
  · next hline =>
    rw [hline] at hcut
    cases hcut
  · next c cs hline =>
    rw [← hline, hcut]
    dsimp only
    rw [hscored]
    rfl

/-! ### Rules under their relations -/

section Filing

variable [Scalar α] {r r' : MatchRule α} {rules : List (String × List (MatchRule α))}
  {e : String × List (MatchRule α)}

/-- A rule that has been added is the new one or was there, under the same relation. -/
theorem mem_addMatchRule (he : e ∈ addMatchRule r rules) (hr : r' ∈ e.2) :
    (r' = r ∧ e.1 = r.consequent.relation) ∨ ∃ old ∈ rules, old.1 = e.1 ∧ r' ∈ old.2 := by
  induction rules with
  | nil =>
    obtain rfl := List.mem_singleton.1 he
    exact .inl ⟨List.mem_singleton.1 hr, rfl⟩
  | cons entry rest ih =>
    obtain ⟨relation, rs⟩ := entry
    rw [addMatchRule] at he
    split at he
    · next hrelation =>
      rcases List.mem_cons.1 he with rfl | he
      · -- a rule that has been filed already is not filed again
        have hmem : r' ∈ rs ∨ r' = r := by
          dsimp only at hr
          split at hr
          · exact .inl hr
          · simpa using hr
        rcases hmem with hmem | rfl
        · exact .inr ⟨_, List.mem_cons_self, rfl, hmem⟩
        · exact .inl ⟨rfl, by simpa using hrelation⟩
      · exact .inr ⟨e, List.mem_cons_of_mem _ he, rfl, hr⟩
    · rcases List.mem_cons.1 he with rfl | he
      · exact .inr ⟨_, List.mem_cons_self, rfl, hr⟩
      · refine (ih he).imp_right ?_
        rintro ⟨old, hold, hname, hr⟩
        exact ⟨old, List.mem_cons_of_mem _ hold, hname, hr⟩

/-- A relation that rules are filed under is that of the new rule or was there. -/
theorem mem_keys_addMatchRule {relation : String}
    (h : relation ∈ (addMatchRule r rules).map (·.1)) :
    relation = r.consequent.relation ∨ relation ∈ rules.map (·.1) := by
  induction rules with
  | nil => exact .inl (by simpa [addMatchRule] using h)
  | cons entry rest ih =>
    rw [addMatchRule] at h
    split at h
    · exact .inr h
    · rcases List.mem_cons.1 h with h | h
      · exact .inr (List.mem_cons.2 (.inl h))
      · exact (ih h).imp_right (List.mem_cons_of_mem _)

/-- Every relation stays one entry. -/
theorem nodup_keys_addMatchRule (h : (rules.map (·.1)).Nodup) :
    ((addMatchRule r rules).map (·.1)).Nodup := by
  induction rules with
  | nil => exact List.nodup_singleton _
  | cons entry rest ih =>
    obtain ⟨hnew, hrest⟩ := List.nodup_cons.1 h
    rw [addMatchRule]
    split
    · exact h
    · next hne =>
      refine List.nodup_cons.2 ⟨fun hmem => ?_, ih hrest⟩
      exact (mem_keys_addMatchRule hmem).elim (fun heq => hne (by simpa using heq)) hnew

end Filing

/-- Rules are filed under the relations they add, each relation once, with probabilities of some
kind. -/
structure RuleBook.IsFiled (P : α → Prop) (book : RuleBook α) : Prop where
  /-- Every relation is there once. -/
  keys : (book.rules.map (·.1)).Nodup
  /-- A rule adds the relation that it is filed under. -/
  relation : ∀ e ∈ book.rules, ∀ r ∈ e.2, r.consequent.relation = e.1
  /-- Its probability is of that kind. -/
  probability : ∀ e ∈ book.rules, ∀ r ∈ e.2, P r.probability

namespace RuleBook.IsFiled

variable {P : α → Prop} {book : RuleBook α}

theorem empty : IsFiled P ({} : RuleBook α) where
  keys := .nil
  relation _ h := by cases h
  probability _ h := by cases h

theorem imp {Q : α → Prop} (h : book.IsFiled P) (hPQ : ∀ p, P p → Q p) : book.IsFiled Q where
  keys := h.keys
  relation := h.relation
  probability e he r hr := hPQ _ (h.probability e he r hr)

variable [Scalar α]

theorem addMatchRule (h : book.IsFiled P) {r : MatchRule α} (hr : P r.probability)
    (relations : List String) : IsFiled P ⟨addMatchRule r book.rules, relations⟩ where
  keys := nodup_keys_addMatchRule h.keys
  relation e he r' hr' := by
    rcases mem_addMatchRule he hr' with ⟨rfl, hname⟩ | ⟨old, hold, hname, hmem⟩
    · exact hname.symm
    · exact hname ▸ h.relation old hold r' hmem
  probability e he r' hr' := by
    rcases mem_addMatchRule he hr' with ⟨rfl, -⟩ | ⟨old, hold, -, hmem⟩
    · exact hr
    · exact h.probability old hold r' hmem

variable [Numeral α] {admission : Admission α} {reading reading' : Reading α}

/-- A score and clauses add one rule at most, with the probability of the score. -/
theorem readScored (h : reading.book.IsFiled P) {score body : List Char}
    (hscore : ∀ x : α, Numeral.read? (String.ofList score) = some x → ¬x < admission.cutoff →
      P (LogProb.sigmoid x))
    (hread : readScored admission reading score body = .ok reading') :
    reading'.book.IsFiled P := by
  unfold FactNet.readScored at hread
  split at hread
  · cases hread
  · next x hx =>
    dsimp only at hread
    split at hread
    · cases hread
      exact h
    · next hkept =>
      split at hread
      · cases hread
        exact h
      · split at hread
        · cases hread
        · split at hread
          · cases hread
          · cases hread
            exact h.addMatchRule (hscore x hx hkept) _

omit [Scalar α] [Numeral α] in
/-- A signature adds no rule. -/
theorem readSignature (h : reading.book.IsFiled P) {cs : List Char}
    (hread : readSignature reading cs = .ok reading') : reading'.book.IsFiled P := by
  unfold FactNet.readSignature at hread
  split at hread
  · cases hread
  · split at hread
    · cases hread
      exact h
    · cases hread

/-- **A line keeps the rules filed.** -/
theorem readMatchLine (h : reading.book.IsFiled P) {number : Nat} {raw : String}
    (hscore : ∀ x : α, lineScore? raw = some x → ¬x < admission.cutoff → P (LogProb.sigmoid x))
    (hread : readMatchLine admission reading number raw = .ok reading') :
    reading'.book.IsFiled P := by
  unfold FactNet.readMatchLine at hread
  unfold lineScore? at hscore
  dsimp only at hread
  split at hread
  · cases hread
    exact h
  · next c cs hline =>
    rw [hline] at hscore
    split at hread
    · next score body hcut =>
      rw [hcut] at hscore
      cases hscored : FactNet.readScored admission reading score body with
      | error reason => rw [hscored] at hread; cases hread
      | ok reading'' =>
        rw [hscored] at hread
        cases hread
        exact h.readScored hscore hscored
    · cases hsigned : FactNet.readSignature reading (c :: cs) with
      | error reason => rw [hsigned] at hread; cases hread
      | ok reading'' =>
        rw [hsigned] at hread
        cases hread
        exact h.readSignature hsigned

/-- So do all lines. -/
theorem readMatchLines (h : reading.book.IsFiled P) {number : Nat} {lines : List String}
    (hscores : ∀ raw ∈ lines, ∀ x : α, lineScore? raw = some x → ¬x < admission.cutoff →
      P (LogProb.sigmoid x))
    (hread : readMatchLines admission number lines reading = .ok reading') :
    reading'.book.IsFiled P := by
  induction lines generalizing number reading with
  | nil =>
    cases hread
    exact h
  | cons raw rest ih =>
    obtain ⟨hraw, hrest⟩ := List.forall_mem_cons.1 hscores
    rw [FactNet.readMatchLines] at hread
    split at hread
    · cases hread
    · next reading'' hline => exact ih (h.readMatchLine hraw hline) hrest hread

omit [Numeral α] in
/-- Putting rules in order changes nothing about where they are filed. -/
theorem sorted (h : book.IsFiled P) : book.sorted.IsFiled P := by
  have hmem : ∀ e ∈ book.sorted.rules, ∃ old ∈ book.rules, old.1 = e.1 ∧
      ∀ r, r ∈ e.2 ↔ r ∈ old.2 := by
    intro e he
    obtain ⟨old, hold, rfl⟩ := List.mem_map.1 he
    exact ⟨old, hold, rfl, fun r => List.mem_mergeSort⟩
  refine ⟨?_, fun e he r hr => ?_, fun e he r hr => ?_⟩
  · have hkeys : book.sorted.rules.map (·.1) = book.rules.map (·.1) := by
      rw [RuleBook.sorted, List.map_map]
      rfl
    rw [hkeys]
    exact h.keys
  · obtain ⟨old, hold, hname, hiff⟩ := hmem e he
    exact hname ▸ h.relation old hold r ((hiff r).1 hr)
  · obtain ⟨old, hold, -, hiff⟩ := hmem e he
    exact h.probability old hold r ((hiff r).1 hr)

end RuleBook.IsFiled

/-! ### Rules in order -/

/-- Rules whose probabilities are numbers are put in the order of these. -/
theorem pairwise_byProbability [Scalar α] {β : Type} [LinearOrder β] {rank : α → β} {P : α → Prop}
    (hrank : Ranked rank P) {rs : List (MatchRule α)} (hnumbers : ∀ r ∈ rs, P r.probability) :
    (rs.mergeSort fun r s => !decide (r.probability < s.probability)).Pairwise
      fun r s => rank s.probability ≤ rank r.probability := by
  -- among numbers, comparing probabilities is comparing their ranks
  have hsame := List.map_mergeSort (f := id) (l := rs)
    (r := fun r s => !decide (r.probability < s.probability))
    (s := fun r s => decide (rank s.probability ≤ rank r.probability)) fun r hr s hs => by
      simp [hrank.lt_iff (hnumbers r hr) (hnumbers s hs), ← decide_not]
  rw [List.map_id, List.map_id] at hsame
  have htrans : ∀ r s t : MatchRule α, decide (rank s.probability ≤ rank r.probability) = true →
      decide (rank t.probability ≤ rank s.probability) = true →
      decide (rank t.probability ≤ rank r.probability) = true := by
    intro r s t hrs hst
    simp only [decide_eq_true_eq] at hrs hst ⊢
    exact le_trans hst hrs
  have htotal : ∀ r s : MatchRule α, (decide (rank s.probability ≤ rank r.probability) ||
      decide (rank r.probability ≤ rank s.probability)) = true := by
    intro r s
    simp only [Bool.or_eq_true, decide_eq_true_eq]
    exact le_total _ _
  have hsorted := List.pairwise_mergeSort htrans htotal rs
  rw [← hsame] at hsorted
  exact hsorted.imp of_decide_eq_true

/-- Of the rules for a relation no later one is more probable. -/
def RuleBook.IsSorted {β : Type} [LinearOrder β] (rank : α → β) (book : RuleBook α) : Prop :=
  ∀ e ∈ book.rules, e.2.Pairwise fun r s => rank s.probability ≤ rank r.probability

/-- **More probable rules come first**, if all probabilities are numbers. -/
theorem RuleBook.IsFiled.isSorted_sorted [Scalar α] {β : Type} [LinearOrder β] {rank : α → β}
    {P : α → Prop} (hrank : Ranked rank P) {book : RuleBook α} (h : book.IsFiled P) :
    book.sorted.IsSorted rank := by
  intro e he
  obtain ⟨old, hold, rfl⟩ := List.mem_map.1 he
  exact pairwise_byProbability hrank (h.probability old hold)

namespace RuleBook

variable [Scalar α] [Numeral α] {admission : Admission α} {lines : List String} {book : RuleBook α}
  {P : α → Prop}

/-- The rules of a file are filed, and each has the probability of a score of the file that is not
below the cutoff. -/
theorem isFiled_ofLines_of_kept
    (hscores : ∀ raw ∈ lines, ∀ x : α, lineScore? raw = some x → ¬x < admission.cutoff →
      P (LogProb.sigmoid x))
    (h : ofLines admission lines = .ok book) : book.IsFiled P := by
  unfold ofLines at h
  cases hread : readMatchLines admission 1 lines {} with
  | error fault => rw [hread] at h; cases h
  | ok reading =>
    rw [hread] at h
    cases h
    exact (IsFiled.empty.readMatchLines hscores hread).sorted

/-- The rules of a file are filed, and each has the probability of a score of the file. -/
theorem isFiled_ofLines
    (hscores : ∀ raw ∈ lines, ∀ x : α, lineScore? raw = some x → P (LogProb.sigmoid x))
    (h : ofLines admission lines = .ok book) : book.IsFiled P :=
  isFiled_ofLines_of_kept (fun raw hraw x hx _ => hscores raw hraw x hx) h

/-- Of the rules of a file the more probable ones come first. -/
theorem isSorted_ofLines {β : Type} [LinearOrder β] {rank : α → β} (hrank : Ranked rank P)
    (hscores : ∀ raw ∈ lines, ∀ x : α, lineScore? raw = some x → P (LogProb.sigmoid x))
    (h : ofLines admission lines = .ok book) : book.IsSorted rank := by
  unfold ofLines at h
  cases hread : readMatchLines admission 1 lines {} with
  | error fault => rw [hread] at h; cases h
  | ok reading =>
    rw [hread] at h
    cases h
    exact (IsFiled.empty.readMatchLines (fun raw hraw x hx _ => hscores raw hraw x hx)
      hread).isSorted_sorted hrank

end RuleBook

end FactNet
