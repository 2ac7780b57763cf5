import FactNet.Proofs.Factor.Priors
import FactNet.Proofs.Grounding.Clauses

/-!
# The ledger of a build

A build keeps five records: the variables, an index from literals to their numbers, the grounded
rules filed under their consequents, the fixed values and the priors.  Each is written to by
itself, a few entries at a time.  A clause is registered literal by literal, and the literal
that is to be the consequent is picked on the way; until one is found, the consequent is −1.

What keeps the records in step is small: a literal is numbered without its negation, and a clause
that is registered has a literal without negation.  Then the index is the inverse of the list of
variables after every entry, every number in the other records is that of a variable, and every
rule is filed under its own consequent, which is never −1.

## Main definitions

* `Entry`, `Ledger` — a grounded rule as it is filed, and the records.
* `Ledger.number`, `Ledger.note`, `Ledger.register`, `Ledger.settle` — what is done to them.
* `Ledger.Step`, `Ledger.run` — the same as steps, and a run of them.
* `Ledger.WellFormed` — records that are in step.

## Main results

* `Ledger.WellFormed.apply` — **every step keeps the records in step.**
* `Ledger.WellFormed.runFrom` — **so does a run, at every point.**
-/

namespace FactNet

open Scalar GroundState

variable {α : Type}

/-- A grounded rule as it is filed.  Its consequent is −1 if its clause has no literal without
negation. -/
structure Entry (α : Type) where
  name : String
  ifTrue : α
  ifFalse : α
  consequent : Int
  antecedents : List Nat

namespace Entry

/-- A grounded rule, filed. -/
def ofRule (g : GroundedRule α) : Entry α :=
  ⟨g.name, g.ifTrue, g.ifFalse, g.consequent, g.antecedents⟩

/-- The grounded rule that is filed. -/
def rule (e : Entry α) : GroundedRule α :=
  ⟨e.name, e.ifTrue, e.ifFalse, e.consequent.toNat, e.antecedents⟩

@[simp] theorem rule_ofRule (g : GroundedRule α) : (ofRule g).rule = g := rfl

end Entry

/-- The records of a build. -/
structure Ledger (α : Type) where
  /-- The literals that have numbers, in the order of their numbers. -/
  literals : List Literal := []
  /-- The number of a literal. -/
  index : Literal → Option Nat := fun _ => none
  /-- The grounded rules, filed under their consequents. -/
  groundings : List (Int × List (Entry α)) := []
  /-- The values that variables are fixed to. -/
  fixed : Int → Option Bool := fun _ => none
  /-- The priors of the consequents that are not fixed. -/
  priors : Int → Option α := fun _ => none

namespace Ledger

variable {L : Ledger α} {l : Literal} {i : Int}

/-! ### What is done to the records -/

/-- A literal becomes a variable. -/
def push (L : Ledger α) (l : Literal) : Ledger α :=
  { L with
    literals := L.literals ++ [l]
    index := Function.update L.index l (some L.literals.length) }

/-- The number of a literal, which becomes a variable if it is none yet. -/
def number (L : Ledger α) (l : Literal) : Nat × Ledger α :=
  match L.index l.asTrue with
  | some i => (i, L)
  | none => (L.literals.length, L.push l.asTrue)

/-- Fixes a variable. -/
def setFixed (L : Ledger α) (i : Int) (b : Bool) : Ledger α :=
  { L with fixed := Function.update L.fixed i (some b) }

/-- Gives a prior to a variable. -/
def setPrior (L : Ledger α) (i : Int) (x : α) : Ledger α :=
  { L with priors := Function.update L.priors i (some x) }

@[simp] theorem fixed_setFixed (L : Ledger α) (i : Int) (b : Bool) (j : Int) :
    (L.setFixed i b).fixed j = if j = i then some b else L.fixed j :=
  Function.update_apply ..

@[simp] theorem priors_setFixed (L : Ledger α) (i : Int) (b : Bool) :
    (L.setFixed i b).priors = L.priors := rfl

@[simp] theorem priors_setPrior (L : Ledger α) (i : Int) (x : α) (j : Int) :
    (L.setPrior i x).priors j = if j = i then some x else L.priors j :=
  Function.update_apply ..

@[simp] theorem fixed_setPrior (L : Ledger α) (i : Int) (x : α) :
    (L.setPrior i x).fixed = L.fixed := rfl

/-- Notes the value that a piece of evidence gives to its literal. -/
def note (L : Ledger α) (l : Literal) : Ledger α :=
  (L.number l).2.setFixed (L.number l).1 l.truth

/-- Numbers the literals of a clause.  The consequent is the last one without negation, and the
antecedents are those with it. -/
def scan (L : Ledger α) : List Literal → Int → List Nat → (Int × List Nat) × Ledger α
  | [], consequent, antecedents => ((consequent, antecedents), L)
  | l :: ls, consequent, antecedents =>
    if l.truth then scan (L.number l).2 ls (L.number l).1 antecedents
    else scan (L.number l).2 ls consequent (antecedents ++ [(L.number l).1])

/-- Groups with an entry filed under its consequent, after those that are there. -/
def filed (groups : List (Int × List (Entry α))) (e : Entry α) : List (Int × List (Entry α)) :=
  if groups.any fun group => group.1 == e.consequent then
    groups.map fun group => if group.1 == e.consequent then (group.1, group.2 ++ [e]) else group
  else groups ++ [(e.consequent, [e])]

/-- Files an entry. -/
def file (L : Ledger α) (e : Entry α) : Ledger α :=
  { L with groundings := filed L.groundings e }

/-- The entries that are filed under a consequent. -/
def groupOf (L : Ledger α) (i : Int) : List (Entry α) :=
  ((L.groundings.find? fun group => group.1 == i).map (·.2)).getD []

/-- Registers a clause with its weight. -/
def register [Scalar α] [Numeral α] (L : Ledger α) (c : Weighted α) : Ledger α :=
  let ifTrue := LogProb.logSigmoid c.1
  let ifFalse := LogProb.logSigmoid (-c.1)
  let scanned := L.scan c.2 (-1) []
  scanned.2.file ⟨(Rule.mk (ifTrue - ifFalse) c.2).text, LogProb.clip ifTrue,
    LogProb.clip ifFalse, scanned.1.1, scanned.1.2⟩

/-- Settles a consequent: unless it is fixed, its rules may fix it; otherwise it has the prior that
is kept of them. -/
def settle [Scalar α] (d : α) (L : Ledger α) (i : Int) : Ledger α :=
  let rules := (L.groupOf i).map Entry.rule
  match if (L.fixed i).isSome then none else fixedBy? rules with
  | some b => L.setFixed i b
  | none =>
    match cleanPriors rules.eraseDups d with
    | none => L
    | some (prior, _) => L.setPrior prior.consequent prior.ifTrue

/-! ### Records in step -/

/-- A number is that of a variable. -/
def IsId (L : Ledger α) (i : Int) : Prop := 0 ≤ i ∧ i < L.literals.length

/-- Records that are in step. -/
structure WellFormed (L : Ledger α) : Prop where
  /-- No literal has two numbers. -/
  nodup : L.literals.Nodup
  /-- No variable is negated. -/
  truth : ∀ l ∈ L.literals, l.truth = true
  /-- The index is the inverse of the list of variables. -/
  index_iff : ∀ l i, L.index l = some i ↔ L.literals[i]? = some l
  /-- No consequent has two groups. -/
  nodup_keys : (L.groundings.map (·.1)).Nodup
  /-- Every group is that of a variable, and has an entry. -/
  group : ∀ i entries, (i, entries) ∈ L.groundings → L.IsId i ∧ entries ≠ []
  /-- Every entry is in the group of its consequent. -/
  consequent : ∀ i entries, (i, entries) ∈ L.groundings → ∀ e ∈ entries, e.consequent = i
  /-- Every antecedent is a variable. -/
  antecedents : ∀ i entries, (i, entries) ∈ L.groundings →
    ∀ e ∈ entries, ∀ a ∈ e.antecedents, L.IsId a
  /-- Only variables are fixed. -/
  fixed : ∀ i b, L.fixed i = some b → L.IsId i
  /-- Only variables have priors. -/
  priors : ∀ i x, L.priors i = some x → L.IsId i

theorem IsId.mono {L' : Ledger α} (h : L.IsId i)
    (hle : L.literals.length ≤ L'.literals.length) : L'.IsId i :=
  ⟨h.1, h.2.trans_le (by exact_mod_cast hle)⟩

theorem wellFormed_empty : ({} : Ledger α).WellFormed where
  nodup := .nil
  truth _ hl := nomatch hl
  index_iff _ _ := by simp
  nodup_keys := .nil
  group _ _ h := nomatch h
  consequent _ _ h := nomatch h
  antecedents _ _ h := nomatch h
  fixed _ _ h := nomatch h
  priors _ _ h := nomatch h

/-- A literal that has no number is no variable. -/
theorem WellFormed.not_mem (h : L.WellFormed) (hl : L.index l = none) : l ∉ L.literals := by
  intro hmem
  obtain ⟨i, hi⟩ := List.mem_iff_getElem?.1 hmem
  rw [(h.index_iff l i).2 hi] at hl
  cases hl

/-- Numbers that have been given stay. -/
theorem length_le_number (L : Ledger α) (l : Literal) :
    L.literals.length ≤ (L.number l).2.literals.length := by
  unfold number
  split
  · exact le_rfl
  · simp [push]

@[simp] theorem groundings_number (L : Ledger α) (l : Literal) :
    (L.number l).2.groundings = L.groundings := by
  unfold number
  split <;> rfl

@[simp] theorem fixed_number (L : Ledger α) (l : Literal) : (L.number l).2.fixed = L.fixed := by
  unfold number
  split <;> rfl

@[simp] theorem priors_number (L : Ledger α) (l : Literal) : (L.number l).2.priors = L.priors := by
  unfold number
  split <;> rfl

/-- A literal that is numbered has its number. -/
theorem index_number (L : Ledger α) (l : Literal) :
    (L.number l).2.index l.asTrue = some (L.number l).1 := by
  unfold number
  split
  · next i hi => exact hi
  · exact Function.update_self ..

/-- To number a literal again gives it the same number. -/
theorem number_number (L : Ledger α) (l : Literal) :
    (L.number l).2.number l = L.number l := by
  have h := L.index_number l
  generalize L.number l = numbered at h
  rw [number, h]

theorem getElem?_concat_eq_some_iff {β : Type} {xs : List β} {x y : β} {i : Nat} :
    (xs ++ [x])[i]? = some y ↔ xs[i]? = some y ∨ i = xs.length ∧ x = y := by
  rcases Nat.lt_trichotomy i xs.length with hlt | rfl | hgt
  · simp [List.getElem?_append_left hlt, hlt.ne]
  · simp
  · rw [List.getElem?_eq_none (by simpa [Nat.succ_le_iff] using hgt), List.getElem?_eq_none hgt.le]
    simp [hgt.ne']

namespace WellFormed

/-- A new literal becomes a variable. -/
theorem push (h : L.WellFormed) (hnew : l ∉ L.literals) (htruth : l.truth = true) :
    (L.push l).WellFormed := by
  have hid : ∀ {i : Int}, L.IsId i → (L.push l).IsId i := fun hi => hi.mono (by simp [Ledger.push])
  exact {
    nodup := by simpa [Ledger.push] using h.nodup.concat hnew
    truth := by simpa [Ledger.push, or_imp, forall_and, htruth] using h.truth
    index_iff := by
      intro k i
      rw [Ledger.push, getElem?_concat_eq_some_iff]
      by_cases hk : k = l
      · subst hk
        have hnone : L.literals[i]? ≠ some k := fun hi => hnew (List.mem_of_getElem? hi)
        simp [hnone, eq_comm]
      · simp [Function.update_of_ne hk, h.index_iff k i, Ne.symm hk]
    nodup_keys := h.nodup_keys
    group := fun i entries hgroup => (h.group i entries hgroup).imp_left hid
    consequent := h.consequent
    antecedents := fun i entries hgroup e he a ha =>
      hid (h.antecedents i entries hgroup e he a ha)
    fixed := fun i b hi => hid (h.fixed i b hi)
    priors := fun i x hi => hid (h.priors i x hi) }

/-- **A literal that is numbered keeps the records in step**, whether it is new or not. -/
theorem number (h : L.WellFormed) (l : Literal) :
    (L.number l).2.WellFormed ∧ (L.number l).2.IsId (L.number l).1 := by
  unfold Ledger.number
  cases hindex : L.index l.asTrue with
  | some i =>
    obtain ⟨hlt, -⟩ := List.getElem?_eq_some_iff.1 ((h.index_iff _ i).1 hindex)
    exact ⟨h, Int.natCast_nonneg i, by exact_mod_cast hlt⟩
  | none =>
    refine ⟨h.push (h.not_mem hindex) rfl, Int.natCast_nonneg _, ?_⟩
    rw [Ledger.push, List.length_append, List.length_singleton]
    exact_mod_cast Nat.lt_succ_self _

/-- A variable is fixed. -/
theorem setFixed (h : L.WellFormed) (hi : L.IsId i) (b : Bool) : (L.setFixed i b).WellFormed :=
  { h with
    fixed := fun j v hj => by
      rw [fixed_setFixed] at hj
      split at hj
      · next heq => rwa [heq]
      · exact h.fixed j v hj }

/-- A variable is given a prior. -/
theorem setPrior (h : L.WellFormed) (hi : L.IsId i) (x : α) : (L.setPrior i x).WellFormed :=
  { h with
    priors := fun j v hj => by
      rw [priors_setPrior] at hj
      split at hj
      · next heq => rwa [heq]
      · exact h.priors j v hj }

theorem note (h : L.WellFormed) (l : Literal) : (L.note l).WellFormed :=
  (h.number l).1.setFixed (h.number l).2 l.truth

/-- **The literals of a clause keep the records in step.**  The consequent is a variable once there
is a literal without negation, and the antecedents are variables. -/
theorem scan (h : L.WellFormed) (clause : List Literal) (consequent : Int) {antecedents : List Nat}
    (hantecedents : ∀ a ∈ antecedents, L.IsId a) :
    (L.scan clause consequent antecedents).2.WellFormed ∧
      (L.IsId consequent ∨ (∃ l ∈ clause, l.truth = true) →
        (L.scan clause consequent antecedents).2.IsId (L.scan clause consequent antecedents).1.1) ∧
      ∀ a ∈ (L.scan clause consequent antecedents).1.2,
        (L.scan clause consequent antecedents).2.IsId a := by
  induction clause generalizing L consequent antecedents with
  | nil => exact ⟨h, fun hconsequent => hconsequent.resolve_right (by simp), hantecedents⟩
  | cons l ls ih =>
    obtain ⟨hnumber, hid⟩ := h.number l
    have hmono : ∀ {i : Int}, L.IsId i → (L.number l).2.IsId i := fun hi =>
      hi.mono (L.length_le_number l)
    rw [Ledger.scan]
    -- a literal without negation is the consequent, any other an antecedent
    split
    · next htruth =>
      obtain ⟨hwell, hconsequent, hants⟩ :=
        ih hnumber (L.number l).1 fun a ha => hmono (hantecedents a ha)
      exact ⟨hwell, fun _ => hconsequent (.inl hid), hants⟩
    · next htruth =>
      have hmore : ∀ a ∈ antecedents ++ [(L.number l).1], (L.number l).2.IsId a := by
        simpa [or_imp, forall_and, hid] using fun a ha => hmono (hantecedents a ha)
      obtain ⟨hwell, hconsequent, hants⟩ := ih hnumber consequent hmore
      refine ⟨hwell, fun hsome => hconsequent ?_, hants⟩
      rcases hsome with hsome | ⟨k, hk, hktruth⟩
      · exact .inl (hmono hsome)
      · rcases List.mem_cons.1 hk with rfl | hk
        · exact absurd hktruth htruth
        · exact .inr ⟨k, hk, hktruth⟩

end WellFormed

/-! ### Filing -/

variable {groups : List (Int × List (Entry α))} {e : Entry α} {entries : List (Entry α)}

theorem any_key_iff : (groups.any fun group => group.1 == i) = true ↔ i ∈ groups.map (·.1) := by
  simp

/-- A group that is there, or is opened, has the entry added to it. -/
theorem mem_filed (h : (i, entries) ∈ filed groups e) : (i, entries) ∈ groups ∨
    i = e.consequent ∧ ∃ old, entries = old ++ [e] ∧ (old = [] ∨ (i, old) ∈ groups) := by
  unfold filed at h
  split at h
  · obtain ⟨⟨j, old⟩, hold, heq⟩ := List.mem_map.1 h
    split at heq
    · next hj =>
      cases heq
      exact .inr ⟨beq_iff_eq.1 hj, old, rfl, .inr hold⟩
    · cases heq
      exact .inl hold
  · rcases List.mem_append.1 h with hold | hnew
    · exact .inl hold
    · cases List.mem_singleton.1 hnew
      exact .inr ⟨rfl, [], rfl, .inl rfl⟩

/-- What all entries have that are filed, they have with one more that has it. -/
theorem forall_mem_filed {p : Int → Entry α → Prop}
    (hold : ∀ i entries, (i, entries) ∈ groups → ∀ e' ∈ entries, p i e') (hnew : p e.consequent e) :
    ∀ i entries, (i, entries) ∈ filed groups e → ∀ e' ∈ entries, p i e' := by
  intro i entries hgroup e' he'
  rcases mem_filed hgroup with hthere | ⟨rfl, old, rfl, hthere⟩
  · exact hold i entries hthere e' he'
  · rcases List.mem_append.1 he' with he' | he'
    · rcases hthere with rfl | hthere
      · cases he'
      · exact hold _ old hthere e' he'
    · rw [List.mem_singleton.1 he']
      exact hnew

theorem nodup_keys_filed (h : (groups.map (·.1)).Nodup) (e : Entry α) :
    ((filed groups e).map (·.1)).Nodup := by
  unfold filed
  split
  · have hkeys : (groups.map fun group =>
        if group.1 == e.consequent then (group.1, group.2 ++ [e]) else group).map (·.1) =
          groups.map (·.1) := by
      rw [List.map_map]
      refine List.map_congr_left fun group _ => ?_
      dsimp only [Function.comp_apply]
      split <;> rfl
    rwa [hkeys]
  · next hnew =>
    rw [any_key_iff] at hnew
    simpa using h.concat hnew

namespace WellFormed

/-- **An entry that is filed keeps the records in step**, if its consequent is a variable and so are
its antecedents. -/
theorem file (h : L.WellFormed) (hconsequent : L.IsId e.consequent)
    (hantecedents : ∀ a ∈ e.antecedents, L.IsId a) : (L.file e).WellFormed :=
  { h with
    nodup_keys := nodup_keys_filed h.nodup_keys e
    group := fun i entries hgroup => by
      rcases mem_filed hgroup with hold | ⟨rfl, old, rfl, -⟩
      · exact h.group i entries hold
      · exact ⟨hconsequent, by simp⟩
    consequent := forall_mem_filed h.consequent rfl
    antecedents := forall_mem_filed h.antecedents hantecedents }

/-- A group is found under its consequent. -/
theorem groupOf_eq (h : L.WellFormed) (hgroup : (i, entries) ∈ L.groundings) :
    L.groupOf i = entries := by
  have hfind : L.groundings.find? (fun group => group.1 == i) = some (i, entries) :=
    (find?_key_eq_some_iff h.nodup_keys).2 ⟨hgroup, rfl⟩
  rw [groupOf, hfind]
  rfl

section Weights

variable [Scalar α] [Numeral α]

/-- A clause with a literal that is not negated is registered. -/
theorem register (h : L.WellFormed) {c : Weighted α} (hc : ∃ l ∈ c.2, l.truth = true) :
    (L.register c).WellFormed := by
  obtain ⟨hwell, hconsequent, hantecedents⟩ := h.scan c.2 (-1) (List.forall_mem_nil _)
  exact hwell.file (hconsequent (.inr hc)) hantecedents

omit [Numeral α] in
/-- **What settling a consequent does**: its rules fix it, or it has the prior that is kept of them,
as all of them are its own. -/
theorem settle_eq (h : L.WellFormed) (hgroup : (i, entries) ∈ L.groundings) (d : α) :
    L.settle d i =
      match if (L.fixed i).isSome then none else fixedBy? (entries.map Entry.rule) with
      | some b => L.setFixed i b
      | none => L.setPrior i
          (choosePrior (.default i.toNat d) (entries.map Entry.rule).eraseDups).ifTrue := by
  obtain ⟨hid, hne⟩ := h.group i entries hgroup
  have hrules : ∀ g ∈ (entries.map Entry.rule).eraseDups, g.consequent = i.toNat := by
    intro g hg
    obtain ⟨e, he, rfl⟩ := List.mem_map.1 (eraseDups_subset _ hg)
    exact congrArg Int.toNat (h.consequent i entries hgroup e he)
  have hsome : (entries.map Entry.rule).eraseDups ≠ [] := by
    obtain ⟨e, rest, rfl⟩ := List.exists_cons_of_ne_nil hne
    rw [List.map_cons, List.eraseDups_cons]
    exact List.cons_ne_nil _ _
  rw [Ledger.settle, h.groupOf_eq hgroup, cleanPriors_eq hsome hrules d]
  dsimp only
  rw [consequent_choosePrior d hrules, Int.toNat_of_nonneg hid.1]

omit [Numeral α] in
/-- A consequent that has rules is settled. -/
theorem settle (h : L.WellFormed) (hgroup : (i, entries) ∈ L.groundings) (d : α) :
    (L.settle d i).WellFormed := by
  have hid := (h.group i entries hgroup).1
  rw [h.settle_eq hgroup]
  split
  · exact h.setFixed hid _
  · exact h.setPrior hid _

end Weights

end WellFormed

/-! ### Steps -/

section Steps

variable [Scalar α] [Numeral α]

/-- What is done to the records at once. -/
inductive Step (α : Type) where
  /-- A literal of a piece of evidence or of a clause is numbered. -/
  | number (l : Literal)
  /-- A piece of evidence is noted. -/
  | note (l : Literal)
  /-- A clause is registered. -/
  | register (c : Weighted α)
  /-- A consequent is settled. -/
  | settle (i : Int)

namespace Step

/-- The records after a step. -/
def apply (d : α) : Step α → Ledger α → Ledger α
  | .number l, L => (L.number l).2
  | .note l, L => L.note l
  | .register c, L => L.register c
  | .settle i, L => L.settle d i

/-- When a step can be done: a clause that is registered has a literal that is not negated, and a
consequent that is settled has rules. -/
def Valid : Step α → Ledger α → Prop
  | .number _, _ => True
  | .note _, _ => True
  | .register c, _ => ∃ l ∈ c.2, l.truth = true
  | .settle i, L => i ∈ L.groundings.map (·.1)

end Step

/-- The records after some steps. -/
def runFrom (d : α) (L : Ledger α) (steps : List (Step α)) : Ledger α :=
  steps.foldl (fun L s => s.apply d L) L

/-- The records after some steps, with nothing in them before. -/
def run (d : α) (steps : List (Step α)) : Ledger α := runFrom d {} steps

/-- Each of some steps can be done once those before it are. -/
def Admits (d : α) : Ledger α → List (Step α) → Prop
  | _, [] => True
  | L, s :: steps => s.Valid L ∧ Admits d (s.apply d L) steps

theorem runFrom_append (d : α) (L : Ledger α) (xs ys : List (Step α)) :
    runFrom d L (xs ++ ys) = runFrom d (runFrom d L xs) ys :=
  List.foldl_append

theorem admits_append {d : α} {xs ys : List (Step α)} :
    Admits d L (xs ++ ys) ↔ Admits d L xs ∧ Admits d (runFrom d L xs) ys := by
  induction xs generalizing L with
  | nil => simp [Admits, runFrom]
  | cons s xs ih => exact (and_congr_right fun _ => ih).trans and_assoc.symm

namespace WellFormed

/-- **Every step keeps the records in step.** -/
theorem apply (h : L.WellFormed) {s : Step α} (hs : s.Valid L) (d : α) :
    (s.apply d L).WellFormed := by
  cases s with
  | number l => exact (h.number l).1
  | note l => exact h.note l
  | register c => exact h.register hs
  | settle i =>
    obtain ⟨⟨i, entries⟩, hgroup, rfl⟩ := List.mem_map.1 hs
    exact h.settle hgroup d

/-- **So does a run, at every point.** -/
theorem runFrom (h : L.WellFormed) {d : α} {steps : List (Step α)} (hsteps : Admits d L steps)
    (n : Nat) : (runFrom d L (steps.take n)).WellFormed := by
  induction steps generalizing L n with
  | nil => rwa [List.take_nil]
  | cons s steps ih =>
    cases n with
    | zero => exact h
    | succ n => exact ih (h.apply hsteps.1 d) hsteps.2 n

end WellFormed

end Steps

end Ledger

end FactNet
