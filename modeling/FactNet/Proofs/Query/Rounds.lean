import Mathlib.Data.List.Basic
import FactNet.Program.Dependency
import FactNet.Query.Selection

/-!
# Selecting rules in rounds

Selection is backward chaining.  A rule is taken in the first round in which all its heads are
wanted and all its bodies are known, and then its bodies are wanted in later rounds.  Known are,
before the first round, the predicates of the facts, and from the second round on also those that
the catalogue wants; what rules want besides was known when they were taken, so nothing else is
ever known.

When a round takes nothing, what is wanted has not changed since the round before.  So, unless that
is the first round, no rule is left that could be taken at all.

## Main definitions

* `Rule.Fits` — the heads and the bodies of a rule are among some predicates.
* `roundsFrom`, `selectionRounds` — the rules that are taken in each round.
* `IsJustified` — every rule of a round is wanted by the catalogue or by the rounds before.
* `IsChained` — what holds before every round.

## Main results

* `takeRounds_eq` — the rules that are taken are those of all rounds.
* `IsChained.next` — **a round keeps what holds before it.**
* `IsChained.justified`, `IsChained.exists_rest` — so all rounds are justified, and a round that
  takes nothing leaves no rule that could be taken.
* `selectRules_chained` — **selection is backward chaining.**
-/

namespace FactNet

variable {α : Type}

/-! ### Heads and bodies -/

namespace Rule

variable {r : Rule α} {name : String}

theorem mem_headNames : name ∈ r.headNames ↔
    ∃ l ∈ r.literals, l.isEquality = false ∧ l.truth = true ∧ l.name = name := by
  simp [headNames, and_assoc]

theorem mem_bodyNames : name ∈ r.bodyNames ↔
    ∃ l ∈ r.literals, l.isEquality = false ∧ l.truth = false ∧ l.name = name := by
  simp [bodyNames, and_assoc]

/-- The bodies are what the negated literals are about, equalities apart. -/
theorem mem_bodyNames_iff :
    name ∈ r.bodyNames ↔ name ∈ r.antecedents.map (·.name) ∧ name ≠ equalsName := by
  have hequality : ∀ l : Literal, l.isEquality = false ↔ l.name ≠ equalsName := fun l => by
    simp [Literal.isEquality]
  rw [mem_bodyNames, List.mem_map]
  constructor
  · rintro ⟨l, hl, heq, htruth, rfl⟩
    exact ⟨⟨l, List.mem_filter.2 ⟨hl, by simp [htruth]⟩, rfl⟩, (hequality l).1 heq⟩
  · rintro ⟨⟨l, hl, rfl⟩, hne⟩
    obtain ⟨hl, htruth⟩ := List.mem_filter.1 hl
    exact ⟨l, hl, (hequality l).2 hne, by simpa using htruth, rfl⟩

theorem ne_equalsName_of_mem_headNames (h : name ∈ r.headNames) : name ≠ equalsName := by
  obtain ⟨l, -, heq, -, rfl⟩ := mem_headNames.1 h
  simpa [Literal.isEquality] using heq

/-- All predicates of a rule are declared. -/
def IsDeclared (r : Rule α) (declared : List String) : Prop :=
  ∀ l ∈ r.literals, l.isEquality = false → l.name ∈ declared

/-- The heads of a rule are among some predicates, and its bodies among others. -/
structure Fits (r : Rule α) (heads bodies : String → Prop) : Prop where
  /-- The heads are. -/
  heads : ∀ c ∈ r.headNames, heads c
  /-- The bodies are. -/
  bodies : ∀ a ∈ r.bodyNames, bodies a

theorem Fits.imp {heads heads' bodies bodies' : String → Prop} (h : r.Fits heads bodies)
    (hheads : ∀ c ∈ r.headNames, heads c → heads' c)
    (hbodies : ∀ a ∈ r.bodyNames, bodies a → bodies' a) : r.Fits heads' bodies' :=
  ⟨fun c hc => hheads c hc (h.heads c hc), fun a ha => hbodies a ha (h.bodies a ha)⟩

end Rule

/-- A rule can be taken if its predicates are declared, its heads wanted and its bodies known. -/
theorem Frontier.admits_iff {f : Frontier} {declared : List String} {r : Rule α} :
    f.admits declared r = true ↔
      r.IsDeclared declared ∧ r.Fits (· ∈ f.heads) (· ∈ f.bodies) := by
  unfold Frontier.admits
  rw [List.all_eq_true]
  constructor
  · intro h
    have hliteral : ∀ l ∈ r.literals, l.isEquality = false → l.name ∈ declared ∧
        if l.truth then l.name ∈ f.heads else l.name ∈ f.bodies := by
      intro l hl heq
      have hl := h l hl
      rw [heq, Bool.false_or, Bool.and_eq_true, List.contains_iff_mem] at hl
      refine ⟨hl.1, ?_⟩
      cases htruth : l.truth <;> simpa [htruth] using hl.2
    refine ⟨fun l hl heq => (hliteral l hl heq).1, fun c hc => ?_, fun a ha => ?_⟩
    · obtain ⟨l, hl, heq, htruth, rfl⟩ := Rule.mem_headNames.1 hc
      simpa [htruth] using (hliteral l hl heq).2
    · obtain ⟨l, hl, heq, htruth, rfl⟩ := Rule.mem_bodyNames.1 ha
      simpa [htruth] using (hliteral l hl heq).2
  · rintro ⟨hdeclared, hfits⟩ l hl
    cases heq : l.isEquality with
    | true => rfl
    | false =>
      rw [Bool.false_or, Bool.and_eq_true, List.contains_iff_mem]
      refine ⟨hdeclared l hl heq, ?_⟩
      cases htruth : l.truth with
      | true => simpa using hfits.heads _ (Rule.mem_headNames.2 ⟨l, hl, heq, htruth, rfl⟩)
      | false => simpa using hfits.bodies _ (Rule.mem_bodyNames.2 ⟨l, hl, heq, htruth, rfl⟩)

/-! ### Rounds -/

/-- The rules that are taken in each round, after some that have been taken.  The last round is the
one that ends the selection. -/
def roundsFrom (mode : RulesMode) (declared : List String) :
    Nat → Frontier → List (Rule α) → List (Rule α) → List (List (Rule α))
  | 0, _, _, _ => []
  | n + 1, f, taken, remaining =>
    let now := remaining.filter (f.admits declared)
    if mode ≠ .chained || now.isEmpty then [now]
    else
      now :: roundsFrom mode declared n (f.advance (taken ++ now)) (taken ++ now)
        (remaining.filter fun r => !f.admits declared r)

/-- The rules that are taken in each round for a pivot. -/
def selectionRounds (mode : RulesMode) (candidates : Program α) (g : FactGraph α)
    (pivot : Entity) : List (List (Rule α)) :=
  roundsFrom mode (candidates.predicates.map (·.name)) mostRounds (firstFrontier mode g pivot) []
    candidates.rules

/-- The rules that are taken are those of all rounds. -/
theorem takeRounds_eq (mode : RulesMode) (declared : List String) (n : Nat) (f : Frontier)
    (taken remaining : List (Rule α)) : takeRounds mode declared n f taken remaining =
      taken ++ (roundsFrom mode declared n f taken remaining).flatten := by
  induction n generalizing f taken remaining with
  | zero => simp [takeRounds, roundsFrom]
  | succ n ih =>
    rw [takeRounds, roundsFrom]
    split
    · simp
    · rw [ih, List.flatten_cons, List.append_assoc]

/-- All predicates of a rule that is taken are declared. -/
theorem isDeclared_of_mem_roundsFrom {mode : RulesMode} {declared : List String} {n : Nat}
    {f : Frontier} {taken remaining : List (Rule α)} {r : Rule α}
    (h : r ∈ (roundsFrom mode declared n f taken remaining).flatten) : r.IsDeclared declared := by
  have hnow : r ∈ remaining.filter (f.admits declared) → r.IsDeclared declared := fun hr =>
    (Frontier.admits_iff.1 (List.mem_filter.1 hr).2).1
  induction n generalizing f taken remaining with
  | zero => cases h
  | succ n ih =>
    rw [roundsFrom] at h
    split at h
    · exact hnow (by simpa using h)
    · rw [List.flatten_cons] at h
      rcases List.mem_append.1 h with h | h
      · exact hnow h
      · exact ih h fun hr => (Frontier.admits_iff.1 (List.mem_filter.1 hr).2).1

theorem rules_selectRules (mode : RulesMode) (candidates : Program α) (g : FactGraph α)
    (pivot : Entity) : (selectRules mode candidates g pivot).rules =
      (selectionRounds mode candidates g pivot).flatten :=
  takeRounds_eq ..

/-! ### What holds before every round -/

/-- Every rule of a round has heads that are wanted to begin with or are bodies of the rounds
before, and bodies that are known or wanted to begin with. -/
def IsJustified (known wanted : List String) (rounds : List (List (Rule α))) : Prop :=
  ∀ earlier now later, rounds = earlier ++ now :: later → ∀ r ∈ now,
    r.Fits (fun c => c ∈ wanted ∨ ∃ r' ∈ earlier.flatten, c ∈ r'.bodyNames)
      fun a => a ∈ known ∨ a ∈ wanted

theorem IsJustified.concat {known wanted : List String} {rounds : List (List (Rule α))}
    (h : IsJustified known wanted rounds) {now : List (Rule α)}
    (hnow : ∀ r ∈ now, r.Fits (fun c => c ∈ wanted ∨ ∃ r' ∈ rounds.flatten, c ∈ r'.bodyNames)
      fun a => a ∈ known ∨ a ∈ wanted) : IsJustified known wanted (rounds ++ [now]) := by
  intro earlier now' later heq r hr
  rcases List.eq_nil_or_concat later with rfl | ⟨later, last, rfl⟩
  · obtain ⟨rfl, hlast⟩ := List.append_inj' heq rfl
    obtain rfl := List.singleton_inj.1 hlast
    exact hnow r hr
  · rw [List.concat_eq_append, ← List.cons_append, ← List.append_assoc] at heq
    exact h earlier now' later (List.append_inj' heq rfl).1 r hr

/-- The rule's bodies are known, in the end. -/
theorem IsJustified.bodies {known wanted : List String} {rounds : List (List (Rule α))}
    (h : IsJustified known wanted rounds) {r : Rule α} (hr : r ∈ rounds.flatten) {a : String}
    (ha : a ∈ r.bodyNames) : a ∈ known ∨ a ∈ wanted := by
  obtain ⟨now, hnow, hr⟩ := List.mem_flatten.1 hr
  obtain ⟨earlier, later, heq⟩ := List.append_of_mem hnow
  exact (h earlier now later heq r hr).bodies a ha

/-- What holds before a round of a chained selection, if these rounds have been before it. -/
structure IsChained (known wanted : List String) (rounds : List (List (Rule α)))
    (f : Frontier) : Prop where
  /-- All rounds so far are justified. -/
  justified : IsJustified known wanted rounds
  /-- All rounds so far have taken a rule. -/
  productive : ∀ now ∈ rounds, now ≠ []
  /-- Wanted is what was so to begin with, and what the negated literals so far are about. -/
  heads : ∀ c, c ∈ f.heads ↔
    c ∈ wanted ∨ ∃ r ∈ rounds.flatten, c ∈ r.antecedents.map (·.name)
  /-- What was known to begin with is known. -/
  bodies_known : ∀ a ∈ known, a ∈ f.bodies
  /-- What was wanted to begin with is known, except in the first round. -/
  bodies_wanted : rounds ≠ [] → ∀ a ∈ wanted, a ∈ f.bodies
  /-- Only equality is known besides. -/
  of_bodies : ∀ a ∈ f.bodies, a ∈ known ∨ a ∈ wanted ∨ a = equalsName

namespace IsChained

variable {known wanted declared : List String} {rounds : List (List (Rule α))} {f : Frontier}
  {remaining : List (Rule α)}

theorem first (g : FactGraph α) (pivot : Entity) :
    IsChained (g.edges.map Fact.predicateName) (catalogueNames pivot.type)
      ([] : List (List (Rule α))) (firstFrontier .chained g pivot) where
  justified := fun earlier now later heq => by simp at heq
  productive := fun now hnow => by cases hnow
  heads := fun c => by simp [firstFrontier]
  bodies_known := fun a ha => by simpa [firstFrontier] using ha
  bodies_wanted := fun h => absurd rfl h
  of_bodies := fun a ha => .inl (by simpa [firstFrontier] using ha)

/-- A rule that can be taken has heads that are wanted, and bodies that are known. -/
theorem fits_of_admits (h : IsChained known wanted rounds f) {r : Rule α}
    (hr : f.admits declared r = true) :
    r.Fits (fun c => c ∈ wanted ∨ ∃ r' ∈ rounds.flatten, c ∈ r'.bodyNames)
      fun a => a ∈ known ∨ a ∈ wanted := by
  refine (Frontier.admits_iff.1 hr).2.imp (fun c hc hwanted => ?_) fun a ha hknown => ?_
  · refine ((h.heads c).1 hwanted).imp_right ?_
    rintro ⟨r', hr', hc'⟩
    exact ⟨r', hr', Rule.mem_bodyNames_iff.2 ⟨hc', Rule.ne_equalsName_of_mem_headNames hc⟩⟩
  · rcases h.of_bodies a hknown with hknown | hwanted | heq
    · exact .inl hknown
    · exact .inr hwanted
    · exact absurd heq (Rule.mem_bodyNames_iff.1 ha).2

/-- After the first round a rule can be taken if its heads are wanted and its bodies known. -/
theorem admits_of_fits (h : IsChained known wanted rounds f) (hrounds : rounds ≠ []) {r : Rule α}
    (hdeclared : r.IsDeclared declared)
    (hfits : r.Fits (fun c => c ∈ wanted ∨ ∃ r' ∈ rounds.flatten, c ∈ r'.bodyNames)
      fun a => a ∈ known ∨ a ∈ wanted) : f.admits declared r = true := by
  refine Frontier.admits_iff.2 ⟨hdeclared, hfits.imp (fun c _ hc => ?_) fun a _ ha => ?_⟩
  · refine (h.heads c).2 (hc.imp_right ?_)
    rintro ⟨r', hr', hc'⟩
    exact ⟨r', hr', (Rule.mem_bodyNames_iff.1 hc').1⟩
  · exact ha.elim (h.bodies_known a) (h.bodies_wanted hrounds a)

/-- **A round keeps what holds before it**, if it takes a rule. -/
theorem next (h : IsChained known wanted rounds f) {now : List (Rule α)} (hne : now ≠ [])
    (hnow : ∀ r ∈ now, f.admits declared r = true) :
    IsChained known wanted (rounds ++ [now]) (f.advance (rounds.flatten ++ now)) := by
  have hjustified := h.justified.concat fun r hr => h.fits_of_admits (hnow r hr)
  refine ⟨hjustified, ?_, fun c => ?_, fun a ha => ?_, fun _ a ha => ?_, fun a ha => ?_⟩
  · rintro now' hnow'
    rcases List.mem_append.1 hnow' with hnow' | hnow'
    · exact h.productive now' hnow'
    · obtain rfl := List.mem_singleton.1 hnow'
      exact hne
  · -- the bodies of the rounds before are wanted already
    rw [List.flatten_append, List.flatten_singleton, Frontier.advance]
    simp only [List.mem_append, List.mem_flatMap, h.heads, ← Rule.antecedents.eq_1]
    constructor
    · rintro ((hc | ⟨r, hr, hc⟩) | ⟨r, hr, hc⟩)
      · exact .inl hc
      · exact .inr ⟨r, .inl hr, hc⟩
      · exact .inr ⟨r, hr, hc⟩
    · rintro (hc | ⟨r, hr, hc⟩)
      · exact .inl (.inl hc)
      · exact .inr ⟨r, hr, hc⟩
  · exact List.mem_append_left _ (h.bodies_known a ha)
  · exact List.mem_append_right _ ((h.heads a).2 (.inl ha))
  · rcases List.mem_append.1 ha with ha | ha
    · exact h.of_bodies a ha
    · rcases (h.heads a).1 ha with ha | ⟨r, hr, ha⟩
      · exact .inr (.inl ha)
      · by_cases heq : a = equalsName
        · exact .inr (.inr heq)
        · refine (h.justified.bodies hr (Rule.mem_bodyNames_iff.2 ⟨ha, heq⟩)).imp_right .inl

/-- All rounds are justified, and a round that takes nothing leaves no rule that could be taken. -/
theorem exists_rest (h : IsChained known wanted rounds f) {n : Nat} {all : List (List (Rule α))}
    (hall : all = rounds ++ roundsFrom .chained declared n f rounds.flatten remaining) :
    IsJustified known wanted all ∧
      ∃ rest, (all.flatten ++ rest).Perm (rounds.flatten ++ remaining) ∧
        ∀ earlier, all = earlier ++ [[]] → earlier.flatten ≠ [] → ∀ r ∈ rest,
          r.IsDeclared declared → ¬r.Fits
            (fun c => c ∈ wanted ∨ ∃ r' ∈ all.flatten, c ∈ r'.bodyNames)
            fun a => a ∈ known ∨ a ∈ wanted := by
  induction n generalizing rounds f remaining with
  | zero =>
    obtain rfl : all = rounds := by rw [hall, roundsFrom, List.append_nil]
    refine ⟨h.justified, remaining, .refl _, fun earlier heq => ?_⟩
    exact absurd rfl (h.productive [] (by simp [heq]))
  | succ n ih =>
    obtain ⟨now, hnow⟩ : ∃ now, now = remaining.filter (f.admits declared) := ⟨_, rfl⟩
    rw [roundsFrom, ← hnow] at hall
    by_cases hempty : now = []
    · -- the round that takes nothing is the last one
      have hlast : all = rounds ++ [[]] := by rw [hall, hempty]; rfl
      have hflatten : all.flatten = rounds.flatten := by rw [hlast]; simp
      refine ⟨hlast ▸ h.justified.concat fun r hr => (by cases hr), remaining, hflatten ▸ .refl _,
        fun earlier heq hne r hr hdeclared hfits => ?_⟩
      obtain ⟨rfl, -⟩ := List.append_inj' (hlast.symm.trans heq) rfl
      have hrounds : rounds ≠ [] := fun hnil => hne (by simp [hnil])
      rw [hflatten] at hfits
      exact List.filter_eq_nil_iff.1 (hnow.symm.trans hempty) r hr
        (h.admits_of_fits hrounds hdeclared hfits)
    · have hadmitted : ∀ r ∈ now, f.admits declared r = true := fun r hr =>
        (List.mem_filter.1 (hnow ▸ hr)).2
      have hflatten : (rounds ++ [now]).flatten = rounds.flatten ++ now := by simp
      have hmore : (decide (RulesMode.chained ≠ .chained) || now.isEmpty) = false := by
        simpa using hempty
      rw [if_neg (Bool.eq_false_iff.1 hmore), ← hflatten, List.append_cons] at hall
      obtain ⟨hjustified, rest, hperm, hclosed⟩ := ih (hflatten ▸ h.next hempty hadmitted) hall
      refine ⟨hjustified, rest, hperm.trans ?_, hclosed⟩
      rw [hflatten, List.append_assoc, hnow]
      exact (List.filter_append_perm _ _).append_left _

end IsChained

/-- **Selection is backward chaining.**

The rules that are selected are those of all rounds, each of them a candidate that is taken once.
Every head of a rule is wanted by the catalogue or is a body of a rule of an earlier round, and
every body is a predicate of a fact or wanted by the catalogue.  If selection ends with a round that
takes nothing, after one that took something, then no rule that is left, with all its predicates
declared, has heads that are wanted by the catalogue or the selected rules and bodies that are
predicates of facts or wanted by the catalogue. -/
theorem selectRules_chained (candidates : Program α) (g : FactGraph α) (pivot : Entity) :
    let known := g.edges.map Fact.predicateName
    let wanted := catalogueNames pivot.type
    let rounds := selectionRounds .chained candidates g pivot
    let selected := (selectRules .chained candidates g pivot).rules
    selected = rounds.flatten ∧
      (∀ earlier now later, rounds = earlier ++ now :: later → ∀ r ∈ now,
        (∀ c ∈ r.headNames, c ∈ wanted ∨ ∃ r' ∈ earlier.flatten, c ∈ r'.bodyNames) ∧
          ∀ a ∈ r.bodyNames, a ∈ known ∨ a ∈ wanted) ∧
      ∃ rest, (selected ++ rest).Perm candidates.rules ∧
        ∀ earlier, rounds = earlier ++ [[]] → earlier.flatten ≠ [] → ∀ r ∈ rest,
          ¬(r.IsDeclared (candidates.predicates.map (·.name)) ∧
            (∀ c ∈ r.headNames, c ∈ wanted ∨ ∃ r' ∈ selected, c ∈ r'.bodyNames) ∧
              ∀ a ∈ r.bodyNames, a ∈ known ∨ a ∈ wanted) := by
  intro known wanted rounds selected
  have hselected : selected = rounds.flatten := rules_selectRules ..
  have hrounds : rounds = [] ++ roundsFrom .chained (candidates.predicates.map (·.name)) mostRounds
      (firstFrontier .chained g pivot) ([] : List (List (Rule α))).flatten candidates.rules := rfl
  obtain ⟨hjustified, rest, hperm, hclosed⟩ := (IsChained.first g pivot).exists_rest hrounds
  refine ⟨hselected, fun earlier now later heq r hr => ?_, rest, ?_, ?_⟩
  · have hfits := hjustified earlier now later heq r hr
    exact ⟨hfits.heads, hfits.bodies⟩
  · rw [hselected]
    exact hperm
  · rintro earlier heq hne r hr ⟨hdeclared, hheads, hbodies⟩
    rw [hselected] at hheads
    exact hclosed earlier heq hne r hr hdeclared ⟨hheads, hbodies⟩

end FactNet
