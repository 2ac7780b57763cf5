import Mathlib
import FactNet.Grounding.Instances
import FactNet.Proofs.Grounding.History
import FactNet.Proofs.Grounding.Substitution

/-!
# What a literal can take

A literal of a closed predicate takes the constants of true evidence, and one of an open
predicate those of the domains of its types, as far as they may be paired; a token that has
been met before keeps its constant.

So a substitution is among what a literal can take exactly when the registry allows the instance,
each variable that the literal is the first to mention gets a constant of the type of its
place, and no two variables get the same.  It is found once, or as often as the evidence for it
has been given.

## Main definitions

* `Place`, `Registry.places` — the places for the arguments of a literal.
* `Registry.Allows` — evidence for a closed literal, a pair for an open one.
* `PlacesFit` — what is asked of the constants in some places, one place after another.
* `Registry.repetitions` — how often an instance of a literal is found.

## Main results

* `unifyBoth_of_mem_candidates` — a candidate is bound.
* `placesFit_of_mem_candidates` — **a candidate fits.**
* `countP_candidates` — **what fits is a candidate**, with its repetitions.
-/

namespace FactNet

variable {α : Type} {r : Registry α} {t : Substitution} {b : Binding} {seen : List String}
  {l : Literal}

/-! ### Places -/

/-- A place for an argument.  In a literal of an open predicate its constants come from a type. -/
structure Place where
  /-- The token in the place. -/
  token : String
  /-- The type that constants come from. -/
  type? : Option String
  deriving DecidableEq, Repr

namespace Registry

/-- Whether a name is declared as that of a closed predicate. -/
def isClosed (r : Registry α) (name : String) : Bool :=
  (r.predicate? name).any (·.closed)

/-- The places of a literal, in order. -/
def places (r : Registry α) (l : Literal) : List Place :=
  match r.predicate? l.name with
  | none => [⟨l.arg1, none⟩, ⟨l.arg2, none⟩]
  | some p =>
    if p.closed then [⟨l.arg1, none⟩, ⟨l.arg2, none⟩]
    else [⟨l.arg1, some p.type1⟩, ⟨l.arg2, some p.type2⟩]

/-- Whether a ground literal may be used: a closed one as far as there is evidence for it, and an
open one if its constants may be paired. -/
def Allows (r : Registry α) (l : Literal) : Prop :=
  if r.isClosed l.name then l.asTrue ∈ r.evidence else r.mayPair l.arg1 l.arg2 = true

theorem allows_iff {r : Registry α} {l : Literal} : r.Allows l ↔
    (r.isClosed l.name = true → l.asTrue ∈ r.evidence) ∧
      (r.isClosed l.name = false → r.mayPair l.arg1 l.arg2 = true) := by
  unfold Allows
  cases r.isClosed l.name <;> simp

/-- How often a ground literal is found: a closed one as often as it has been given as evidence. -/
def repetitions (r : Registry α) (l : Literal) : Nat :=
  if r.isClosed l.name then r.evidence.count l.asTrue else 1

/-- A variable that has not been met gets a constant of the type of its place. -/
def Typed (r : Registry α) (t : Substitution) (seen : List String) (s : Place) : Prop :=
  ∀ x ∈ variablesOf s.token, x ∉ seen → ∀ type, s.type? = some type → t x ∈ r.domains.get type

end Registry

/-- What is asked of the constants in some places, some variables having been met before them. -/
def PlacesFit (r : Registry α) (t : Substitution) : List String → List Place → Prop
  | _, [] => True
  | seen, s :: ss =>
    t.Fresh seen s.token ∧ r.Typed t seen s ∧ PlacesFit r t (seen ++ variablesOf s.token) ss

/-- What is asked of a literal of a closed predicate. -/
theorem placesFit_closed {p : Predicate} (hp : r.predicate? l.name = some p)
    (hclosed : p.closed = true) : PlacesFit r t seen (r.places l) ↔
      t.Fresh seen l.arg1 ∧ t.Fresh (seen ++ variablesOf l.arg1) l.arg2 := by
  simp [Registry.places, hp, hclosed, PlacesFit, Registry.Typed]

/-- What is asked of a literal of an open predicate. -/
theorem placesFit_open {p : Predicate} (hp : r.predicate? l.name = some p)
    (hopen : p.closed = false) : PlacesFit r t seen (r.places l) ↔
      (t.Fresh seen l.arg1 ∧ r.Typed t seen ⟨l.arg1, some p.type1⟩) ∧
        t.Fresh (seen ++ variablesOf l.arg1) l.arg2 ∧
          r.Typed t (seen ++ variablesOf l.arg1) ⟨l.arg2, some p.type2⟩ := by
  simp [Registry.places, hp, hopen, PlacesFit, and_assoc]

/-! ### The constants of a place -/

theorem fst_slotValues (type token : String) : (slotValues r type token b).1 =
    match b.denotes? token with
    | some value => [value]
    | none => r.domains.get type := by
  unfold slotValues
  cases b.denotes? token with
  | some value => rfl
  | none =>
    cases r.domains.get type with
    | nil => rfl
    | cons v vs => rfl

/-- Which constant a place can have. -/
theorem mem_slotValues (hb : b.Follows t seen) (type token : String) :
    t.value token ∈ (slotValues r type token b).1 ↔ r.Typed t seen ⟨token, some type⟩ := by
  rw [fst_slotValues, hb.denotes?_eq]
  unfold Registry.Typed
  by_cases hseen : ∀ x ∈ variablesOf token, x ∈ seen
  · rw [if_pos hseen]
    simp only [List.mem_singleton, true_iff]
    exact fun x hx hnot => absurd (hseen x hx) hnot
  · rw [if_neg hseen]
    obtain ⟨x, hx, hnot⟩ := not_forall₂.mp hseen
    rw [Substitution.value_eq hx]
    constructor
    · intro hmem y hy _ type' htype
      rw [(mem_variablesOf.mp hy).2, ← (mem_variablesOf.mp hx).2]
      cases htype
      exact hmem
    · exact fun hall => hall x hx hnot type rfl

/-- A place can have a constant in one way. -/
theorem count_slotValues (hr : r.WellFormed) (hb : b.Follows t seen) {type token : String}
    (htyped : r.Typed t seen ⟨token, some type⟩) :
    (slotValues r type token b).1.count (t.value token) = 1 := by
  refine List.count_eq_one_of_mem ?_ ((mem_slotValues hb type token).mpr htyped)
  rw [fst_slotValues]
  cases b.denotes? token with
  | some value => exact List.nodup_singleton value
  | none => exact hr.ordered.nodup_get type

/-! ### Candidates -/

/-- A candidate has the constants that a substitution gives. -/
def Candidate.fits (t : Substitution) (l : Literal) (c : Candidate) : Bool :=
  c.arg1 == t.value l.arg1 && c.arg2 == t.value l.arg2

theorem Candidate.fits_iff {c : Candidate} :
    c.fits t l = true ↔ c.arg1 = t.value l.arg1 ∧ c.arg2 = t.value l.arg2 := by
  simp [fits]

theorem mem_closedCandidates {c : Candidate} : c ∈ closedCandidates r l b ↔
    ∃ e ∈ r.trueEvidence l.name, e.arg1 = c.arg1 ∧ e.arg2 = c.arg2 ∧
      b.unifyBoth l.arg1 c.arg1 l.arg2 c.arg2 = some c.binding := by
  unfold closedCandidates
  rw [List.mem_filterMap]
  refine exists_congr fun e => and_congr_right fun _ => ?_
  rw [Option.map_eq_some_iff]
  constructor
  · rintro ⟨b', hb', rfl⟩
    exact ⟨rfl, rfl, hb'⟩
  · rintro ⟨h₁, h₂, hb'⟩
    exact ⟨c.binding, h₁ ▸ h₂ ▸ hb', by rw [h₁, h₂]⟩

theorem mem_secondCandidates {p : Predicate} {value1 : String} {c : Candidate} :
    c ∈ (secondCandidates r p l value1 b).1 ↔ c.arg1 = value1 ∧
      c.arg2 ∈ (slotValues r p.type2 l.arg2 b).1 ∧ r.mayPair value1 c.arg2 = true ∧
        b.unify l.arg2 c.arg2 = some c.binding := by
  unfold secondCandidates
  simp only [List.mem_filterMap, List.mem_filter, Option.map_eq_some_iff]
  constructor
  · rintro ⟨v, ⟨hv, hpair⟩, b', hb', rfl⟩
    exact ⟨rfl, hv, hpair, hb'⟩
  · rintro ⟨rfl, hv, hpair, hb'⟩
    exact ⟨c.arg2, ⟨hv, hpair⟩, c.binding, hb', rfl⟩

/-- The candidates of an open literal, one constant of the first place after another. -/
theorem fst_openCandidates (p : Predicate) : (openCandidates r p l b).1 =
    (slotValues r p.type1 l.arg1 b).1.flatMap fun v =>
      match b.unify l.arg1 v with
      | none => []
      | some b' => (secondCandidates r p l v b').1 := by
  unfold openCandidates
  dsimp only
  rw [List.flatMap_map]
  refine List.flatMap_congr fun v _ => ?_
  cases b.unify l.arg1 v <;> rfl

theorem mem_openCandidates {p : Predicate} {c : Candidate} :
    c ∈ (openCandidates r p l b).1 ↔ c.arg1 ∈ (slotValues r p.type1 l.arg1 b).1 ∧
      ∃ b', b.unify l.arg1 c.arg1 = some b' ∧ c.arg2 ∈ (slotValues r p.type2 l.arg2 b').1 ∧
        r.mayPair c.arg1 c.arg2 = true ∧ b'.unify l.arg2 c.arg2 = some c.binding := by
  rw [fst_openCandidates, List.mem_flatMap]
  constructor
  · rintro ⟨v, hv, hc⟩
    split at hc
    · cases hc
    · next b' hb' =>
      obtain ⟨rfl, hrest⟩ := mem_secondCandidates.mp hc
      exact ⟨hv, b', hb', hrest⟩
  · rintro ⟨hv, b', hb', hrest⟩
    refine ⟨c.arg1, hv, ?_⟩
    rw [hb']
    exact mem_secondCandidates.mpr ⟨rfl, hrest⟩

/-- **A candidate is bound** to the tokens of the literal. -/
theorem unifyBoth_of_mem_candidates {c : Candidate} (hc : c ∈ (candidates r l b).1) :
    b.unifyBoth l.arg1 c.arg1 l.arg2 c.arg2 = some c.binding := by
  unfold candidates at hc
  split at hc
  · cases hc
  · split at hc
    · obtain ⟨e, -, -, -, hunify⟩ := mem_closedCandidates.mp hc
      exact hunify
    · obtain ⟨-, b', hb', -, -, hunify⟩ := mem_openCandidates.mp hc
      unfold Binding.unifyBoth
      rw [hb']
      exact hunify

/-- When two tokens can be bound. -/
theorem isSome_unifyBoth (hb : b.Follows t seen) (token token' : String) :
    (b.unifyBoth token (t.value token) token' (t.value token')).isSome = true ↔
      t.Fresh seen token ∧ t.Fresh (seen ++ variablesOf token) token' := by
  rw [← hb.isSome_unify token]
  unfold Binding.unifyBoth
  cases hunify : b.unify token (t.value token) with
  | none => simp
  | some b' => simpa using (hb.unify hunify).isSome_unify token'

/-- Which literal the instance of a literal without its negation is. -/
theorem eq_asTrue_under_iff {e : Literal} : e = (l.under t).asTrue ↔
    (e.name = l.name ∧ e.truth = true) ∧ e.arg1 = t.value l.arg1 ∧ e.arg2 = t.value l.arg2 := by
  constructor
  · rintro rfl
    exact ⟨⟨rfl, rfl⟩, rfl, rfl⟩
  · obtain ⟨name, arg1, arg2, truth⟩ := e
    rintro ⟨⟨rfl, rfl⟩, rfl, rfl⟩
    rfl

/-- **A candidate fits**: if it has the constants that a substitution gives, the registry allows the
instance, and the constants are those of the places. -/
theorem placesFit_of_mem_candidates (hb : b.Follows t seen) {c : Candidate}
    (hc : c ∈ (candidates r l b).1) (hfits : c.fits t l = true) :
    PlacesFit r t seen (r.places l) ∧ r.Allows (l.under t) := by
  obtain ⟨h₁, h₂⟩ := Candidate.fits_iff.mp hfits
  have hunify := unifyBoth_of_mem_candidates hc
  rw [h₁, h₂] at hunify
  have hfresh := (isSome_unifyBoth hb l.arg1 l.arg2).mp (Option.isSome_of_eq_some hunify)
  unfold candidates at hc
  split at hc
  · cases hc
  · next p hp =>
    unfold Registry.Allows Registry.isClosed
    rw [Literal.under_name, hp]
    split at hc
    · next hclosed =>
      -- a closed candidate comes from a piece of evidence
      refine ⟨(placesFit_closed hp hclosed).mpr hfresh, ?_⟩
      obtain ⟨e, he, he₁, he₂, -⟩ := mem_closedCandidates.mp hc
      obtain ⟨hevidence, hname⟩ := List.mem_filter.mp he
      rw [Bool.and_eq_true, beq_iff_eq] at hname
      rw [← eq_asTrue_under_iff.mpr ⟨hname, he₁.trans h₁, he₂.trans h₂⟩]
      simpa [hclosed] using hevidence
    · next hopen =>
      -- an open one has constants of its types that may be paired
      rw [Bool.not_eq_true] at hopen
      obtain ⟨hv₁, b', hb', hv₂, hpair, -⟩ := mem_openCandidates.mp hc
      rw [h₁] at hv₁ hb' hpair
      rw [h₂] at hv₂ hpair
      refine ⟨(placesFit_open hp hopen).mpr ⟨⟨hfresh.1, ?_⟩, hfresh.2, ?_⟩, ?_⟩
      · exact (mem_slotValues hb p.type1 l.arg1).mp hv₁
      · exact (mem_slotValues (hb.unify hb') p.type2 l.arg2).mp hv₂
      · simpa [hopen] using hpair

/-! ### Counting candidates -/

/-- A sum in which every summand is a number or nothing. -/
theorem sum_map_eq_countP_mul {β : Type} {p : β → Bool} {f : β → Nat} {k : Nat} {xs : List β}
    (h : ∀ x ∈ xs, f x = if p x then k else 0) : (xs.map f).sum = xs.countP p * k := by
  induction xs with
  | nil => simp
  | cons x xs ih =>
    rw [List.map_cons, List.sum_cons, h x List.mem_cons_self,
      ih fun y hy => h y (List.mem_cons_of_mem _ hy), List.countP_cons]
    split <;> simp [Nat.add_mul, Nat.add_comm]

/-- Every piece of evidence for an instance gives a candidate. -/
theorem countP_closedCandidates (hb : b.Follows t seen) (h₁ : t.Fresh seen l.arg1)
    (h₂ : t.Fresh (seen ++ variablesOf l.arg1) l.arg2) :
    (closedCandidates r l b).countP (Candidate.fits t l) =
      r.evidence.count (l.under t).asTrue := by
  have hsome := (isSome_unifyBoth hb l.arg1 l.arg2).mpr ⟨h₁, h₂⟩
  unfold closedCandidates Registry.trueEvidence
  rw [List.countP_filterMap, List.countP_filter, List.count_eq_countP]
  refine List.countP_congr fun e _ => ?_
  rw [beq_iff_eq, eq_asTrue_under_iff, Bool.and_eq_true, Bool.and_eq_true, beq_iff_eq, and_comm]
  refine and_congr_right fun _ => ?_
  constructor
  · intro h
    cases hunify : b.unifyBoth l.arg1 e.arg1 l.arg2 e.arg2 with
    | none => simp [hunify] at h
    | some b' =>
      rw [hunify] at h
      exact Candidate.fits_iff.mp h
  · rintro ⟨h₁, h₂⟩
    rw [h₁, h₂]
    obtain ⟨b', hb'⟩ := Option.isSome_iff_exists.mp hsome
    rw [hb']
    exact Candidate.fits_iff.mpr ⟨rfl, rfl⟩

/-- With the constant of its first place, an instance of an open literal is a candidate once. -/
theorem countP_secondCandidates (hr : r.WellFormed) (hb : b.Follows t seen) (p : Predicate)
    (hfresh : t.Fresh seen l.arg2) (htyped : r.Typed t seen ⟨l.arg2, some p.type2⟩)
    (hpair : r.mayPair (t.value l.arg1) (t.value l.arg2) = true) :
    (secondCandidates r p l (t.value l.arg1) b).1.countP (Candidate.fits t l) = 1 := by
  obtain ⟨b₂, hb₂⟩ := Option.isSome_iff_exists.mp ((hb.isSome_unify l.arg2).mpr hfresh)
  rw [← count_slotValues hr hb htyped]
  unfold secondCandidates
  dsimp only
  rw [List.countP_filterMap, List.countP_filter, List.count_eq_countP]
  refine List.countP_congr fun v _ => ?_
  rw [beq_iff_eq, Bool.and_eq_true]
  constructor
  · rintro ⟨h, -⟩
    cases hunify : b.unify l.arg2 v with
    | none => simp [hunify] at h
    | some b₃ =>
      rw [hunify] at h
      exact (Candidate.fits_iff.mp h).2
  · rintro rfl
    rw [hb₂]
    exact ⟨Candidate.fits_iff.mpr ⟨rfl, rfl⟩, hpair⟩

/-- An instance of an open literal is a candidate once. -/
theorem countP_openCandidates (hr : r.WellFormed) (hb : b.Follows t seen) {p : Predicate}
    (hp : r.predicate? l.name = some p) (hopen : p.closed = false)
    (hfit : PlacesFit r t seen (r.places l))
    (hpair : r.mayPair (t.value l.arg1) (t.value l.arg2) = true) :
    (openCandidates r p l b).1.countP (Candidate.fits t l) = 1 := by
  obtain ⟨⟨hfresh₁, htyped₁⟩, hfresh₂, htyped₂⟩ := (placesFit_open hp hopen).mp hfit
  obtain ⟨b', hb'⟩ := Option.isSome_iff_exists.mp ((hb.isSome_unify l.arg1).mpr hfresh₁)
  rw [fst_openCandidates, List.countP_flatMap,
    sum_map_eq_countP_mul (p := (· == t.value l.arg1)) (k := 1) ?_, Nat.mul_one]
  · exact count_slotValues hr hb htyped₁
  · intro v _
    dsimp only [Function.comp_apply]
    by_cases hv : v = t.value l.arg1
    · subst hv
      rw [hb', if_pos (beq_self_eq_true _)]
      exact countP_secondCandidates hr (hb.unify hb') p hfresh₂ htyped₂ hpair
    · rw [if_neg (by simpa using hv), List.countP_eq_zero]
      intro c hc hfits
      refine hv ?_
      rw [← (Candidate.fits_iff.mp hfits).1]
      split at hc
      · cases hc
      · exact (mem_secondCandidates.mp hc).1.symm

/-- **What fits is a candidate**, as often as it is repeated. -/
theorem countP_candidates (hr : r.WellFormed) (hb : b.Follows t seen)
    (hdeclared : (r.predicate? l.name).isSome) (hfit : PlacesFit r t seen (r.places l))
    (hallows : r.Allows (l.under t)) :
    (candidates r l b).1.countP (Candidate.fits t l) = r.repetitions (l.under t) := by
  obtain ⟨p, hp⟩ := Option.isSome_iff_exists.mp hdeclared
  unfold candidates Registry.repetitions Registry.isClosed
  unfold Registry.Allows Registry.isClosed at hallows
  rw [Literal.under_name, hp] at hallows ⊢
  cases hclosed : p.closed with
  | true =>
    obtain ⟨hfresh₁, hfresh₂⟩ := (placesFit_closed hp hclosed).mp hfit
    simp only [Option.any_some, hclosed, if_true]
    exact countP_closedCandidates hb hfresh₁ hfresh₂
  | false =>
    simp only [Option.any_some, hclosed, Bool.false_eq_true, if_false] at hallows ⊢
    exact countP_openCandidates hr hb hp hclosed hfit hallows

end FactNet
