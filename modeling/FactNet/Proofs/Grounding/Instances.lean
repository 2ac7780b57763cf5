import FactNet.Proofs.Grounding.Candidates

/-!
# Grounding is exact

The instances of a rule are found literal by literal, with the constants of earlier literals
carried along.  They are exactly what the substitutions make of the rule that ground it, a
condition that speaks of no search: different variables get different constants, the registry
allows every instance of a literal, a variable first mentioned in an open literal gets a
constant of the type of that place, and every equality is false of variables that the other
literals bind.

The search visits the instance that a substitution makes as often as the evidence for its closed
literals has been given, and no other substitution makes the same instance.

## Main definitions

* `Rule.relational`, `Rule.equalities`, `Rule.groundClause` — the two kinds of literals of a rule,
  and what a substitution makes of the first kind.
* `Grounds` — a substitution grounds a rule.
* `Registry.timesFound` — how often its instance is found.

## Main results

* `count_instancesFrom` — the search finds what fits.
* `placesFit_of_mem_instancesFrom` — what the search finds fits.
* `placesFit_iff` — what fits place by place fits as a whole.
* `mem_instances_iff`, `count_instances` — **the instances of a rule are those of the substitutions
  that ground it.**
-/

namespace FactNet

variable {α : Type} {r : Registry α} {t : Substitution} {b : Binding} {seen : List String}

/-! ### Equalities -/

/-- Whether an equality of two constants is true. -/
def Literal.equalityHolds (l : Literal) : Bool :=
  (l.arg1 == l.arg2) == l.truth

/-- Some equalities are about variables that have been met, and false. -/
def LeavesOpen (t : Substitution) (seen : List String) (equalities : List Literal) : Prop :=
  ∀ l ∈ equalities, (∀ x ∈ l.variables, x ∈ seen) ∧ (l.under t).equalityHolds = false

/-- When equalities leave a clause open. -/
theorem checkEqualities_eq_open_iff (hb : b.Follows t seen) (equalities : List Literal) :
    checkEqualities b equalities = .open ↔ LeavesOpen t seen equalities := by
  unfold LeavesOpen
  induction equalities with
  | nil => simp [checkEqualities]
  | cons l ls ih =>
    have hvariables : (∀ x ∈ l.variables, x ∈ seen) ↔
        (∀ x ∈ variablesOf l.arg1, x ∈ seen) ∧ ∀ x ∈ variablesOf l.arg2, x ∈ seen := by
      simp only [Literal.variables, List.mem_append, or_imp, forall_and]
    rw [checkEqualities, hb.denotes?_eq, hb.denotes?_eq, List.forall_mem_cons, hvariables, ← ih]
    by_cases h₁ : ∀ x ∈ variablesOf l.arg1, x ∈ seen
    · by_cases h₂ : ∀ x ∈ variablesOf l.arg2, x ∈ seen
      · rw [if_pos h₁, if_pos h₂]
        dsimp only
        unfold Literal.equalityHolds
        rw [Literal.under_arg1, Literal.under_arg2, Literal.under_truth]
        split
        · next hholds => simp [hholds]
        · next hfalse => exact ⟨fun h => ⟨⟨⟨h₁, h₂⟩, Bool.eq_false_iff.mpr hfalse⟩, h⟩, And.right⟩
      · rw [if_neg h₂]
        refine iff_of_false ?_ fun h => h₂ h.1.1.2
        split <;> simp_all
    · rw [if_neg h₁]
      exact iff_of_false (by simp) fun h => h₁ h.1.1.1

/-! ### The search -/

section Search

variable {ruleText : String} {equalities : List Literal}

theorem mem_instancesFrom_nil {ground clause : List Literal} :
    clause ∈ (instancesFrom r ruleText equalities [] b ground).1 ↔
      checkEqualities b equalities = .open ∧ clause = ground.reverse := by
  unfold instancesFrom
  split
  · next h => simp [h]
  · next h => simp [h]
  · next h => simp [h]

theorem mem_instancesFrom_cons {l : Literal} {ls ground clause : List Literal} :
    clause ∈ (instancesFrom r ruleText equalities (l :: ls) b ground).1 ↔
      ∃ c ∈ (candidates r l b).1, clause ∈ (instancesFrom r ruleText equalities ls c.binding
        (l.withArgs c.arg1 c.arg2 :: ground)).1 := by
  simp [instancesFrom]

theorem reverse_cons_append (l : Literal) (ground rest : List Literal) :
    (l :: ground).reverse ++ rest = ground.reverse ++ l :: rest := by
  rw [List.reverse_cons, List.append_assoc, List.singleton_append]

/-- What the search finds starts with what has been ground already. -/
theorem prefix_of_mem_instancesFrom {ls ground clause : List Literal}
    (h : clause ∈ (instancesFrom r ruleText equalities ls b ground).1) :
    ground.reverse <+: clause := by
  induction ls generalizing b ground with
  | nil => exact (mem_instancesFrom_nil.mp h).2 ▸ List.prefix_rfl
  | cons l ls ih =>
    obtain ⟨c, -, hc⟩ := mem_instancesFrom_cons.mp h
    refine List.IsPrefix.trans ?_ (ih hc)
    rw [List.reverse_cons]
    exact List.prefix_append _ _

/-- What the search finds is what some substitution makes of the literals. -/
theorem exists_of_mem_instancesFrom {ls ground clause : List Literal}
    (h : clause ∈ (instancesFrom r ruleText equalities ls b ground).1) :
    ∃ t : Substitution, b.Agrees t ∧ clause = ground.reverse ++ ls.map (·.under t) := by
  induction ls generalizing b ground with
  | nil =>
    refine ⟨fun x => (b.get? x).getD "", fun x v hx => ?_, ?_⟩
    · dsimp only
      rw [hx, Option.getD_some]
    · rw [(mem_instancesFrom_nil.mp h).2, List.map_nil, List.append_nil]
  | cons l ls ih =>
    obtain ⟨c, hc, hmem⟩ := mem_instancesFrom_cons.mp h
    obtain ⟨t, hagrees, hclause⟩ := ih hmem
    obtain ⟨hagreesb, h₁, h₂⟩ :=
      Binding.value_of_unifyBoth (unifyBoth_of_mem_candidates hc) hagrees
    refine ⟨t, hagreesb, ?_⟩
    rw [hclause, reverse_cons_append, List.map_cons, Literal.under, h₁, h₂]

theorem withArgs_of_fits {l : Literal} {c : Candidate} (h : c.fits t l = true) :
    l.withArgs c.arg1 c.arg2 = l.under t := by
  obtain ⟨h₁, h₂⟩ := Candidate.fits_iff.mp h
  rw [h₁, h₂, Literal.under]

/-- An instance that starts with a literal was found through a candidate with its constants. -/
theorem fits_of_mem_instancesFrom {l : Literal} {c : Candidate} {ls ground rest : List Literal}
    (h : ground.reverse ++ l.under t :: rest ∈
      (instancesFrom r ruleText equalities ls c.binding
        (l.withArgs c.arg1 c.arg2 :: ground)).1) : c.fits t l = true := by
  have hprefix := prefix_of_mem_instancesFrom h
  rw [List.reverse_cons, List.prefix_append_right_inj] at hprefix
  obtain ⟨rest', hrest⟩ := hprefix
  have hliteral : l.withArgs c.arg1 c.arg2 = l.under t := (List.cons.inj hrest).1
  exact Candidate.fits_iff.mpr ⟨congrArg Literal.arg1 hliteral, congrArg Literal.arg2 hliteral⟩

/-- The variables met after a literal. -/
theorem follows_of_fits {l : Literal} {c : Candidate} (hb : b.Follows t seen)
    (hc : c ∈ (candidates r l b).1) (hfits : c.fits t l = true) :
    c.binding.Follows t (seen ++ l.variables) := by
  have hunify := unifyBoth_of_mem_candidates hc
  obtain ⟨h₁, h₂⟩ := Candidate.fits_iff.mp hfits
  rw [h₁, h₂] at hunify
  have hbinding := hb.unifyBoth hunify
  rwa [List.append_assoc] at hbinding

/-- The places of a literal come before those of the literals after it. -/
theorem placesFit_append {ps qs : List Place} : PlacesFit r t seen (ps ++ qs) ↔
    PlacesFit r t seen ps ∧
      PlacesFit r t (seen ++ ps.flatMap fun p => variablesOf p.token) qs := by
  induction ps generalizing seen with
  | nil => simp [PlacesFit]
  | cons p ps ih => simp [PlacesFit, ih, and_assoc]

theorem flatMap_variablesOf_places (l : Literal) :
    ((r.places l).flatMap fun p => variablesOf p.token) = l.variables := by
  unfold Registry.places Literal.variables
  split
  · simp
  · split <;> simp

/-- **The search finds what fits**, as often as it is repeated. -/
theorem count_instancesFrom (hr : r.WellFormed) {ls ground : List Literal}
    (hdeclared : ∀ l ∈ ls, (r.predicate? l.name).isSome) (hb : b.Follows t seen)
    (hfit : PlacesFit r t seen (ls.flatMap r.places)) (hallows : ∀ l ∈ ls, r.Allows (l.under t))
    (hopen : LeavesOpen t (seen ++ ls.flatMap Literal.variables) equalities) :
    (instancesFrom r ruleText equalities ls b ground).1.count
        (ground.reverse ++ ls.map (·.under t)) =
      (ls.map fun l => r.repetitions (l.under t)).prod := by
  induction ls generalizing b seen ground with
  | nil =>
    rw [List.flatMap_nil, List.append_nil] at hopen
    rw [instancesFrom, (checkEqualities_eq_open_iff hb equalities).mpr hopen]
    simp
  | cons l ls ih =>
    obtain ⟨hl, hls⟩ := List.forall_mem_cons.mp hdeclared
    obtain ⟨hallowsl, hallowsls⟩ := List.forall_mem_cons.mp hallows
    rw [List.flatMap_cons, placesFit_append, flatMap_variablesOf_places] at hfit
    rw [List.flatMap_cons, ← List.append_assoc] at hopen
    rw [List.map_cons, List.map_cons, List.prod_cons, ← countP_candidates hr hb hl hfit.1 hallowsl]
    simp only [instancesFrom]
    rw [List.flatMap_map, List.count_flatMap]
    refine sum_map_eq_countP_mul fun c hc => ?_
    rw [Function.comp_apply]
    split
    · next hfits =>
      rw [withArgs_of_fits hfits, ← reverse_cons_append]
      exact ih hls (follows_of_fits hb hc hfits) hfit.2 hallowsls hopen
    · next hfits => exact List.count_eq_zero.mpr fun hmem => hfits (fits_of_mem_instancesFrom hmem)

/-- **What the search finds fits.** -/
theorem placesFit_of_mem_instancesFrom {ls ground : List Literal} (hb : b.Follows t seen)
    (h : ground.reverse ++ ls.map (·.under t) ∈
      (instancesFrom r ruleText equalities ls b ground).1) :
    PlacesFit r t seen (ls.flatMap r.places) ∧ (∀ l ∈ ls, r.Allows (l.under t)) ∧
      LeavesOpen t (seen ++ ls.flatMap Literal.variables) equalities := by
  induction ls generalizing b seen ground with
  | nil =>
    simp only [List.flatMap_nil, List.append_nil]
    exact ⟨trivial, List.forall_mem_nil _,
      (checkEqualities_eq_open_iff hb equalities).mp (mem_instancesFrom_nil.mp h).1⟩
  | cons l ls ih =>
    obtain ⟨c, hc, hmem⟩ := mem_instancesFrom_cons.mp h
    rw [List.map_cons] at hmem
    have hfits := fits_of_mem_instancesFrom hmem
    obtain ⟨hfitl, hallowsl⟩ := placesFit_of_mem_candidates hb hc hfits
    rw [withArgs_of_fits hfits, ← reverse_cons_append] at hmem
    obtain ⟨hfitls, hallowsls, hopen⟩ := ih (follows_of_fits hb hc hfits) hmem
    rw [List.flatMap_cons, placesFit_append, flatMap_variablesOf_places, List.flatMap_cons,
      ← List.append_assoc]
    exact ⟨⟨hfitl, hfitls⟩, List.forall_mem_cons.mpr ⟨hallowsl, hallowsls⟩, hopen⟩

end Search

/-! ### Substitutions that ground a rule -/

/-- The literals of a rule that are no equalities, in order. -/
def Rule.relational (rule : Rule α) : List Literal :=
  rule.literals.filter fun l => !l.isEquality

/-- The equalities of a rule, in order. -/
def Rule.equalities (rule : Rule α) : List Literal :=
  rule.literals.filter (·.isEquality)

/-- What a substitution makes of a rule, the equalities left out. -/
def Rule.groundClause (rule : Rule α) (t : Substitution) : List Literal :=
  rule.relational.map (·.under t)

/-- A substitution grounds a rule. -/
structure Grounds (r : Registry α) (rule : Rule α) (t : Substitution) : Prop where
  /-- Different variables get different constants. -/
  injOn : Set.InjOn t {x | x ∈ rule.variables}
  /-- There is true evidence for the instance of every closed literal. -/
  evidence : ∀ l ∈ rule.relational, r.isClosed l.name = true → (l.under t).asTrue ∈ r.evidence
  /-- The constants of every open literal may be paired. -/
  paired : ∀ l ∈ rule.relational, r.isClosed l.name = false →
    r.mayPair (t.value l.arg1) (t.value l.arg2) = true
  /-- A variable first mentioned in an open literal gets a constant of the type of that place. -/
  typed : ∀ x ∈ rule.variables, ∀ type,
    (rule.relational.flatMap r.places).find? (·.token == x) = some ⟨x, some type⟩ →
      t x ∈ r.domains.get type
  /-- The variables of an equality are mentioned in other literals. -/
  mentioned : ∀ l ∈ rule.equalities, ∀ x ∈ l.variables, ∃ k ∈ rule.relational, x ∈ k.variables
  /-- No equality is true. -/
  unequal : ∀ l ∈ rule.equalities, (l.under t).equalityHolds = false

/-- A token is fresh when what has been met and it get different constants. -/
theorem fresh_iff (hseen : Set.InjOn t {x | x ∈ seen}) (token : String) :
    t.Fresh seen token ↔ Set.InjOn t {x | x ∈ seen ++ variablesOf token} := by
  constructor
  · intro hfresh
    have hnew : ∀ x ∈ seen, ∀ y ∈ variablesOf token, t x = t y → x = y := by
      intro x hx y hy hxy
      by_cases hyseen : y ∈ seen
      · exact hseen hx hyseen hxy
      · exact absurd hxy (hfresh y hy hyseen x hx)
    intro x hx y hy hxy
    rcases List.mem_append.mp hx with hx | hx
    · rcases List.mem_append.mp hy with hy | hy
      · exact hseen hx hy hxy
      · exact hnew x hx y hy hxy
    · rcases List.mem_append.mp hy with hy | hy
      · exact (hnew y hy x hx hxy.symm).symm
      · rw [(mem_variablesOf.mp hx).2, (mem_variablesOf.mp hy).2]
  · intro hinj x hx hnot y hy hxy
    have heq := hinj (List.mem_append_left _ hy) (List.mem_append_right _ hx) hxy
    exact hnot (heq ▸ hy)

/-- The first place with a token. -/
theorem find?_place (p : Place) (ps : List Place) (x : String) :
    (p :: ps).find? (·.token == x) =
      if p.token = x then some p else ps.find? (·.token == x) := by
  rw [List.find?_cons]
  by_cases h : p.token = x
  · simp [h]
  · rw [beq_false_of_ne h, if_neg h]

/-- **What fits place by place fits as a whole**: different variables get different constants, and
those of a type where the place that mentions them first has one. -/
theorem placesFit_iff {ps : List Place} (hseen : Set.InjOn t {x | x ∈ seen}) :
    PlacesFit r t seen ps ↔
      Set.InjOn t {x | x ∈ seen ++ ps.flatMap fun p => variablesOf p.token} ∧
        ∀ x ∉ seen, isConstant x = false → ∀ type,
          ps.find? (·.token == x) = some ⟨x, some type⟩ → t x ∈ r.domains.get type := by
  induction ps generalizing seen with
  | nil => simpa [PlacesFit] using hseen
  | cons p ps ih =>
    -- this place does not mention what is left to later ones
    have hne : ∀ x ∉ seen ++ variablesOf p.token, isConstant x = false → p.token ≠ x := by
      rintro x hx hvariable rfl
      exact hx (List.mem_append_right _ (mem_variablesOf.mpr ⟨hvariable, rfl⟩))
    rw [PlacesFit, fresh_iff hseen, List.flatMap_cons, ← List.append_assoc]
    constructor
    · rintro ⟨hinj, htyped, hrest⟩
      obtain ⟨hall, hfirst⟩ := (ih hinj).mp hrest
      refine ⟨hall, fun x hx hvariable type hfind => ?_⟩
      rw [find?_place] at hfind
      by_cases hp : p.token = x
      · rw [if_pos hp, Option.some.injEq] at hfind
        exact htyped x (mem_variablesOf.mpr ⟨hp.symm ▸ hvariable, hp.symm⟩) hx type
          (congrArg Place.type? hfind)
      · rw [if_neg hp] at hfind
        refine hfirst x (fun h => ?_) hvariable type hfind
        rcases List.mem_append.mp h with h | h
        · exact hx h
        · exact hp (mem_variablesOf.mp h).2.symm
    · rintro ⟨hall, hfirst⟩
      have hinj : Set.InjOn t {x | x ∈ seen ++ variablesOf p.token} :=
        hall.mono fun x hx => List.mem_append_left _ hx
      refine ⟨hinj, fun x hx hnot type htype => ?_, (ih hinj).mpr
        ⟨hall, fun x hx hvariable type hfind => ?_⟩⟩
      · obtain ⟨hvariable, rfl⟩ := mem_variablesOf.mp hx
        refine hfirst p.token hnot hvariable type ?_
        rw [find?_place, if_pos rfl, ← htype]
      · refine hfirst x (fun h => hx (List.mem_append_left _ h)) hvariable type ?_
        rw [find?_place, if_neg (hne x hx hvariable)]
        exact hfind

section Rule

variable {rule : Rule α}

theorem mem_variables_iff {x : String} : x ∈ rule.variables ↔
    x ∈ rule.relational.flatMap Literal.variables ∨
      x ∈ rule.equalities.flatMap Literal.variables := by
  unfold Rule.variables Rule.relational Rule.equalities
  simp only [List.mem_flatMap, List.mem_filter]
  constructor
  · rintro ⟨l, hl, hx⟩
    cases hequality : l.isEquality with
    | true => exact .inr ⟨l, ⟨hl, hequality⟩, hx⟩
    | false => exact .inl ⟨l, ⟨hl, by rw [hequality]; rfl⟩, hx⟩
  · rintro (⟨l, ⟨hl, -⟩, hx⟩ | ⟨l, ⟨hl, -⟩, hx⟩)
    · exact ⟨l, hl, hx⟩
    · exact ⟨l, hl, hx⟩

theorem isConstant_of_mem_variables {x : String} {l : Literal} (h : x ∈ l.variables) :
    isConstant x = false := by
  rcases List.mem_append.mp h with h | h
  · obtain ⟨hvariable, rfl⟩ := mem_variablesOf.mp h
    exact hvariable
  · obtain ⟨hvariable, rfl⟩ := mem_variablesOf.mp h
    exact hvariable

/-- Where the variables of equalities are mentioned elsewhere, the others are all there are. -/
theorem Grounds.mem_relational (h : Grounds r rule t) {x : String} (hx : x ∈ rule.variables) :
    x ∈ rule.relational.flatMap Literal.variables := by
  rcases mem_variables_iff.mp hx with hx | hx
  · exact hx
  · obtain ⟨l, hl, hx⟩ := List.mem_flatMap.mp hx
    obtain ⟨k, hk, hx⟩ := h.mentioned l hl x hx
    exact List.mem_flatMap.mpr ⟨k, hk, hx⟩

/-- A substitution grounds a rule when it fits and leaves the clause open. -/
theorem grounds_iff : Grounds r rule t ↔
    PlacesFit r t [] (rule.relational.flatMap r.places) ∧
      (∀ l ∈ rule.relational, r.Allows (l.under t)) ∧
        LeavesOpen t (rule.relational.flatMap Literal.variables) rule.equalities := by
  have hplaces : (rule.relational.flatMap r.places).flatMap (fun p => variablesOf p.token) =
      rule.relational.flatMap Literal.variables := by
    rw [List.flatMap_assoc]
    exact List.flatMap_congr fun l _ => flatMap_variablesOf_places l
  have hempty : Set.InjOn t {x | x ∈ ([] : List String)} := by
    intro x hx
    cases hx
  rw [placesFit_iff hempty, hplaces, List.nil_append]
  constructor
  · intro h
    refine ⟨⟨?_, fun x _ hvariable type hfind => ?_⟩, fun l hl => ?_, fun l hl => ⟨fun x hx => ?_,
      h.unequal l hl⟩⟩
    · exact h.injOn.mono fun x hx => mem_variables_iff.mpr (.inl hx)
    · refine h.typed x (mem_variables_iff.mpr (.inl ?_)) type hfind
      rw [← hplaces]
      exact List.mem_flatMap.mpr ⟨_, List.mem_of_find?_eq_some hfind,
        mem_variablesOf.mpr ⟨hvariable, rfl⟩⟩
    · exact Registry.allows_iff.mpr ⟨h.evidence l hl, h.paired l hl⟩
    · exact h.mem_relational (mem_variables_iff.mpr (.inr (List.mem_flatMap.mpr ⟨l, hl, hx⟩)))
  · rintro ⟨⟨hinj, hfirst⟩, hallows, hopen⟩
    -- equalities mention no variables of their own
    have hrelational : ∀ x ∈ rule.variables, x ∈ rule.relational.flatMap Literal.variables := by
      intro x hx
      rcases mem_variables_iff.mp hx with hx | hx
      · exact hx
      · obtain ⟨l, hl, hx⟩ := List.mem_flatMap.mp hx
        exact (hopen l hl).1 x hx
    refine ⟨hinj.mono hrelational, fun l hl => (Registry.allows_iff.mp (hallows l hl)).1,
      fun l hl => (Registry.allows_iff.mp (hallows l hl)).2, fun x hx type hfind => ?_,
      fun l hl x hx => ?_, fun l hl => (hopen l hl).2⟩
    · obtain ⟨l, -, hxl⟩ := List.mem_flatMap.mp (hrelational x hx)
      exact hfirst x (List.not_mem_nil) (isConstant_of_mem_variables hxl) type hfind
    · exact List.mem_flatMap.mp ((hopen l hl).1 x hx)

/-- How often the instance that a substitution makes of a rule is found. -/
def Registry.timesFound (r : Registry α) (rule : Rule α) (t : Substitution) : Nat :=
  (rule.relational.map fun l => r.repetitions (l.under t)).prod

/-- An instance that the registry allows is found. -/
theorem Registry.repetitions_pos {l : Literal} (h : r.Allows l) : 0 < r.repetitions l := by
  unfold Registry.repetitions
  split
  · next hclosed => exact List.count_pos_iff.mpr ((Registry.allows_iff.mp h).1 hclosed)
  · exact Nat.one_pos

theorem Grounds.timesFound_pos (h : Grounds r rule t) : 0 < r.timesFound rule t := by
  refine List.prod_pos_iff_forall_pos_nat.mpr fun n hn => ?_
  obtain ⟨l, hl, rfl⟩ := List.mem_map.mp hn
  exact Registry.repetitions_pos ((grounds_iff.mp h).2.1 l hl)

/-- Where no evidence is repeated, every instance is found once. -/
theorem Grounds.timesFound_eq_one (h : Grounds r rule t) (hnodup : r.evidence.Nodup) :
    r.timesFound rule t = 1 := by
  refine List.prod_eq_one fun n hn => ?_
  obtain ⟨l, hl, rfl⟩ := List.mem_map.mp hn
  unfold Registry.repetitions
  split
  · next hclosed => exact List.count_eq_one_of_mem hnodup (h.evidence l hl hclosed)
  · rfl

/-- Different substitutions make different instances. -/
theorem Grounds.eq_of_groundClause_eq (h : Grounds r rule t) {t' : Substitution}
    (heq : rule.groundClause t = rule.groundClause t') {x : String} (hx : x ∈ rule.variables) :
    t x = t' x := by
  obtain ⟨l, hl, hx⟩ := List.mem_flatMap.mp (h.mem_relational hx)
  have hunder : l.under t = l.under t' := List.map_inj_left.mp heq l hl
  rcases List.mem_append.mp hx with hx | hx
  · have harg : t.value l.arg1 = t'.value l.arg1 := congrArg Literal.arg1 hunder
    rwa [Substitution.value_eq hx, Substitution.value_eq hx] at harg
  · have harg : t.value l.arg2 = t'.value l.arg2 := congrArg Literal.arg2 hunder
    rwa [Substitution.value_eq hx, Substitution.value_eq hx] at harg

/-- The heads of a clause are those of the rule. -/
theorem filter_groundClause {rule : Rule α} (t : Substitution) :
    (rule.groundClause t).filter (·.truth) = rule.heads.map (·.under t) := by
  unfold Rule.groundClause Rule.relational Rule.heads
  rw [List.filter_map, List.filter_filter]
  rfl

variable [Scalar α] [Numeral α]

theorem instances_eq (hheads : rule.heads.length = 1) : instances r rule =
    instancesFrom r rule.text rule.equalities rule.relational [] [] := by
  unfold instances
  rw [if_pos hheads]
  rfl

/-- **The instances of a rule are found as often as they are repeated.** -/
theorem count_instances (hr : r.WellFormed) (hrule : rule ∈ r.rules)
    (hheads : rule.heads.length = 1) (h : Grounds r rule t) :
    (instances r rule).1.count (rule.groundClause t) = r.timesFound rule t := by
  obtain ⟨hfit, hallows, hopen⟩ := grounds_iff.mp h
  have hdeclared : ∀ l ∈ rule.relational, (r.predicate? l.name).isSome := by
    intro l hl
    obtain ⟨hl, hequality⟩ := List.mem_filter.mp hl
    exact hr.declares rule hrule l hl (by simpa using hequality)
  have hcount : (instancesFrom r rule.text rule.equalities rule.relational [] []).1.count
      (List.reverse [] ++ rule.relational.map (·.under t)) = _ :=
    count_instancesFrom hr hdeclared (Binding.follows_nil t) hfit hallows hopen
  rw [instances_eq hheads]
  exact hcount

/-- **The instances of a rule are those of the substitutions that ground it.** -/
theorem mem_instances_iff (hr : r.WellFormed) (hrule : rule ∈ r.rules)
    (hheads : rule.heads.length = 1) {clause : List Literal} :
    clause ∈ (instances r rule).1 ↔ ∃ t, Grounds r rule t ∧ clause = rule.groundClause t := by
  constructor
  · intro h
    rw [instances_eq hheads] at h
    obtain ⟨t, -, hclause⟩ := exists_of_mem_instancesFrom h
    rw [hclause] at h
    exact ⟨t, grounds_iff.mpr (placesFit_of_mem_instancesFrom (Binding.follows_nil t) h), hclause⟩
  · rintro ⟨t, h, rfl⟩
    rw [← List.count_pos_iff, count_instances hr hrule hheads h]
    exact h.timesFound_pos

end Rule

end FactNet
