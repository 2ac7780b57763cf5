import FactNet.Proofs.Grounding.Content

/-!
# What a refused registration leaves behind

A predicate, a piece of evidence and a prior are checked before anything is changed, so a registry
stays as it was if one of them is refused.  A rule is not: its constants are added literal by
literal, up to the first that has no declared predicate.  If it is refused there, the constants of
the literals before stay in the domains of their types, and nothing else has changed.  So the
registry stays as it was just if it had these constants already.

## Main definitions

* `Registry.typedConstants` — the constants of a literal, with their types.
* `Registry.FailsAt` — the first literal that has no declared predicate.
* `Domains.Kept` — what naming types and adding constants keep.
* `Registry.Untouched` — a registration that is refused leaves a registry as it was.

## Main results

* `Registry.each_addLiteralConstants` — **constants are added up to the first literal without a
  declared predicate.**
* `Registry.addConstants_eq_self_iff` — when adding constants changes nothing.
* `Registry.domains_after` — what naming types and adding constants keep, every history keeps.
* `Registry.refused_leaves` — **what is left behind, after every history.**
* `Registry.not_untouched_gossip` — a rule that is refused and makes another network.
-/

namespace FactNet

open Scalar

/-- What naming types and adding constants keep. -/
structure Domains.Kept (P : Domains → Prop) : Prop where
  declare : ∀ {d : Domains} (type : String), P d → P (d.declare type)
  add : ∀ {d : Domains} (type value : String), P d → P (d.add type value)

namespace Registry

variable {α : Type} {r : Registry α}

/-! ### Constants -/

/-- The constants of a literal, each with the type that it has by the declaration of the predicate;
an equality has no types. -/
def typedConstants (r : Registry α) (l : Literal) : List (String × String) :=
  if l.isEquality then []
  else
    match r.predicate? l.name with
    | none => []
    | some p => [(l.arg1, p.type1), (l.arg2, p.type2)].filter fun c => isConstant c.1

theorem addConstants_append (r : Registry α) (cs cs' : List (String × String)) :
    r.addConstants (cs ++ cs') = (r.addConstants cs).addConstants cs' :=
  List.foldl_append

/-- Adding constants changes no declaration, so it changes no constants with their types. -/
theorem typedConstants_addConstants (r : Registry α) (cs : List (String × String)) :
    (r.addConstants cs).typedConstants = r.typedConstants := by
  funext l
  unfold typedConstants
  rw [(AddsConstants.addConstants r cs).predicate?_eq]

/-- Adding constants changes the domains only. -/
theorem addConstants_eq (r : Registry α) (cs : List (String × String)) :
    r.addConstants cs = { r with domains := cs.foldl (fun d c => d.add c.2 c.1) r.domains } := by
  induction cs generalizing r with
  | nil => rfl
  | cons c cs ih => exact ih (r.addConstant c.2 c.1)

/-- **The constants of a type are those it had and those that are added to it.** -/
theorem mem_get_addConstants {cs : List (String × String)} {type value : String} :
    value ∈ (r.addConstants cs).domains.get type ↔
      value ∈ r.domains.get type ∨ (value, type) ∈ cs := by
  induction cs generalizing r with
  | nil => simp [addConstants]
  | cons c cs ih =>
    obtain ⟨value', type'⟩ := c
    refine (ih (r := r.addConstant type' value')).trans ?_
    rw [addConstant, Domains.mem_get_add, or_assoc, List.mem_cons, Prod.mk.injEq]

/-- **Adding constants changes nothing just if they are there.** -/
theorem addConstants_eq_self_iff (hkeyed : r.domains.Keyed) (hordered : r.domains.Ordered)
    {cs : List (String × String)} :
    r.addConstants cs = r ↔ ∀ c ∈ cs, c.1 ∈ r.domains.get c.2 := by
  constructor
  · intro heq c hc
    rw [← heq]
    exact mem_get_addConstants.2 (.inr hc)
  · intro hall
    induction cs with
    | nil => rfl
    | cons c cs ih =>
      obtain ⟨hc, hcs⟩ := List.forall_mem_cons.1 hall
      have hsame : r.addConstant c.2 c.1 = r := by
        rw [addConstant, Domains.add_eq_self hkeyed hordered hc]
      have hstep : r.addConstants (c :: cs) = (r.addConstant c.2 c.1).addConstants cs := rfl
      rw [hstep, hsame, ih hcs]

/-! ### Literal by literal -/

/-- Among some literals the first that is no equality and has no declared predicate comes after
others. -/
structure FailsAt (r : Registry α) (ls before : List Literal) (l : Literal) : Prop where
  literals : ∃ after, ls = before ++ l :: after
  declared : ∀ k ∈ before, k.isEquality = false → (r.predicate? k.name).isSome
  relational : l.isEquality = false
  undeclared : r.predicate? l.name = none

/-- The constants of a literal are added if it is an equality or its predicate is declared. -/
theorem addLiteralConstants_of_declared {l : Literal}
    (h : l.isEquality = false → (r.predicate? l.name).isSome) :
    r.addLiteralConstants l = (r.addConstants (r.typedConstants l), none) := by
  unfold addLiteralConstants typedConstants
  cases hequality : l.isEquality with
  | true => rfl
  | false =>
    obtain ⟨p, hp⟩ := Option.isSome_iff_exists.1 (h hequality)
    simp only [hp, Bool.false_eq_true, if_false, List.filter_cons, List.filter_nil]
    unfold addIfConstant
    cases isConstant l.arg1 <;> cases isConstant l.arg2 <;> rfl

/-- **Constants are added up to the first literal without a declared predicate.** -/
theorem each_addLiteralConstants (r : Registry α) (ls : List Literal) :
    each addLiteralConstants r ls = (r.addConstants (ls.flatMap r.typedConstants), none) ∨
      ∃ before l, r.FailsAt ls before l ∧ each addLiteralConstants r ls =
        (r.addConstants (before.flatMap r.typedConstants), some (.unknownPredicate l.name)) := by
  induction ls generalizing r with
  | nil => exact .inl rfl
  | cons k ls ih =>
    by_cases hdeclared : k.isEquality = false → (r.predicate? k.name).isSome
    · -- the others meet the declarations that this one has met
      have hstep : each addLiteralConstants r (k :: ls) =
          each addLiteralConstants (r.addConstants (r.typedConstants k)) ls := by
        rw [each, addLiteralConstants_of_declared hdeclared]
      have hpredicate := (AddsConstants.addConstants r (r.typedConstants k)).predicate?_eq
      rcases ih (r.addConstants (r.typedConstants k)) with hall | ⟨before, l, hfails, hends⟩
      · refine .inl ?_
        rw [hstep, hall, typedConstants_addConstants, List.flatMap_cons, addConstants_append]
      · refine .inr ⟨k :: before, l, ⟨?_, ?_, hfails.relational, ?_⟩, ?_⟩
        · obtain ⟨after, rfl⟩ := hfails.literals
          exact ⟨after, rfl⟩
        · refine List.forall_mem_cons.2 ⟨hdeclared, fun k' hk' hequality => ?_⟩
          rw [← hpredicate]
          exact hfails.declared k' hk' hequality
        · rw [← hpredicate]
          exact hfails.undeclared
        · rw [hstep, hends, typedConstants_addConstants, List.flatMap_cons, addConstants_append]
    · obtain ⟨hequality, hnone⟩ := Classical.not_imp.1 hdeclared
      rw [Option.not_isSome_iff_eq_none] at hnone
      refine .inr ⟨[], k, ⟨⟨ls, rfl⟩, List.forall_mem_nil _, hequality, hnone⟩, ?_⟩
      simp only [each, addLiteralConstants, hequality, hnone]
      rfl

/-- **A rule is refused at its first literal without a declared predicate.** -/
theorem addRule_of_refused {rule : Rule α} (h : (r.addRule rule).2 ≠ none) :
    ∃ before l, r.FailsAt rule.literals before l ∧ r.addRule rule =
      (r.addConstants (before.flatMap r.typedConstants), some (.unknownPredicate l.name)) := by
  unfold addRule addRuleConstants at h ⊢
  rcases r.each_addLiteralConstants rule.literals with hall | ⟨before, l, hfails, hends⟩
  · rw [hall] at h
    exact absurd rfl h
  · exact ⟨before, l, hfails, by rw [hends]⟩

/-! ### What every history keeps -/

section Kept

variable {P : Domains → Prop}

theorem kept_addConstants (hP : Domains.Kept P) (hr : P r.domains)
    (cs : List (String × String)) : P (r.addConstants cs).domains :=
  List.foldlRecOn cs _ (motive := fun r : Registry α => P r.domains) hr
    fun _ hr c _ => hP.add c.2 c.1 hr

theorem kept_addRuleConstants (hP : Domains.Kept P) (hr : P r.domains) (rule : Rule α) :
    P (r.addRuleConstants rule).1.domains := by
  unfold addRuleConstants
  rcases r.each_addLiteralConstants rule.literals with hall | ⟨before, l, -, hends⟩
  · rw [hall]
    exact kept_addConstants hP hr _
  · rw [hends]
    exact kept_addConstants hP hr _

theorem kept_addPredicate (hP : Domains.Kept P) (hr : P r.domains) (p : Predicate) :
    P (r.addPredicate p).1.domains := by
  unfold addPredicate
  split
  · exact hr
  · exact hP.declare _ (hP.declare _ hr)

theorem kept_addEvidence (hP : Domains.Kept P) (hr : P r.domains) (l : Literal) :
    P (r.addEvidence l).1.domains := by
  unfold addEvidence
  split
  · exact hr
  · split
    · exact hr
    · split
      · exact hr
      · exact hP.add _ _ (hP.add _ _ hr)

theorem kept_addRule (hP : Domains.Kept P) (hr : P r.domains) (rule : Rule α) :
    P (r.addRule rule).1.domains := by
  have hconstants := kept_addRuleConstants hP hr rule
  unfold addRule
  split
  · next heq => rwa [heq] at hconstants
  · next heq => rwa [heq] at hconstants

variable [Scalar α]

theorem kept_addProgramRule (hP : Domains.Kept P) (hr : P r.domains) (rule : Rule α) :
    P (r.addProgramRule rule).1.domains := by
  unfold addProgramRule
  split
  · split
    · split
      · exact hr
      · split
        · exact kept_addEvidence hP hr _
        · exact kept_addRule hP hr rule
    · exact kept_addRule hP hr rule
  · exact kept_addRule hP hr rule

variable [Numeral α]

theorem kept_addPrior (hP : Domains.Kept P) (hr : P r.domains) (rule : Rule α) :
    P (r.addPrior rule).1.domains := by
  have hconstants := kept_addRuleConstants hP hr rule
  unfold addPrior
  split
  · exact hr
  · split
    · next heq => rwa [heq] at hconstants
    · next heq => rwa [heq] at hconstants

/-- A registration keeps it, refused or not. -/
theorem kept_register (hP : Domains.Kept P) (hr : P r.domains) (registration : Registration α) :
    P (r.register registration).domains := by
  have heach : ∀ {β : Type} {f : Registry α → β → Registered α},
      (∀ r b, P r.domains → P (f r b).1.domains) → ∀ (r : Registry α) (bs : List β),
        P r.domains → P (each f r bs).1.domains := fun hf r bs hr =>
    each_induction (P := fun r => P r.domains) hf hr bs
  cases registration with
  | domain type values =>
    exact List.foldlRecOn values _ (hP.declare type hr) fun d hd v _ => hP.add type v hd
  | constants constants => exact kept_addConstants hP hr constants
  | predicates predicates => exact heach (fun _ p hr => kept_addPredicate hP hr p) r _ hr
  | evidence literals => exact heach (fun _ l hr => kept_addEvidence hP hr l) r literals hr
  | pairings pairings => exact hr
  | hillClimb b => exact hr
  | priors rules => exact heach (fun _ rule hr => kept_addPrior hP hr rule) r rules hr
  | rules rules => exact heach (fun _ rule hr => kept_addRule hP hr rule) r rules hr
  | program program =>
    have hpredicates : P (r.addPredicates program.predicates).1.domains :=
      heach (fun _ p hr => kept_addPredicate hP hr p) r _ hr
    show P (r.addProgram program).1.domains
    unfold addProgram
    split
    · next heq =>
      rw [heq] at hpredicates
      exact heach (fun _ rule hr => kept_addProgramRule hP hr rule) _ program.rules hpredicates
    · next heq => rwa [heq] at hpredicates

/-- **What naming types and adding constants keep, every history keeps.** -/
theorem kept_after (hP : Domains.Kept P) (hr : P r.domains) (history : List (Registration α)) :
    P (r.after history).domains := by
  induction history generalizing r with
  | nil => exact hr
  | cons registration history ih => exact ih (kept_register hP hr registration)

end Kept

/-! ### What is refused -/

/-- A registration that is refused leaves a registry as it was. -/
def Untouched (r : Registry α) (done : Registered α) : Prop := done.2 ≠ none → done.1 = r

theorem untouched_addPredicate (r : Registry α) (p : Predicate) :
    r.Untouched (r.addPredicate p) := by
  intro hrefused
  unfold addPredicate at hrefused ⊢
  split
  · rfl
  · next hnew => simp [hnew] at hrefused

theorem untouched_addEvidence (r : Registry α) (l : Literal) : r.Untouched (r.addEvidence l) := by
  intro hrefused
  unfold addEvidence at hrefused ⊢
  split
  · rfl
  · next p hp =>
    split
    · rfl
    · next hclosed =>
      split
      · rfl
      · next hground => simp [hp, hclosed, hground] at hrefused

variable [Scalar α] [Numeral α]

/-- A prior has one literal, and none comes before it. -/
theorem untouched_addPrior (r : Registry α) (rule : Rule α) : r.Untouched (r.addPrior rule) := by
  intro hrefused
  unfold addPrior addRuleConstants at hrefused ⊢
  split
  · rfl
  · next hunit =>
    obtain ⟨l, hl⟩ := List.length_eq_one_iff.1 (not_not.1 hunit)
    rcases r.each_addLiteralConstants rule.literals with hall | ⟨before, k, hfails, hends⟩
    · rw [if_neg hunit, hall] at hrefused
      exact absurd rfl hrefused
    · obtain ⟨after, hliterals⟩ := hfails.literals
      have hbefore : before = [] := by
        rw [hl] at hliterals
        cases before with
        | nil => rfl
        | cons k' before => cases before <;> cases hliterals
      rw [hends, hbefore]
      rfl

/-- **What a refused registration leaves behind**, after every history.

A predicate, a piece of evidence or a prior that is refused leaves the registry as it was.  A rule
is refused at its first literal without a declared predicate, and is told its name.  Then nothing
has changed but the domains, and a type has the constants it had and those that the literals before
give it.  So the registry is as it was just if it had these constants already. -/
theorem refused_leaves (method : MergeMethod) (d : α) (hillClimb : Bool) (threads : Int)
    (history : List (Registration α)) :
    let r := (fresh method d hillClimb threads).after history
    (∀ p, r.Untouched (r.addPredicate p)) ∧ (∀ l, r.Untouched (r.addEvidence l)) ∧
      (∀ rule, r.Untouched (r.addPrior rule)) ∧
      ∀ rule, (r.addRule rule).2 ≠ none → ∃ before l, r.FailsAt rule.literals before l ∧
        (r.addRule rule).2 = some (.unknownPredicate l.name) ∧
        (∃ domains, (r.addRule rule).1 = { r with domains := domains } ∧
          ∀ type value, value ∈ domains.get type ↔ value ∈ r.domains.get type ∨
            (value, type) ∈ before.flatMap r.typedConstants) ∧
        ((r.addRule rule).1 = r ↔
          ∀ c ∈ before.flatMap r.typedConstants, c.1 ∈ r.domains.get c.2) := by
  intro r
  refine ⟨r.untouched_addPredicate, r.untouched_addEvidence, r.untouched_addPrior,
    fun rule hrefused => ?_⟩
  have hkeyed : r.domains.Keyed := kept_after (r := fresh method d hillClimb threads)
    ⟨fun type h => h.declare type, fun type value h => h.add type value⟩ Domains.keyed_empty history
  have hordered : r.domains.Ordered := kept_after (r := fresh method d hillClimb threads)
    ⟨fun type h => h.declare type, fun type value h => h.add type value⟩ Domains.ordered_empty
      history
  obtain ⟨before, l, hfails, hends⟩ := addRule_of_refused hrefused
  rw [hends]
  refine ⟨before, l, hfails, rfl, ⟨_, r.addConstants_eq _, fun type value => ?_⟩,
    addConstants_eq_self_iff hkeyed hordered⟩
  have hmem : value ∈ (r.addConstants (before.flatMap r.typedConstants)).domains.get type ↔
      value ∈ r.domains.get type ∨ (value, type) ∈ before.flatMap r.typedConstants :=
    mem_get_addConstants
  rwa [addConstants_eq] at hmem

/-- Who likes whom. -/
def likes : Predicate := ⟨"likes", "Person", "Person", false⟩

/-- It is declared, and nobody is known. -/
noncomputable def likesHistory : List (Registration EReal) := [.predicates [likes]]

/-- A rule about two people, with a predicate that nobody has declared. -/
noncomputable def gossip : Rule EReal :=
  ⟨1, [⟨"likes", "Ann", "Bob", false⟩, ⟨"knows", "Ann", "Bob", true⟩]⟩

/-- Whoever is liked likes in return. -/
noncomputable def requited : Rule EReal :=
  ⟨1, [⟨"likes", "x", "y", false⟩, ⟨"likes", "y", "x", true⟩]⟩

theorem after_likesHistory : letI := unwritten
    (fresh .geometricMean ((1 / 2 : ℝ) : EReal) false 1).after likesHistory =
      { fresh .geometricMean ((1 / 2 : ℝ) : EReal) false 1 with
        predicates := [likes]
        domains := ⟨[("Person", [])]⟩ } := by
  simp [likesHistory, after, register, addPredicates]
  rfl

/-- Of four registrations that are refused the rule leaves the two people behind. -/
theorem refused_leaves_gossip : letI := unwritten
    let r := (fresh .geometricMean ((1 / 2 : ℝ) : EReal) false 1).after likesHistory
    let other : Predicate := ⟨"likes", "Person", "City", false⟩
    let l : Literal := ⟨"likes", "Ann", "Bob", true⟩
    r.addPredicate other = (r, some (.conflict likes other)) ∧
      r.addEvidence l = (r, some (.openEvidence likes)) ∧
      (r.addPrior gossip).2 ≠ none ∧ (r.addPrior gossip).1 = r ∧
      (r.addRule gossip).2 = some (.unknownPredicate "knows") ∧
      ∃ domains, (r.addRule gossip).1 = { r with domains := domains } ∧
        "Ann" ∈ domains.get "Person" ∧ "Bob" ∈ domains.get "Person" := by
  let _ := unwritten
  intro r other l
  obtain ⟨hpredicate, hevidence, hprior, hrule⟩ :=
    refused_leaves .geometricMean ((1 / 2 : ℝ) : EReal) false 1 likesHistory
  have hr : r = _ := after_likesHistory
  have hconflict : (r.addPredicate other).2 = some (.conflict likes other) := by
    rw [hr]
    rfl
  have hopen : (r.addEvidence l).2 = some (.openEvidence likes) := by
    rw [hr]
    rfl
  have hunit : (r.addPrior gossip).2 ≠ none := by
    rw [hr]
    exact Option.some_ne_none _
  have hunknown : (r.addRule gossip).2 = some (.unknownPredicate "knows") := by
    rw [hr]
    rfl
  refine ⟨Prod.ext (hpredicate other (by rw [hconflict]; simp)) hconflict,
    Prod.ext (hevidence l (by rw [hopen]; simp)) hopen, hunit, hprior gossip hunit, hunknown, ?_⟩
  -- the second literal is refused, but the people of the first one have been added
  obtain ⟨-, -, -, -, ⟨domains, heq, -⟩, -⟩ := hrule gossip (by rw [hunknown]; simp)
  have hget : (r.addRule gossip).1.domains.get "Person" = ["Ann", "Bob"] := by
    rw [hr]
    rfl
  rw [heq] at hget
  refine ⟨domains, heq, ?_, ?_⟩ <;> simp [hget]

/-- What is mentioned with the rule that is refused, and without it. -/
theorem mentioned_likes : letI := unwritten
    let r := fresh .geometricMean ((1 / 2 : ℝ) : EReal) false 1
    let one : Literal := ⟨"likes", "Ann", "Bob", true⟩
    let other : Literal := ⟨"likes", "Bob", "Ann", true⟩
    (r.after (likesHistory ++ [.rules [requited]])).mentioned = [] ∧
      (r.after (likesHistory ++ [.rules [gossip], .rules [requited]])).mentioned =
        [one, other, other, one] := by
  let _ := unwritten
  dsimp only
  rw [after_append, after_append, after_likesHistory]
  exact ⟨rfl, rfl⟩

/-- A rule that is refused is not without consequences: the people it is about become constants, and
another network is built. -/
theorem not_untouched_gossip : letI := unwritten
    let r := fresh .geometricMean ((1 / 2 : ℝ) : EReal) false 1
    let one : Literal := ⟨"likes", "Ann", "Bob", true⟩
    let other : Literal := ⟨"likes", "Bob", "Ann", true⟩
    ¬(r.after likesHistory).Untouched ((r.after likesHistory).addRule gossip) ∧
      ∃ net net' notes notes',
        (r.after (likesHistory ++ [.rules [requited]])).build = .ok (net, notes) ∧
        (r.after (likesHistory ++ [.rules [gossip], .rules [requited]])).build =
          .ok (net', notes') ∧
        net.literals.toList = [] ∧ net'.literals.toList = [one, other] := by
  let _ := unwritten
  intro r one other
  obtain ⟨hnothing, hpeople⟩ := mentioned_likes
  have hfew : (r.after (likesHistory ++ [.rules [requited]])).mentioned.length < tableCeiling := by
    rw [hnothing]
    decide
  have hfew' : (r.after (likesHistory ++ [.rules [gossip], .rules [requited]])).mentioned.length <
      tableCeiling := by
    rw [hpeople]
    decide
  obtain ⟨net, notes, hbuild⟩ := exists_build_after create_kinship (by decide) hfew
  obtain ⟨net', notes', hbuild'⟩ := exists_build_after create_kinship (by decide) hfew'
  refine ⟨fun huntouched => ?_, net, net', notes, notes', hbuild, hbuild', ?_, ?_⟩
  · rw [after_likesHistory] at huntouched
    have hsame := congrArg (fun r => r.domains.get "Person") (huntouched (Option.some_ne_none _))
    exact absurd hsame (List.cons_ne_nil "Ann" ["Bob"])
  · rw [(built_of_build hbuild).literals, literals_groundAll, hnothing]
    rfl
  · rw [(built_of_build hbuild').literals, literals_groundAll, hpeople]
    rfl

end Registry

end FactNet
