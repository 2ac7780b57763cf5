import FactNet.Program.Draft
import FactNet.Proofs.Naming
import FactNet.Proofs.Program.RoundTrip

/-!
# A drafted program and its text

Drafting takes any names, and a program with odd ones has a text that reads as another program or
as none.  A plain name has letters, digits and underscores and does not start with a digit: nothing
in it ends a line, a clause, a name or an argument.  So a line that is written with plain names is
what it was written for, provided that no argument is the lone letter `v`, which stands between
disjuncts.

What a row of steps drafts is known step by step.  A step puts its predicates and its rules behind
those that are there, and one that is refused puts none, so that the drafted program has the rules
of the steps in their order, whatever was drafted before.

## Main definitions

* `IsPlainName`, `Predicate.IsPlain`, `Literal.IsPlain` — what is written with plain names.
* `DraftStep`, `Draft.next`, `Draft.ofSteps` — steps of drafting, and what a row of them drafts.

## Main results

* `Predicate.IsPlain.isDeclared`, `Literal.IsPlain.isReadable`, `isRoundTrip_of_isPlain` — the parts
  of a program that is written with plain names read back.
* `Draft.next_spec`, `Draft.ofSteps_spec` — what a step and a row of steps add to a draft.
* `Draft.readProgram_finish` — **a program that is drafted with plain names is what its own text
  reads as.**
-/

namespace FactNet

open FactNet.Text FactNet.Program

/-! ### Plain names -/

/-- A name of letters, digits and underscores that does not start with a digit. -/
structure IsPlainName (s : String) : Prop where
  /-- There is something in it. -/
  ne_nil : s.toList ≠ []
  /-- It does not start with a digit. -/
  first : ∀ c ∈ s.toList.head?, c.isDigit = false
  /-- It has no other characters. -/
  word : IsWord s

theorem isPlainName_iff {s : String} : IsPlainName s ↔
    (!s.toList.isEmpty && s.toList.head?.all (fun c => !c.isDigit) && s.toList.all isWordChar)
      = true := by
  simp only [Bool.and_eq_true, Bool.not_eq_true', List.isEmpty_eq_false_iff, Option.all_eq_true,
    List.all_eq_true]
  exact ⟨fun h => ⟨⟨h.ne_nil, h.first⟩, h.word⟩, fun h => ⟨h.1.1, h.1.2, h.2⟩⟩

instance (s : String) : Decidable (IsPlainName s) :=
  decidable_of_iff _ isPlainName_iff.symm

namespace IsPlainName

variable {s : String}

theorem ne (h : IsPlainName s) {c d : Char} (hc : c ∈ s.toList) (hd : isWordChar d = false) :
    c ≠ d := by
  rintro rfl
  exact absurd (h.word c hc) (by simp [hd])

theorem notMem (h : IsPlainName s) {c : Char} (hc : isWordChar c = false) : c ∉ s.toList :=
  fun hmem => h.ne hmem hc rfl

theorem not_isBlank (h : IsPlainName s) : ∀ c ∈ s.toList, isBlank c = false :=
  fun c hc => not_isBlank_of_isWordChar (h.word c hc)

theorem trim_eq (h : IsPlainName s) : trim s.toList = s.toList :=
  trim_eq_self_iff.2 ⟨fun c hc => h.not_isBlank c (List.mem_of_mem_head? hc),
    fun c hc => h.not_isBlank c (List.mem_of_getLast? hc)⟩

theorem avoids (h : IsPlainName s) : Avoids clausePieces s.toList := by
  refine avoids_of_notMem fun p hp => ?_
  have hother : ∀ p ∈ clausePieces, ∃ c ∈ p, isWordChar c = false := by
    simp [clausePieces, linePieces, isWordChar]
  obtain ⟨c, hc, hword⟩ := hother p hp
  exact ⟨c, hc, h.notMem hword⟩

/-- No line or clause is cut in a plain name. -/
theorem isPart (h : IsPlainName s) : IsPart s.toList :=
  ⟨h.avoids, (noLoneV_concat_blank h.not_isBlank ' ').of_isInfix (List.prefix_append _ _).isInfix⟩

/-- A plain name reads as an argument. -/
theorem isArgument (h : IsPlainName s) : IsArgument s.toList := by
  obtain ⟨c, cs, hcs⟩ := List.exists_cons_of_ne_nil h.ne_nil
  have htrim := h.trim_eq
  rw [hcs] at htrim
  rw [IsArgument, argument?, hcs, htrim]

/-- A plain name starts as the name of a predicate does. -/
theorem isNameStart (h : IsPlainName s) {c : Char} {cs : List Char} (hcs : s.toList = c :: cs) :
    isNameStart c = true := by
  have hmem : c ∈ s.toList := by rw [hcs]; exact List.mem_cons_self
  have hmarks : c ≠ '-' ∧ c ≠ '*' ∧ c ≠ '!' ∧ c ≠ '.' ∧ c ≠ '(' :=
    ⟨h.ne hmem (by decide), h.ne hmem (by decide), h.ne hmem (by decide), h.ne hmem (by decide),
      h.ne hmem (by decide)⟩
  simp [Program.isNameStart, h.not_isBlank c hmem, h.first c (by simp [hcs]), hmarks]

/-- A plain name may stand on either side of an equality. -/
theorem isSide (h : IsPlainName s) :
    ∀ c ∈ s.toList, isLeftChar c = true ∧ isRightChar c = true := by
  intro c hc
  have hmarks : c ≠ ',' ∧ c ≠ '=' ∧ c ≠ '!' ∧ c ≠ '.' :=
    ⟨h.ne hc (by decide), h.ne hc (by decide), h.ne hc (by decide), h.ne hc (by decide)⟩
  simp [isLeftChar, isRightChar, h.not_isBlank c hc, hmarks]

end IsPlainName

/-! ### Declarations -/

/-- A predicate is declared with plain names. -/
structure Predicate.IsPlain (p : Predicate) : Prop where
  /-- The name is plain. -/
  name : IsPlainName p.name
  /-- The first type is plain. -/
  type1 : IsPlainName p.type1
  /-- The second type is plain. -/
  type2 : IsPlainName p.type2

instance (p : Predicate) : Decidable p.IsPlain :=
  decidable_of_iff (IsPlainName p.name ∧ IsPlainName p.type1 ∧ IsPlainName p.type2)
    ⟨fun h => ⟨h.1, h.2.1, h.2.2⟩, fun h => ⟨h.name, h.type1, h.type2⟩⟩

/-- **The declaration of a predicate with plain names reads back.** -/
theorem Predicate.IsPlain.isDeclared {p : Predicate} (h : p.IsPlain) : IsDeclared p := by
  obtain ⟨c, n, hname⟩ := List.exists_cons_of_ne_nil h.name.ne_nil
  have hblank : n.any isBlank = false := List.any_eq_false.2 fun d hd => by
    simp [h.name.not_isBlank d (by rw [hname]; exact List.mem_cons_of_mem _ hd)]
  have hline : ∀ {s : String}, IsPlainName s → Avoids linePieces s.toList :=
    fun hs q hq => hs.avoids q (List.mem_cons_of_mem _ hq)
  exact ⟨⟨c, n, hname, h.name.isNameStart hname, hblank, hname ▸ h.name.notMem (by decide)⟩,
    h.type1.isArgument, h.type1.notMem (by decide), h.type2.isArgument, h.type2.notMem (by decide),
    avoids_predicate_text (hline h.name) (hline h.type1) (hline h.type2)⟩

/-! ### Clauses -/

/-- A literal is written with plain names: it is an equality or has a plain name, and its arguments
are plain and not the lone letter `v`. -/
structure Literal.IsPlain (l : Literal) : Prop where
  /-- The name is that of the equality or plain. -/
  name : l.name = equalsName ∨ IsPlainName l.name
  /-- The first argument is plain. -/
  arg1 : IsPlainName l.arg1
  /-- The first argument is not the sign between disjuncts. -/
  arg1_ne : l.arg1 ≠ "v"
  /-- The second argument is plain. -/
  arg2 : IsPlainName l.arg2
  /-- The second argument is not the sign between disjuncts. -/
  arg2_ne : l.arg2 ≠ "v"

instance (l : Literal) : Decidable l.IsPlain :=
  decidable_of_iff ((l.name = equalsName ∨ IsPlainName l.name) ∧ IsPlainName l.arg1 ∧
      l.arg1 ≠ "v" ∧ IsPlainName l.arg2 ∧ l.arg2 ≠ "v")
    ⟨fun h => ⟨h.1, h.2.1, h.2.2.1, h.2.2.2.1, h.2.2.2.2⟩,
      fun h => ⟨h.name, h.arg1, h.arg1_ne, h.arg2, h.arg2_ne⟩⟩

namespace Literal.IsPlain

variable {l : Literal}

/-- An atom with plain names has parts that read back. -/
theorem isAtom (h : l.IsPlain) (hname : IsPlainName l.name) : IsAtom l where
  name_trim := hname.trim_eq
  name_paren := hname.notMem (by decide)
  name_ne _ := hname.ne_nil
  name_sign _ rest hrest := absurd (by rw [hrest]; exact List.mem_cons_self)
    (hname.notMem (c := '!') (by decide))
  arg1 := h.arg1.isArgument
  arg1_comma := h.arg1.notMem (by decide)
  arg2 := h.arg2.isArgument
  arg2_paren := h.arg2.notMem (by decide)

/-- An equality of plain names has parts that read back. -/
theorem isEquation (h : l.IsPlain) (hname : l.name = equalsName) : IsEquation l where
  name := hname
  left_ne := h.arg1.ne_nil
  left c hc := (h.arg1.isSide c hc).1
  right_ne := h.arg2.ne_nil
  right c hc := (h.arg2.isSide c hc).2

/-- **A literal with plain names is as reading gives it.** -/
theorem isReadable (h : l.IsPlain) : IsReadable l := by
  rcases h.name with hname | hname
  · exact ⟨.inr (h.isEquation hname), hname ▸ isPart_equalsName, h.arg1.isPart, h.arg2.isPart⟩
  · exact ⟨.inl (h.isAtom hname), hname.isPart, h.arg1.isPart, h.arg2.isPart⟩

theorem isWritable (h : l.IsPlain) : l.IsWritable := by
  unfold Literal.IsWritable
  split
  · exact ⟨fun c hc => (h.arg1.isSide c hc).1, fun c hc => (h.arg2.isSide c hc).2⟩
  · next heq =>
    have hname := h.name.resolve_left fun hname => heq (by simp [isEquality, hname])
    intro hnil
    exact hname.ne_nil (by simp [hnil])

end Literal.IsPlain

/-- **A rule with plain names reads back**, if it has a literal. -/
theorem isRoundTrip_of_isPlain {α : Type} {r : Rule α} (hne : r.literals ≠ [])
    (h : ∀ l ∈ r.literals, l.IsPlain) : IsRoundTrip r :=
  ⟨hne, fun l hl => (h l hl).isReadable, fun l hl => (h l hl).isWritable,
    fun l hl hv => (h l (List.dropLast_subset _ hl)).arg2_ne hv.2⟩

/-! ### Steps -/

/-- A step of drafting. -/
inductive DraftStep (α : Type) where
  /-- A type is named. -/
  | domain (type : String)
  /-- A constant is added to a type. -/
  | constant (type value : String)
  /-- A predicate is declared. -/
  | predicate (p : Predicate)
  /-- A clause ends with its weight. -/
  | clause (weight : α) (literals : List Literal)
  /-- A rule is added as it is. -/
  | rule (r : Rule α)
  /-- Literals hold for certain. -/
  | evidence (literals : List Literal)
  /-- Literals are likely. -/
  | priors (weight : α) (literals : List Literal)

namespace DraftStep

variable {α : Type} [Scalar α]

/-- The draft that a step leads to. -/
def apply (d : Draft α) : DraftStep α → Except DraftError (Draft α)
  | domain type => .ok (d.declareDomain type)
  | constant type value => d.addConstant type value
  | predicate p => .ok (d.addPredicate p)
  | clause weight literals => d.addClause weight literals
  | rule r => .ok (d.addRule r)
  | evidence literals => .ok (d.addEvidence literals)
  | priors weight literals => .ok (d.addPriors weight literals)

omit [Scalar α] in
/-- The predicates that a step declares. -/
def predicates : DraftStep α → List Predicate
  | predicate p => [p]
  | _ => []

/-- The rules that a step adds. -/
def rules : DraftStep α → List (Rule α)
  | clause weight literals => if literals = [] then [] else [⟨weight, literals⟩]
  | rule r => [r]
  | evidence literals => literals.map fun l => ⟨Scalar.top, [l]⟩
  | priors weight literals => literals.map fun l => ⟨weight, [l]⟩
  | _ => []

omit [Scalar α] in
/-- The weights that a step is given. -/
def weights : DraftStep α → List α
  | clause weight _ => [weight]
  | rule r => [r.weight]
  | priors weight _ => [weight]
  | _ => []

omit [Scalar α] in
/-- A step is made with plain names, and a rule that is added as it is has a literal. -/
def IsPlain : DraftStep α → Prop
  | predicate p => p.IsPlain
  | clause _ literals => ∀ l ∈ literals, l.IsPlain
  | rule r => r.literals ≠ [] ∧ ∀ l ∈ r.literals, l.IsPlain
  | evidence literals => ∀ l ∈ literals, l.IsPlain
  | priors _ literals => ∀ l ∈ literals, l.IsPlain
  | _ => True

omit [Scalar α] in
instance decidableIsPlain : (s : DraftStep α) → Decidable s.IsPlain
  | predicate p => inferInstanceAs (Decidable p.IsPlain)
  | clause _ literals => inferInstanceAs (Decidable (∀ l ∈ literals, l.IsPlain))
  | rule r => inferInstanceAs (Decidable (r.literals ≠ [] ∧ ∀ l ∈ r.literals, l.IsPlain))
  | evidence literals => inferInstanceAs (Decidable (∀ l ∈ literals, l.IsPlain))
  | priors _ literals => inferInstanceAs (Decidable (∀ l ∈ literals, l.IsPlain))
  | domain _ => inferInstanceAs (Decidable True)
  | constant _ _ => inferInstanceAs (Decidable True)

/-- A rule of a step with plain names reads back, and it is certain or has a weight that the step is
given. -/
theorem IsPlain.of_mem_rules {s : DraftStep α} (h : s.IsPlain) {r : Rule α} (hr : r ∈ s.rules) :
    IsRoundTrip r ∧ (r.weight = Scalar.top ∨ r.weight ∈ s.weights) := by
  have hunit : ∀ {weight : α} {literals : List Literal}, (∀ l ∈ literals, l.IsPlain) →
      r ∈ literals.map (fun l => (⟨weight, [l]⟩ : Rule α)) → IsRoundTrip r ∧ r.weight = weight := by
    intro weight literals hall hmem
    obtain ⟨l, hl, rfl⟩ := List.mem_map.1 hmem
    exact ⟨isRoundTrip_of_isPlain (by simp) (by simpa using hall l hl), rfl⟩
  cases s with
  | domain _ | constant _ _ | predicate _ => cases hr
  | clause weight literals =>
    by_cases hnil : literals = []
    · simp [rules, hnil] at hr
    · obtain rfl : r = ⟨weight, literals⟩ := by simpa [rules, hnil] using hr
      exact ⟨isRoundTrip_of_isPlain hnil h, .inr List.mem_cons_self⟩
  | rule r' =>
    obtain rfl := List.mem_singleton.1 hr
    exact ⟨isRoundTrip_of_isPlain h.1 h.2, .inr List.mem_cons_self⟩
  | evidence literals => exact (hunit h hr).imp_right .inl
  | priors weight literals =>
    exact (hunit h hr).imp_right fun hweight => .inr (List.mem_singleton.2 hweight)

end DraftStep

namespace Draft

section Steps

variable {α : Type}

theorem addPriors_eq (d : Draft α) (weight : α) (literals : List Literal) :
    d.addPriors weight literals =
      { d with rules := d.rules ++ literals.map fun l => ⟨weight, [l]⟩ } := by
  induction literals generalizing d with
  | nil => simp [addPriors]
  | cons l ls ih =>
    have hcons : d.addPriors weight (l :: ls) = (d.addRule ⟨weight, [l]⟩).addPriors weight ls := rfl
    rw [hcons, ih]
    simp [addRule]

variable [Scalar α]

/-- The draft after a step; a step that is refused leaves it as it is. -/
def next (d : Draft α) (s : DraftStep α) : Draft α :=
  (s.apply d).toOption.getD d

/-- What a row of steps drafts. -/
def ofSteps (steps : List (DraftStep α)) : Draft α :=
  steps.foldl next {}

/-- **A step** puts its predicates and its rules behind those of the draft. -/
theorem next_spec (d : Draft α) (s : DraftStep α) :
    (d.next s).predicates = d.predicates ++ s.predicates ∧
      (d.next s).rules = d.rules ++ s.rules := by
  cases s with
  | domain type => simp [next, DraftStep.apply, Except.toOption, declareDomain,
      DraftStep.predicates, DraftStep.rules]
  | constant type value =>
    simp only [next, DraftStep.apply, addConstant]
    split <;> simp [Except.toOption, DraftStep.predicates, DraftStep.rules]
  | predicate p => simp [next, DraftStep.apply, Except.toOption, addPredicate,
      DraftStep.predicates, DraftStep.rules]
  | clause weight literals =>
    cases literals <;> simp [next, DraftStep.apply, addClause, Except.toOption, addRule,
      DraftStep.predicates, DraftStep.rules]
  | rule r => simp [next, DraftStep.apply, Except.toOption, addRule, DraftStep.predicates,
      DraftStep.rules]
  | evidence literals => simp [next, DraftStep.apply, Except.toOption, addEvidence, addPriors_eq,
      DraftStep.predicates, DraftStep.rules]
  | priors weight literals => simp [next, DraftStep.apply, Except.toOption, addPriors_eq,
      DraftStep.predicates, DraftStep.rules]

/-- **A row of steps** drafts their predicates and their rules, in their order. -/
theorem ofSteps_spec (steps : List (DraftStep α)) :
    (ofSteps steps).predicates = steps.flatMap DraftStep.predicates ∧
      (ofSteps steps).rules = steps.flatMap DraftStep.rules := by
  have hfold : ∀ d : Draft α,
      (steps.foldl next d).predicates = d.predicates ++ steps.flatMap DraftStep.predicates ∧
        (steps.foldl next d).rules = d.rules ++ steps.flatMap DraftStep.rules := by
    induction steps with
    | nil => simp
    | cons s steps ih =>
      intro d
      obtain ⟨hpredicates, hrules⟩ := next_spec d s
      obtain ⟨ihpredicates, ihrules⟩ := ih (d.next s)
      rw [List.foldl_cons, ihpredicates, ihrules, hpredicates, hrules]
      simp
  simpa [ofSteps] using hfold {}

end Steps

/-! ### Drafted programs -/

/-- The text of either infinity stands for it. -/
theorem read?_text_of_infinite {w : Float} (h : w = Scalar.top ∨ w = Scalar.bottom) :
    Numeral.read? (Numeral.text w) = some w := by
  rcases h with rfl | rfl
  · rfl
  · rfl

/-- **A program that is drafted with plain names is what its own text reads as**, if the texts of
the weights that are given stand for them.  It has the predicates that the steps declare, closed
ones as closed, and the rules that the steps add, in their order. -/
theorem readProgram_finish {steps : List (DraftStep Float)} (hplain : ∀ s ∈ steps, s.IsPlain)
    (hweight : ∀ s ∈ steps, ∀ w ∈ s.weights, Numeral.read? (Numeral.text w) = some w) :
    (∀ q, q ∈ (ofSteps steps).finish.predicates ↔ ∃ s ∈ steps, q ∈ s.predicates) ∧
      (ofSteps steps).finish.rules = steps.flatMap DraftStep.rules ∧
      readProgram (pieces '\n' (ofSteps steps).finish.text) = .ok (ofSteps steps).finish := by
  obtain ⟨hpredicates, hrules⟩ := ofSteps_spec steps
  have hmem : ∀ q, q ∈ (ofSteps steps).finish.predicates ↔ ∃ s ∈ steps, q ∈ s.predicates := by
    intro q
    rw [finish, ofParts, Predicate.mem_setOf, hpredicates, List.mem_flatMap]
  have hrule : ∀ r ∈ (ofSteps steps).finish.rules, r ∈ steps.flatMap DraftStep.rules :=
    fun r hr => by rwa [← hrules]
  refine ⟨hmem, hrules, readProgram_lines ?_ ?_ ?_⟩
  · intro q hq
    obtain ⟨s, hs, hqs⟩ := (hmem q).1 hq
    cases s with
    | predicate p =>
      obtain rfl := List.mem_singleton.1 hqs
      exact Predicate.IsPlain.isDeclared (hplain _ hs)
    | domain _ | constant _ _ | clause _ _ | rule _ | evidence _ | priors _ _ => cases hqs
  · intro r hr
    obtain ⟨s, hs, hrs⟩ := List.mem_flatMap.1 (hrule r hr)
    exact ((hplain s hs).of_mem_rules hrs).1
  · intro r hr
    obtain ⟨s, hs, hrs⟩ := List.mem_flatMap.1 (hrule r hr)
    -- the weight is infinite or one of those that were given
    rcases ((hplain s hs).of_mem_rules hrs).2 with htop | hw
    · exact read?_text_of_infinite (.inl htop)
    · exact hweight s hs _ hw

/-- Where people are citizens and were born, drafted with a constant and a clause that are refused,
an equality, and weights of either infinity. -/
def citizenship : List (DraftStep Float) :=
  [.predicate ⟨"citizenOf", "PERSON", "COUNTRY", true⟩,
    .predicate ⟨"bornIn", "PERSON", "COUNTRY", false⟩,
    .constant "PERSON" "julie",
    .clause 1.5 [⟨"citizenOf", "x", "y", false⟩, ⟨"bornIn", "x", "y", true⟩],
    .clause Scalar.top [⟨"bornIn", "x", "y", false⟩, ⟨"bornIn", "x", "z", false⟩,
      ⟨"=", "y", "z", true⟩],
    .clause Scalar.top [],
    .rule ⟨Scalar.bottom, [⟨"=", "x", "y", false⟩, ⟨"citizenOf", "x", "y", true⟩]⟩,
    .evidence [⟨"citizenOf", "Julie", "Canada", true⟩, ⟨"bornIn", "Arun", "Canada", false⟩],
    .priors 0.5 [⟨"bornIn", "Arun", "India", true⟩]]

/-- Its lines are those of the steps that are not refused, and they read as the program. -/
theorem readProgram_finish_citizenship :
    (∀ s ∈ citizenship, s.IsPlain) ∧
      (∀ s ∈ citizenship, ∀ w ∈ s.weights, Numeral.read? (Numeral.text w) = some w) ∧
      (ofSteps citizenship).finish.lines = ["*citizenOf(PERSON,COUNTRY)", "bornIn(PERSON,COUNTRY)",
        "", "1.5 !citizenOf(x,y) v bornIn(x,y)", "!bornIn(x,y) v !bornIn(x,z) v y = z.",
        "-inf x != y v citizenOf(x,y)", "citizenOf(Julie,Canada).", "!bornIn(Arun,Canada).",
        "0.5 bornIn(Arun,India)"] ∧
      readProgram (pieces '\n' (ofSteps citizenship).finish.text) =
        .ok (ofSteps citizenship).finish := by
  have hplain : ∀ s ∈ citizenship, s.IsPlain := by decide +kernel
  have hweight : ∀ s ∈ citizenship, ∀ w ∈ s.weights,
      Numeral.read? (Numeral.text w) = some w := by
    have htop := read?_text_of_infinite (.inl rfl)
    have hbottom := read?_text_of_infinite (.inr rfl)
    have hclause : Numeral.read? (Numeral.text (1.5 : Float)) = some 1.5 := by decide +kernel
    have hprior : Numeral.read? (Numeral.text (0.5 : Float)) = some 0.5 := by decide +kernel
    simp only [citizenship, DraftStep.weights, List.forall_mem_cons, List.not_mem_nil,
      IsEmpty.forall_iff, implies_true, and_true, htop, hbottom, hclause, hprior]
  exact ⟨hplain, hweight, by decide +kernel, (readProgram_finish hplain hweight).2.2⟩

end Draft

end FactNet
