import FactNet.Grounding.Build
import FactNet.Proofs.Domain

/-!
# Registries and their histories

A registry is built up by registrations, one after another, and some of them are refused.  A
refused one can leave something behind, the constants of the literals it got through or the
parts of a program that come before the fault, so the registry goes on with what is left.

Whatever the history, every literal of a registered rule is an equality or has a declared
predicate, and the constants of a type are listed once each.  No rule is registered that the
history has not given.

## Main definitions

* `Registration`, `Registry.register` — a registration, and the registry after it.
* `Registration.given` — the rules that a registration gives.
* `Registry.fresh`, `Registry.after` — an empty registry, and one after a history.
* `Registry.WellFormed` — what holds after every history.

## Main results

* `Registry.eq_fresh_of_create` — a registry that can be made is an empty one.
* `Registry.WellFormed.register` — **a registration keeps a registry well formed.**
* `Registry.WellFormed.after` — so does a history.
* `Registry.mem_rules_after` — the rules after a history have been given.
-/

namespace FactNet

open Scalar

/-- What can be registered.  A single element is a list of one. -/
inductive Registration (α : Type) where
  /-- A type, with some constants. -/
  | domain (type : String) (values : List String)
  /-- Constants, each with its type. -/
  | constants (constants : List (String × String))
  /-- Predicates. -/
  | predicates (predicates : List Predicate)
  /-- Evidence. -/
  | evidence (literals : List Literal)
  /-- Which constants may share an atom. -/
  | pairings (pairings : Option (List (String × List String)))
  /-- Whether a search climbs. -/
  | hillClimb (b : Bool)
  /-- Rules as priors. -/
  | priors (rules : List (Rule α))
  /-- Rules. -/
  | rules (rules : List (Rule α))
  /-- A program. -/
  | program (program : Program α)
  deriving Repr

/-- The rules that a registration gives, apart from priors. -/
def Registration.given {α : Type} : Registration α → List (Rule α)
  | .rules given => given
  | .program p => p.rules
  | _ => []

namespace Registry

variable {α : Type}

/-- The registry after a registration, which may have been refused. -/
def register [Scalar α] [Numeral α] (r : Registry α) : Registration α → Registry α
  | .domain type values => r.addDomain type values
  | .constants constants => r.addConstants constants
  | .predicates predicates => (r.addPredicates predicates).1
  | .evidence literals => (each addEvidence r literals).1
  | .pairings pairings => r.setPairings pairings
  | .hillClimb b => r.setHillClimb b
  | .priors rules => (each addPrior r rules).1
  | .rules rules => (each addRule r rules).1
  | .program program => (r.addProgram program).1

/-- The registry after a history. -/
def after [Scalar α] [Numeral α] (r : Registry α) (history : List (Registration α)) : Registry α :=
  history.foldl register r

/-- An empty registry. -/
def fresh (method : MergeMethod) (defaultPrior : α) (hillClimb : Bool) (threads : Int) :
    Registry α where
  method := method
  defaultPrior := defaultPrior
  hillClimb := hillClimb
  threads := threads

/-- A registry that can be made is an empty one. -/
theorem eq_fresh_of_create [Scalar α] [Numeral α] {method : MergeMethod} {defaultPrior : α}
    {hillClimb : Bool} {threads : Int} {r : Registry α}
    (h : create method defaultPrior hillClimb threads = .ok r) :
    r = fresh method defaultPrior hillClimb threads := by
  unfold create at h
  split at h
  · cases h
    rfl
  · cases h

/-- So is one whose merge method is given by its name. -/
theorem exists_eq_fresh_of_createNamed [Scalar α] [Numeral α] {name : String} {defaultPrior : α}
    {hillClimb : Bool} {threads : Int} {r : Registry α}
    (h : createNamed name defaultPrior hillClimb threads = .ok r) :
    ∃ method, r = fresh method defaultPrior hillClimb threads := by
  unfold createNamed at h
  split at h
  · cases h
  · next r₀ hcreate =>
    rw [eq_fresh_of_create hcreate] at h
    split at h
    · cases h
    · next method _ =>
      cases h
      exact ⟨method, rfl⟩

/-- The default prior of a registry that can be made is between zero and one. -/
theorem bounds_of_create [Scalar α] [Numeral α] {method : MergeMethod} {defaultPrior : α}
    {hillClimb : Bool} {threads : Int} {r : Registry α}
    (h : create method defaultPrior hillClimb threads = .ok r) :
    zero < defaultPrior ∧ defaultPrior < one := by
  unfold create at h
  split at h
  · next hd => simpa using hd
  · cases h

/-- What every element of a list keeps, the list keeps, up to the first that is refused. -/
theorem each_induction {β : Type} {P : Registry α → Prop} {f : Registry α → β → Registered α}
    (hf : ∀ r b, P r → P (f r b).1) {r : Registry α} (hr : P r) (bs : List β) :
    P (each f r bs).1 := by
  induction bs generalizing r with
  | nil => exact hr
  | cons b bs ih =>
    have hstep := hf r b hr
    unfold each
    split
    · next heq => exact ih (by rwa [heq] at hstep)
    · next heq => rwa [heq] at hstep

/-! ### Adding constants -/

/-- Nothing changes but the domains, which stay in order. -/
def AddsConstants (r r' : Registry α) : Prop :=
  ∃ d, r' = { r with domains := d } ∧ (r.domains.Ordered → d.Ordered)

namespace AddsConstants

theorem refl (r : Registry α) : r.AddsConstants r :=
  ⟨r.domains, rfl, id⟩

theorem trans {r r' r'' : Registry α} (h : r.AddsConstants r') (h' : r'.AddsConstants r'') :
    r.AddsConstants r'' := by
  obtain ⟨d, rfl, hd⟩ := h
  obtain ⟨d', rfl, hd'⟩ := h'
  exact ⟨d', rfl, hd' ∘ hd⟩

theorem addConstant (r : Registry α) (type value : String) :
    r.AddsConstants (r.addConstant type value) :=
  ⟨_, rfl, fun h => h.add type value⟩

theorem addConstants (r : Registry α) (constants : List (String × String)) :
    r.AddsConstants (r.addConstants constants) := by
  unfold Registry.addConstants
  induction constants generalizing r with
  | nil => exact refl r
  | cons c constants ih => exact (addConstant r c.2 c.1).trans (ih _)

theorem addIfConstant (r : Registry α) (type token : String) :
    r.AddsConstants (r.addIfConstant type token) := by
  unfold Registry.addIfConstant
  split
  · exact addConstant r type token
  · exact refl r

theorem addLiteralConstants (r : Registry α) (l : Literal) :
    r.AddsConstants (r.addLiteralConstants l).1 := by
  unfold Registry.addLiteralConstants
  split
  · exact refl r
  · split
    · exact refl r
    · exact (addIfConstant r _ _).trans (addIfConstant _ _ _)

theorem addRuleConstants (r : Registry α) (rule : Rule α) :
    r.AddsConstants (r.addRuleConstants rule).1 :=
  each_induction (P := r.AddsConstants) (fun r' l h => h.trans (addLiteralConstants r' l)) (refl r)
    rule.literals

theorem predicate?_eq {r r' : Registry α} (h : r.AddsConstants r') (name : String) :
    r'.predicate? name = r.predicate? name := by
  obtain ⟨d, rfl, -⟩ := h
  rfl

theorem rules_eq {r r' : Registry α} (h : r.AddsConstants r') : r'.rules = r.rules := by
  obtain ⟨d, rfl, -⟩ := h
  rfl

end AddsConstants

/-! ### Declared predicates -/

/-- Every literal of a rule is an equality or has a declared predicate. -/
def Declares (r : Registry α) (rule : Rule α) : Prop :=
  ∀ l ∈ rule.literals, l.isEquality = false → (r.predicate? l.name).isSome

/-- A list of which no element is refused. -/
theorem each_cons_eq_none {β : Type} {f : Registry α → β → Registered α} {r r' : Registry α} {b : β}
    {bs : List β} (h : each f r (b :: bs) = (r', none)) :
    (f r b).2 = none ∧ each f (f r b).1 bs = (r', none) := by
  rw [each] at h
  revert h
  obtain ⟨r₁, fault⟩ := f r b
  cases fault with
  | none => exact fun h => ⟨rfl, h⟩
  | some e => exact fun h => by cases h

/-- A rule whose constants can be added is declared. -/
theorem declares_of_addRuleConstants {r r' : Registry α} {rule : Rule α}
    (h : r.addRuleConstants rule = (r', none)) : r.Declares rule := by
  unfold addRuleConstants at h
  unfold Declares
  generalize rule.literals = ls at h ⊢
  induction ls generalizing r with
  | nil =>
    intro l hl
    cases hl
  | cons k ls ih =>
    obtain ⟨hnone, hrest⟩ := each_cons_eq_none h
    intro l hl hequality
    rcases List.mem_cons.mp hl with rfl | hl
    · unfold addLiteralConstants at hnone
      cases hp : r.predicate? l.name with
      | none => simp [hequality, hp] at hnone
      | some p => rfl
    · rw [← (AddsConstants.addLiteralConstants r k).predicate?_eq]
      exact ih hrest l hl hequality

/-- A predicate that has been declared stays as it was declared. -/
theorem predicate?_addPredicate {r : Registry α} {name : String} {q : Predicate}
    (h : r.predicate? name = some q) (p : Predicate) :
    (r.addPredicate p).1.predicate? name = some q := by
  unfold addPredicate
  split
  · exact h
  · unfold predicate? at h ⊢
    rw [List.find?_append, h, Option.some_or]

theorem Declares.addPredicate {r : Registry α} {rule : Rule α} (h : r.Declares rule)
    (p : Predicate) : (r.addPredicate p).1.Declares rule := by
  intro l hl hequality
  obtain ⟨q, hq⟩ := Option.isSome_iff_exists.mp (h l hl hequality)
  rw [predicate?_addPredicate hq]
  rfl

/-! ### Where rules come from -/

theorem rules_addPredicate (r : Registry α) (p : Predicate) :
    (r.addPredicate p).1.rules = r.rules := by
  unfold addPredicate
  split <;> rfl

theorem rules_addEvidence (r : Registry α) (l : Literal) : (r.addEvidence l).1.rules = r.rules := by
  unfold addEvidence
  split
  · rfl
  · split
    · rfl
    · split <;> rfl

theorem rules_addPrior [Scalar α] [Numeral α] (r : Registry α) (rule : Rule α) :
    (r.addPrior rule).1.rules = r.rules := by
  have hadds := AddsConstants.addRuleConstants r rule
  unfold addPrior
  split
  · rfl
  · split
    · next heq =>
      rw [heq] at hadds
      exact hadds.rules_eq
    · next heq =>
      rw [heq] at hadds
      exact hadds.rules_eq

/-- Where no element of a list adds a rule, the list adds none. -/
theorem rules_each {β : Type} {f : Registry α → β → Registered α}
    (hf : ∀ r b, (f r b).1.rules = r.rules) (r : Registry α) (bs : List β) :
    (each f r bs).1.rules = r.rules :=
  each_induction (P := fun r' => r'.rules = r.rules) (fun r' b hr => (hf r' b).trans hr) rfl bs

section Given

variable {r : Registry α} {rule new : Rule α}

/-- Where every rule of a list adds no other, the list adds no others. -/
theorem mem_rules_each {f : Registry α → Rule α → Registered α} {rules : List (Rule α)}
    (hf : ∀ r new, rule ∈ (f r new).1.rules → rule ∈ r.rules ∨ rule = new)
    (h : rule ∈ (each f r rules).1.rules) : rule ∈ r.rules ∨ rule ∈ rules := by
  induction rules generalizing r with
  | nil => exact .inl h
  | cons new rules ih =>
    have hstep := hf r new
    unfold each at h
    split at h
    · next heq =>
      rw [heq] at hstep
      rcases ih h with h | h
      · exact (hstep h).imp_right fun h => List.mem_cons.2 (.inl h)
      · exact .inr (List.mem_cons_of_mem new h)
    · next heq =>
      rw [heq] at hstep
      exact (hstep h).imp_right fun h => List.mem_cons.2 (.inl h)

theorem mem_rules_addRule (h : rule ∈ (r.addRule new).1.rules) : rule ∈ r.rules ∨ rule = new := by
  have hadds := AddsConstants.addRuleConstants r new
  unfold addRule at h
  split at h
  · next heq =>
    rw [heq] at hadds
    rw [← hadds.rules_eq]
    exact (List.mem_append.1 h).imp_right List.mem_singleton.1
  · next heq =>
    rw [heq] at hadds
    exact .inl (hadds.rules_eq ▸ h)

variable [Scalar α]

/-- A rule of a program is registered as it is, or as evidence. -/
theorem mem_rules_addProgramRule (h : rule ∈ (r.addProgramRule new).1.rules) :
    rule ∈ r.rules ∨ rule = new := by
  unfold addProgramRule at h
  split at h
  · split at h
    · split at h
      · exact .inl h
      · split at h
        · exact .inl (rules_addEvidence r _ ▸ h)
        · exact mem_rules_addRule h
    · exact mem_rules_addRule h
  · exact mem_rules_addRule h

theorem mem_rules_addProgram {p : Program α} (h : rule ∈ (r.addProgram p).1.rules) :
    rule ∈ r.rules ∨ rule ∈ p.rules := by
  have hpredicates : (r.addPredicates p.predicates).1.rules = r.rules :=
    rules_each rules_addPredicate r _
  unfold addProgram at h
  split at h
  · next heq =>
    rw [heq] at hpredicates
    rw [← hpredicates]
    exact mem_rules_each (fun r new => mem_rules_addProgramRule) h
  · next heq =>
    rw [heq] at hpredicates
    exact .inl (hpredicates ▸ h)

variable [Numeral α]

/-- A registration adds no rule that it does not give. -/
theorem mem_rules_register {registration : Registration α}
    (h : rule ∈ (r.register registration).rules) : rule ∈ r.rules ∨ rule ∈ registration.given := by
  cases registration with
  | domain type values => exact .inl h
  | constants constants => exact .inl ((AddsConstants.addConstants r constants).rules_eq ▸ h)
  | predicates predicates => exact .inl (rules_each rules_addPredicate r _ ▸ h)
  | evidence literals => exact .inl (rules_each rules_addEvidence r literals ▸ h)
  | pairings pairings => exact .inl h
  | hillClimb b => exact .inl h
  | priors rules => exact .inl (rules_each rules_addPrior r rules ▸ h)
  | rules rules =>
    change rule ∈ r.rules ∨ rule ∈ rules
    exact mem_rules_each (fun r new => mem_rules_addRule) h
  | program program => exact mem_rules_addProgram (p := program) h

/-- **The rules after a history were there before, or have been given.** -/
theorem mem_rules_after {history : List (Registration α)} (h : rule ∈ (r.after history).rules) :
    rule ∈ r.rules ∨ ∃ registration ∈ history, rule ∈ registration.given := by
  induction history generalizing r with
  | nil => exact .inl h
  | cons registration history ih =>
    rcases ih h with h | ⟨later, hlater, h⟩
    · exact (mem_rules_register h).imp_right fun h => ⟨registration, List.mem_cons_self, h⟩
    · exact .inr ⟨later, List.mem_cons_of_mem registration hlater, h⟩

end Given

/-! ### Well-formed registries -/

/-- What holds of a registry after every history. -/
structure WellFormed (r : Registry α) : Prop where
  declares : ∀ rule ∈ r.rules, r.Declares rule
  ordered : r.domains.Ordered

theorem wellFormed_fresh (method : MergeMethod) (defaultPrior : α) (hillClimb : Bool)
    (threads : Int) : (fresh method defaultPrior hillClimb threads).WellFormed where
  declares rule h := by cases h
  ordered := Domains.ordered_empty

namespace WellFormed

variable {r : Registry α}

theorem of_addsConstants {r' : Registry α} (h : r.WellFormed) (hadds : r.AddsConstants r') :
    r'.WellFormed := by
  obtain ⟨d, rfl, hd⟩ := hadds
  exact ⟨h.declares, hd h.ordered⟩

theorem addPredicate (h : r.WellFormed) (p : Predicate) : (r.addPredicate p).1.WellFormed := by
  refine ⟨fun rule hrule => (h.declares rule (rules_addPredicate r p ▸ hrule)).addPredicate p, ?_⟩
  unfold Registry.addPredicate
  split
  · exact h.ordered
  · exact (h.ordered.declare p.type1).declare p.type2

theorem addEvidence (h : r.WellFormed) (l : Literal) : (r.addEvidence l).1.WellFormed := by
  unfold Registry.addEvidence
  split
  · exact h
  · next p _ =>
    split
    · exact h
    · split
      · exact h
      · have hadded := h.of_addsConstants ((AddsConstants.addConstant r p.type1 l.arg1).trans
          (AddsConstants.addConstant _ p.type2 l.arg2))
        exact ⟨hadded.declares, hadded.ordered⟩

theorem addRule (h : r.WellFormed) (rule : Rule α) : (r.addRule rule).1.WellFormed := by
  have hadds := AddsConstants.addRuleConstants r rule
  unfold Registry.addRule
  split
  · next r' heq =>
    rw [heq] at hadds
    have hadded := h.of_addsConstants hadds
    refine ⟨fun rule' hrule' => ?_, hadded.ordered⟩
    rcases List.mem_append.mp hrule' with hold | hnew
    · exact hadded.declares rule' hold
    · rw [List.mem_singleton.mp hnew]
      intro l hl hequality
      have hdeclared := declares_of_addRuleConstants heq l hl hequality
      rwa [← hadds.predicate?_eq] at hdeclared
  · next heq =>
    rw [heq] at hadds
    exact h.of_addsConstants hadds

variable [Scalar α] [Numeral α]

theorem addPrior (h : r.WellFormed) (rule : Rule α) : (r.addPrior rule).1.WellFormed := by
  have hadds := AddsConstants.addRuleConstants r rule
  unfold Registry.addPrior
  split
  · exact h
  · split
    · next heq =>
      rw [heq] at hadds
      have hadded := h.of_addsConstants hadds
      exact ⟨hadded.declares, hadded.ordered⟩
    · next heq =>
      rw [heq] at hadds
      exact h.of_addsConstants hadds

omit [Numeral α] in
theorem addProgramRule (h : r.WellFormed) (rule : Rule α) :
    (r.addProgramRule rule).1.WellFormed := by
  unfold Registry.addProgramRule
  split
  · split
    · split
      · exact h
      · split
        · exact h.addEvidence _
        · exact h.addRule rule
    · exact h.addRule rule
  · exact h.addRule rule

omit [Numeral α] in
theorem addProgram (h : r.WellFormed) (p : Program α) : (r.addProgram p).1.WellFormed := by
  have hpredicates : (r.addPredicates p.predicates).1.WellFormed :=
    each_induction (fun _ q hr => hr.addPredicate q) h _
  unfold Registry.addProgram
  split
  · next heq =>
    rw [heq] at hpredicates
    exact each_induction (fun _ rule hr => hr.addProgramRule rule) hpredicates p.rules
  · next heq => rwa [heq] at hpredicates

/-- **A registration keeps a registry well formed**, refused or not. -/
theorem register (h : r.WellFormed) (registration : Registration α) :
    (r.register registration).WellFormed := by
  cases registration with
  | domain type values => exact ⟨h.declares, h.ordered.addAll type values⟩
  | constants constants => exact h.of_addsConstants (AddsConstants.addConstants r constants)
  | predicates predicates => exact each_induction (fun _ p hr => hr.addPredicate p) h _
  | evidence literals => exact each_induction (fun _ l hr => hr.addEvidence l) h literals
  | pairings pairings => exact ⟨h.declares, h.ordered⟩
  | hillClimb b => exact ⟨h.declares, h.ordered⟩
  | priors rules => exact each_induction (fun _ rule hr => hr.addPrior rule) h rules
  | rules rules => exact each_induction (fun _ rule hr => hr.addRule rule) h rules
  | program program => exact h.addProgram program

/-- A history keeps a registry well formed. -/
theorem after (h : r.WellFormed) (history : List (Registration α)) :
    (r.after history).WellFormed := by
  induction history generalizing r with
  | nil => exact h
  | cons registration history ih => exact ih (h.register registration)

end WellFormed

end Registry

end FactNet
