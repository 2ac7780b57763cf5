import FactNet.Proofs.Grounding.Alike
import FactNet.Proofs.Grounding.History

/-!
# Registering again

Registrations only ever add to a registry: a predicate that has been declared stays declared, and
constants, evidence, priors and rules stay where they are.  So a registration that was accepted
once is accepted again whenever it is made again, and adds nothing but repetitions of what is
there.

Registrations are made of a few steps, put one after another up to the first that is refused.
What can be said of each step passes to what is made of them.  A step also adds the same wherever
it is made, so histories that make the same registrations register the same.

## Main definitions

* `Registry.Within`, `Registry.Extends` — a registry with more in it.
* `Registry.Repeats` — a registry with nothing more in it than repetitions.
* `Registry.Repeatable` — an operation adds the same to every registry, and made again adds nothing
  but repetitions.
* `Registry.attempt`, `Registry.Accepts` — a registration, with the fault if it is refused, and a
  history of which none is.

## Main results

* `Registry.Repeatable.andThen`, `Registry.Repeatable.lookup` — what is made of repeatable steps is
  repeatable.
* `Registry.extends_after` — **a history extends a registry.**
* `Registry.repeats_of_accepted` — **a registration that has been accepted adds nothing but
  repetitions when it is made again.**
* `Registry.Accepts.within` — **histories that make the same registrations register the same.**
-/

namespace FactNet

namespace Registry

variable {α : Type} {r r' r'' : Registry α}

/-! ### Registries with more in them -/

/-- Every name is declared once, and constants stand in order. -/
structure Orderly (r : Registry α) : Prop where
  names : (r.predicates.map (·.name)).Nodup
  ordered : r.domains.Ordered

/-- What has been registered in the one is there in the other. -/
structure Within (r r' : Registry α) : Prop where
  declared : ∀ {name p}, r.predicate? name = some p → r'.predicate? name = some p
  constants : ∀ type, r.domains.get type ⊆ r'.domains.get type
  evidence : r.evidence ⊆ r'.evidence
  priors : r.priors ⊆ r'.priors
  rules : r.rules ⊆ r'.rules

theorem Within.refl (r : Registry α) : r.Within r where
  declared := id
  constants _ := List.Subset.refl _
  evidence := List.Subset.refl _
  priors := List.Subset.refl _
  rules := List.Subset.refl _

theorem Within.trans (h : r.Within r') (h' : r'.Within r'') : r.Within r'' where
  declared := fun hp => h'.declared (h.declared hp)
  constants type := List.Subset.trans (h.constants type) (h'.constants type)
  evidence := List.Subset.trans h.evidence h'.evidence
  priors := List.Subset.trans h.priors h'.priors
  rules := List.Subset.trans h.rules h'.rules

/-- What has been registered stays registered, and the settings made at first stay as they are. -/
structure Extends (r r' : Registry α) : Prop extends Within r r' where
  method_eq : r'.method = r.method
  defaultPrior_eq : r'.defaultPrior = r.defaultPrior
  threads_eq : r'.threads = r.threads
  orderly : r.Orderly → r'.Orderly

theorem Extends.refl (r : Registry α) : r.Extends r where
  toWithin := Within.refl r
  method_eq := rfl
  defaultPrior_eq := rfl
  threads_eq := rfl
  orderly := id

theorem Extends.trans (h : r.Extends r') (h' : r'.Extends r'') : r.Extends r'' where
  toWithin := h.toWithin.trans h'.toWithin
  method_eq := h'.method_eq.trans h.method_eq
  defaultPrior_eq := h'.defaultPrior_eq.trans h.defaultPrior_eq
  threads_eq := h'.threads_eq.trans h.threads_eq
  orderly := fun ho => h'.orderly (h.orderly ho)

/-- There is nothing more in a registry than repetitions of what is in another. -/
structure Repeats (r r' : Registry α) : Prop
    extends Alike (fun xs ys => firsts xs = firsts ys) r r' where
  method_eq : r.method = r'.method
  defaultPrior_eq : r.defaultPrior = r'.defaultPrior
  hillClimb_eq : r.hillClimb = r'.hillClimb
  threads_eq : r.threads = r'.threads

theorem Repeats.refl (r : Registry α) : r.Repeats r where
  predicate?_eq _ := rfl
  get_eq _ := rfl
  mayPair_eq _ _ := rfl
  evidence := rfl
  priors := rfl
  rules := rfl
  method_eq := rfl
  defaultPrior_eq := rfl
  hillClimb_eq := rfl
  threads_eq := rfl

theorem Repeats.trans (h : r.Repeats r') (h' : r'.Repeats r'') : r.Repeats r'' where
  predicate?_eq name := (h.predicate?_eq name).trans (h'.predicate?_eq name)
  get_eq type := (h.get_eq type).trans (h'.get_eq type)
  mayPair_eq first second := (h.mayPair_eq first second).trans (h'.mayPair_eq first second)
  evidence := Eq.trans h.evidence h'.evidence
  priors := Eq.trans h.priors h'.priors
  rules := Eq.trans h.rules h'.rules
  method_eq := h.method_eq.trans h'.method_eq
  defaultPrior_eq := h.defaultPrior_eq.trans h'.defaultPrior_eq
  hillClimb_eq := h.hillClimb_eq.trans h'.hillClimb_eq
  threads_eq := h.threads_eq.trans h'.threads_eq

/-! ### Operations that can be repeated -/

/-- One operation after another, unless the first is refused. -/
def andThen (f g : Registry α → Registered α) (r : Registry α) : Registered α :=
  match f r with
  | (r, none) => g r
  | (r, some e) => (r, some e)

/-- An operation for the declaration of a name, refused if there is none. -/
def lookup (name : String) (f : Predicate → Registry α → Registered α) (r : Registry α) :
    Registered α :=
  match r.predicate? name with
  | none => (r, some (.unknownPredicate name))
  | some p => f p r

theorem andThen_of_accepted {f : Registry α → Registered α} (g : Registry α → Registered α)
    (h : (f r).2 = none) : andThen f g r = g (f r).1 := by
  unfold andThen
  split
  · next heq => rw [heq]
  · next heq =>
    rw [heq] at h
    cases h

theorem accepted_of_andThen {f g : Registry α → Registered α} (h : (andThen f g r).2 = none) :
    (f r).2 = none ∧ (g (f r).1).2 = none := by
  have hfirst : (f r).2 = none := by
    unfold andThen at h
    split at h
    · next heq => rw [heq]
    · cases h
  rw [andThen_of_accepted g hfirst] at h
  exact ⟨hfirst, h⟩

/-- An operation adds to a registry.  Where what it adds is there, it is accepted and adds nothing but
repetitions; and it adds the same to every registry. -/
structure Repeatable (f : Registry α → Registered α) : Prop where
  grows : ∀ r : Registry α, r.Extends (f r).1
  again : ∀ {r₁ r : Registry α}, (f r₁).2 = none → (f r₁).1.Within r → r.Orderly →
    (f r).2 = none ∧ r.Repeats (f r).1
  within : ∀ {r₁ r r' : Registry α}, (f r₁).2 = none → (f r₁).1.Within r' → r.Within r' →
    (f r).1.Within r'

namespace Repeatable

variable {f g : Registry α → Registered α}

/-- Nothing is done. -/
theorem skip : Repeatable fun r : Registry α => (r, none) where
  grows := Extends.refl
  again _ _ _ := ⟨rfl, Repeats.refl _⟩
  within _ _ h := h

/-- Nothing is accepted. -/
theorem refuse (fault : RegistryFault) : Repeatable fun r : Registry α => (r, some fault) where
  grows := Extends.refl
  again h := by cases h
  within _ _ h := h

/-- **One after another.** -/
theorem andThen (hf : Repeatable f) (hg : Repeatable g) : Repeatable (andThen f g) where
  grows r := by
    unfold Registry.andThen
    have hstep := hf.grows r
    split
    · next heq =>
      rw [heq] at hstep
      exact hstep.trans (hg.grows _)
    · next heq => rwa [heq] at hstep
  again {r₁ r} haccepted hwithin horderly := by
    obtain ⟨hfirst, hsecond⟩ := accepted_of_andThen haccepted
    rw [andThen_of_accepted g hfirst] at hwithin
    obtain ⟨hfirst', hrepeats⟩ := hf.again hfirst ((hg.grows _).toWithin.trans hwithin) horderly
    obtain ⟨hsecond', hrepeats'⟩ := hg.again hsecond (hwithin.trans (hf.grows r).toWithin)
      ((hf.grows r).orderly horderly)
    rw [andThen_of_accepted g hfirst']
    exact ⟨hsecond', hrepeats.trans hrepeats'⟩
  within {r₁ r r'} haccepted hwithin h := by
    obtain ⟨hfirst, hsecond⟩ := accepted_of_andThen haccepted
    rw [andThen_of_accepted g hfirst] at hwithin
    have hstep := hf.within hfirst ((hg.grows _).toWithin.trans hwithin) h
    unfold Registry.andThen
    split
    · next heq =>
      rw [heq] at hstep
      exact hg.within hsecond hwithin hstep
    · next heq => rwa [heq] at hstep

/-- **For a declaration**, which stays what it was. -/
theorem lookup {name : String} {f : Predicate → Registry α → Registered α}
    (hf : ∀ p, Repeatable (f p)) : Repeatable (lookup name f) where
  grows r := by
    unfold Registry.lookup
    split
    · exact Extends.refl r
    · exact (hf _).grows r
  again {r₁ r} haccepted hwithin horderly := by
    unfold Registry.lookup at haccepted hwithin ⊢
    cases hp : r₁.predicate? name with
    | none => simp [hp] at haccepted
    | some p =>
      rw [hp] at haccepted hwithin
      rw [hwithin.declared (((hf p).grows r₁).declared hp)]
      exact (hf p).again haccepted hwithin horderly
  within {r₁ r r'} haccepted hwithin h := by
    unfold Registry.lookup at haccepted hwithin ⊢
    cases hp : r₁.predicate? name with
    | none => simp [hp] at haccepted
    | some p =>
      rw [hp] at haccepted hwithin
      cases hq : r.predicate? name with
      | none => exact h
      | some q =>
        -- the registry that has both has one declaration
        have hsame := (hwithin.declared (((hf p).grows r₁).declared hp)).symm.trans (h.declared hq)
        obtain rfl := Option.some.inj hsame
        exact (hf p).within haccepted hwithin h

theorem each {β : Type} {f : Registry α → β → Registered α} (hf : ∀ b, Repeatable fun r => f r b)
    (bs : List β) : Repeatable fun r => each f r bs := by
  induction bs with
  | nil => exact skip
  | cons b bs ih => exact (hf b).andThen ih

theorem ite {p : Prop} [Decidable p] (hf : Repeatable f) (hg : Repeatable g) :
    Repeatable fun r => if p then f r else g r := by
  split
  · exact hf
  · exact hg

end Repeatable

/-! ### Constants -/

theorem extends_domains {d : Domains} (hget : ∀ type, r.domains.get type ⊆ d.get type)
    (hordered : r.domains.Ordered → d.Ordered) : r.Extends { r with domains := d } where
  toWithin := { Within.refl r with constants := hget }
  method_eq := rfl
  defaultPrior_eq := rfl
  threads_eq := rfl
  orderly h := ⟨h.names, hordered h.ordered⟩

theorem repeats_domains {d : Domains} (hget : ∀ type, r.domains.get type = d.get type) :
    r.Repeats { r with domains := d } where
  toAlike := { (Repeats.refl r).toAlike with get_eq := hget }
  method_eq := rfl
  defaultPrior_eq := rfl
  hillClimb_eq := rfl
  threads_eq := rfl

theorem mem_get_of_within {type value : String} (h : (r.addConstant type value).Within r') :
    value ∈ r'.domains.get type := by
  refine h.constants type ?_
  change value ∈ (r.domains.add type value).get type
  rw [Domains.get_add, if_pos rfl]
  exact mem_insertText.2 (.inl rfl)

/-- A constant is added. -/
theorem repeatable_addConstant (type value : String) :
    Repeatable fun r : Registry α => (r.addConstant type value, none) where
  grows r := by
    refine extends_domains (fun type' v hv => ?_) fun h => h.add type value
    rw [Domains.get_add]
    split
    · next h => exact mem_insertText.2 (.inr (h ▸ hv))
    · exact hv
  again {r₁ r} _ hwithin horderly := by
    have hmem := mem_get_of_within hwithin
    refine ⟨rfl, repeats_domains fun type' => ?_⟩
    rw [Domains.get_add]
    split
    · next h => rw [h, insertText_of_mem (horderly.ordered.pairwise_get type) hmem]
    · rfl
  within {r₁ r r'} _ hwithin h := { h with
    constants := fun type' v hv => by
      change v ∈ (r.domains.add type value).get type' at hv
      rw [Domains.get_add] at hv
      split at hv
      · next htype =>
        rcases mem_insertText.1 hv with rfl | hv
        · exact htype ▸ mem_get_of_within hwithin
        · exact htype ▸ h.constants type hv
      · exact h.constants type' hv }

/-- A type is named. -/
theorem repeatable_declare (type : String) :
    Repeatable fun r : Registry α => ({ r with domains := r.domains.declare type }, none) where
  grows r := extends_domains (fun type' => by rw [Domains.get_declare]; exact List.Subset.refl _)
    fun h => h.declare type
  again _ _ _ := ⟨rfl, repeats_domains fun type' => (Domains.get_declare _ type type').symm⟩
  within {r₁ r r'} _ _ h := { h with
    constants := fun type' => by
      rw [Domains.get_declare]
      exact h.constants type' }

theorem each_accepted {β : Type} (f : Registry α → β → Registry α) (r : Registry α) (bs : List β) :
    each (fun r b => (f r b, none)) r bs = (bs.foldl f r, none) := by
  induction bs generalizing r with
  | nil => rfl
  | cons b bs ih => exact ih (f r b)

/-- Constants are added. -/
theorem repeatable_addConstants (constants : List (String × String)) :
    Repeatable fun r : Registry α => (r.addConstants constants, none) := by
  have h := Repeatable.each (fun c : String × String => repeatable_addConstant (α := α) c.2 c.1)
    constants
  simp only [each_accepted] at h
  exact h

/-- A type is named with some constants. -/
theorem repeatable_addDomain (type : String) (values : List String) :
    Repeatable fun r : Registry α => (r.addDomain type values, none) := by
  have hfold : ∀ (r : Registry α) (vs : List String), vs.foldl (fun r v => r.addConstant type v) r =
      { r with domains := vs.foldl (fun d v => d.add type v) r.domains } := by
    intro r vs
    induction vs generalizing r with
    | nil => rfl
    | cons v vs ih => exact ih (r.addConstant type v)
  have h := (repeatable_declare (α := α) type).andThen
    (Repeatable.each (fun v => repeatable_addConstant (α := α) type v) values)
  simp only [each_accepted, hfold] at h
  exact h

theorem repeatable_addIfConstant (type token : String) :
    Repeatable fun r : Registry α => (r.addIfConstant type token, none) := by
  unfold addIfConstant
  split
  · exact repeatable_addConstant type token
  · exact .skip

/-- The constants of a literal are added. -/
theorem repeatable_addLiteralConstants (l : Literal) :
    Repeatable fun r : Registry α => r.addLiteralConstants l := by
  unfold addLiteralConstants
  split
  · exact .skip
  · exact .lookup fun p => (repeatable_addIfConstant p.type1 l.arg1).andThen
      (repeatable_addIfConstant p.type2 l.arg2)

theorem repeatable_addRuleConstants (rule : Rule α) :
    Repeatable fun r => r.addRuleConstants rule :=
  .each repeatable_addLiteralConstants rule.literals

/-! ### Predicates -/

/-- A predicate that has been accepted is declared as it is. -/
theorem declared_of_accepted {p : Predicate} (h : (r.addPredicate p).2 = none) :
    (r.addPredicate p).1.predicate? p.name = some p := by
  unfold addPredicate at h ⊢
  split
  · next known hknown =>
    rw [hknown] at h
    by_cases heq : known = p
    · subst heq
      exact hknown
    · simp [heq] at h
  · next hnone =>
    unfold predicate? at hnone ⊢
    rw [List.find?_append, hnone]
    simp

/-- A name that is not declared is new. -/
theorem nodup_names_concat {ps : List Predicate} (h : (ps.map (·.name)).Nodup) {p : Predicate}
    (hnone : ps.find? (fun q => q.name == p.name) = none) :
    ((ps ++ [p]).map (·.name)).Nodup := by
  rw [List.map_append]
  refine List.nodup_append.2 ⟨h, List.nodup_singleton _, fun name hname name' hname' => ?_⟩
  rintro rfl
  obtain ⟨q, hq, rfl⟩ := List.mem_map.1 hname
  have heq : q.name = p.name := by simpa using hname'
  exact absurd (beq_iff_eq.2 heq) (List.find?_eq_none.1 hnone q hq)

/-- A predicate is declared. -/
theorem repeatable_addPredicate (p : Predicate) :
    Repeatable fun r : Registry α => r.addPredicate p where
  grows r := by
    have hdeclared : ∀ {name q}, r.predicate? name = some q →
        (r.addPredicate p).1.predicate? name = some q := fun h => predicate?_addPredicate h p
    unfold addPredicate at hdeclared ⊢
    split
    · exact Extends.refl r
    · next hnone =>
      rw [hnone] at hdeclared
      refine ⟨{ Within.refl r with declared := hdeclared, constants := fun type => ?_ },
        rfl, rfl, rfl, fun h => ⟨?_, (h.ordered.declare p.type1).declare p.type2⟩⟩
      · rw [Domains.get_declare, Domains.get_declare]
        exact List.Subset.refl _
      · exact nodup_names_concat h.names hnone
  again {r₁ r} haccepted hwithin _ := by
    -- what has been declared is found again
    have hsame : r.addPredicate p = (r, none) := by
      unfold addPredicate
      rw [hwithin.declared (declared_of_accepted haccepted)]
      simp
    rw [hsame]
    exact ⟨rfl, Repeats.refl r⟩
  within {r₁ r r'} haccepted hwithin h := by
    have hdeclared := hwithin.declared (declared_of_accepted haccepted)
    unfold addPredicate
    split
    · exact h
    · refine { h with declared := fun {name q} hq => ?_, constants := fun type => ?_ }
      · unfold predicate? at hq
        rw [List.find?_append, Option.or_eq_some_iff] at hq
        rcases hq with hq | ⟨-, hq⟩
        · exact h.declared hq
        · obtain rfl : p = q := List.mem_singleton.1 (List.mem_of_find?_eq_some hq) |>.symm
          obtain rfl : p.name = name := by simpa using List.find?_some hq
          exact hdeclared
      · rw [Domains.get_declare, Domains.get_declare]
        exact h.constants type

theorem repeatable_addPredicates (ps : List Predicate) :
    Repeatable fun r : Registry α => r.addPredicates ps :=
  .each repeatable_addPredicate _

/-! ### Evidence and rules -/

/-- What is there is not new. -/
theorem firsts_concat {β : Type} {xs : List β} {x : β} (h : x ∈ xs) :
    firsts xs = firsts (xs ++ [x]) :=
  (firsts_concat_of_mem h).symm

theorem append_singleton_subset {β : Type} {xs ys : List β} {x : β} (h : xs ⊆ ys) (hx : x ∈ ys) :
    xs ++ [x] ⊆ ys :=
  List.append_subset.2 ⟨h, by simpa using hx⟩

theorem repeatable_pushEvidence (l : Literal) :
    Repeatable fun r : Registry α => ({ r with evidence := r.evidence ++ [l] }, none) where
  grows r := { Extends.refl r with
    evidence := List.subset_append_left _ _
    orderly := fun h => ⟨h.names, h.ordered⟩ }
  again _ hwithin _ := ⟨rfl, { Repeats.refl _ with
    evidence := firsts_concat (hwithin.evidence (by simp)) }⟩
  within _ hwithin h := { h with
    evidence := append_singleton_subset h.evidence (hwithin.evidence (by simp)) }

theorem repeatable_pushPrior (rule : Rule α) :
    Repeatable fun r : Registry α => ({ r with priors := r.priors ++ [rule] }, none) where
  grows r := { Extends.refl r with
    priors := List.subset_append_left _ _
    orderly := fun h => ⟨h.names, h.ordered⟩ }
  again _ hwithin _ := ⟨rfl, { Repeats.refl _ with
    priors := firsts_concat (hwithin.priors (by simp)) }⟩
  within _ hwithin h := { h with
    priors := append_singleton_subset h.priors (hwithin.priors (by simp)) }

theorem repeatable_pushRule (rule : Rule α) :
    Repeatable fun r : Registry α => ({ r with rules := r.rules ++ [rule] }, none) where
  grows r := { Extends.refl r with
    rules := List.subset_append_left _ _
    orderly := fun h => ⟨h.names, h.ordered⟩ }
  again _ hwithin _ := ⟨rfl, { Repeats.refl _ with
    rules := firsts_concat (hwithin.rules (by simp)) }⟩
  within _ hwithin h := { h with
    rules := append_singleton_subset h.rules (hwithin.rules (by simp)) }

/-- Evidence is recorded. -/
theorem repeatable_addEvidence (l : Literal) :
    Repeatable fun r : Registry α => r.addEvidence l := by
  refine .lookup fun p => .ite (.refuse _) (.ite (.refuse _) ?_)
  exact (repeatable_addConstant p.type1 l.arg1).andThen
    ((repeatable_addConstant p.type2 l.arg2).andThen (repeatable_pushEvidence l))

/-- A rule is registered. -/
theorem repeatable_addRule (rule : Rule α) : Repeatable fun r => r.addRule rule :=
  (repeatable_addRuleConstants rule).andThen (repeatable_pushRule rule)

variable [Scalar α]

/-- A rule of a program is registered. -/
theorem repeatable_addProgramRule (rule : Rule α) : Repeatable fun r => r.addProgramRule rule := by
  unfold addProgramRule
  split
  · next l _ =>
    refine .ite (.lookup fun p => .ite ?_ (repeatable_addRule rule)) (repeatable_addRule rule)
    exact repeatable_addEvidence l
  · exact repeatable_addRule rule

/-- A program is registered. -/
theorem repeatable_addProgram (p : Program α) : Repeatable fun r => r.addProgram p :=
  (repeatable_addPredicates p.predicates).andThen (.each repeatable_addProgramRule p.rules)

variable [Numeral α]

/-- A rule is registered as a prior. -/
theorem repeatable_addPrior (rule : Rule α) : Repeatable fun r => r.addPrior rule :=
  .ite (.refuse _) ((repeatable_addRuleConstants rule).andThen (repeatable_pushPrior rule))

/-! ### Histories -/

/-- A registration, with the fault if it is refused. -/
def attempt (r : Registry α) : Registration α → Registered α
  | .domain type values => (r.addDomain type values, none)
  | .constants constants => (r.addConstants constants, none)
  | .predicates predicates => r.addPredicates predicates
  | .evidence literals => each addEvidence r literals
  | .pairings pairings => (r.setPairings pairings, none)
  | .hillClimb b => (r.setHillClimb b, none)
  | .priors rules => each addPrior r rules
  | .rules rules => each addRule r rules
  | .program program => r.addProgram program

theorem fst_attempt (r : Registry α) (registration : Registration α) :
    (r.attempt registration).1 = r.register registration := by
  cases registration <;> rfl

end Registry

/-- A setting takes the place of the one before it; all else is added to what is there. -/
def Registration.IsSetting {α : Type} : Registration α → Prop
  | .pairings _ => True
  | .hillClimb _ => True
  | _ => False

namespace Registry

variable {α : Type} [Scalar α] [Numeral α] {r r' : Registry α}

/-- **All but the settings can be repeated.** -/
theorem repeatable_attempt {registration : Registration α} (h : ¬registration.IsSetting) :
    Repeatable fun r => r.attempt registration := by
  cases registration with
  | domain type values => exact repeatable_addDomain type values
  | constants constants => exact repeatable_addConstants constants
  | predicates predicates => exact repeatable_addPredicates predicates
  | evidence literals => exact .each repeatable_addEvidence literals
  | pairings pairings => exact absurd trivial h
  | hillClimb b => exact absurd trivial h
  | priors rules => exact .each repeatable_addPrior rules
  | rules rules => exact .each repeatable_addRule rules
  | program program => exact repeatable_addProgram program

theorem extends_register (r : Registry α) (registration : Registration α) :
    r.Extends (r.register registration) := by
  by_cases h : registration.IsSetting
  · cases registration with
    | pairings pairings => exact { Extends.refl r with orderly := fun h => ⟨h.names, h.ordered⟩ }
    | hillClimb b => exact { Extends.refl r with orderly := fun h => ⟨h.names, h.ordered⟩ }
    | _ => exact h.elim
  · rw [← fst_attempt]
    exact (repeatable_attempt h).grows r

/-- **A history extends a registry.** -/
theorem extends_after (r : Registry α) (history : List (Registration α)) :
    r.Extends (r.after history) := by
  induction history generalizing r with
  | nil => exact Extends.refl r
  | cons registration history ih => exact (r.extends_register registration).trans (ih _)

theorem after_append (r : Registry α) (history history' : List (Registration α)) :
    r.after (history ++ history') = (r.after history).after history' :=
  List.foldl_append

omit [Scalar α] [Numeral α] in
theorem orderly_fresh (method : MergeMethod) (defaultPrior : α) (hillClimb : Bool)
    (threads : Int) : (fresh method defaultPrior hillClimb threads).Orderly where
  names := List.nodup_nil
  ordered := Domains.ordered_empty

/-- After every history names are declared once and constants stand in order. -/
theorem orderly_after (method : MergeMethod) (defaultPrior : α) (hillClimb : Bool) (threads : Int)
    (history : List (Registration α)) :
    ((fresh method defaultPrior hillClimb threads).after history).Orderly :=
  (extends_after _ history).orderly (orderly_fresh method defaultPrior hillClimb threads)

/-- **A registration that has been accepted adds nothing but repetitions when it is made again.** -/
theorem repeats_of_accepted {registration : Registration α} (hadds : ¬registration.IsSetting)
    (haccepted : (r.attempt registration).2 = none) (horderly : r.Orderly)
    (history : List (Registration α)) :
    (r.after (registration :: history)).Repeats
      ((r.after (registration :: history)).register registration) := by
  have hafter : r.after (registration :: history) =
      (r.attempt registration).1.after history := by
    rw [fst_attempt]
    rfl
  rw [← fst_attempt, hafter]
  have hextends := (r.attempt registration).1.extends_after history
  exact ((repeatable_attempt hadds).again haccepted hextends.toWithin
    (hextends.orderly (((repeatable_attempt hadds).grows r).orderly horderly))).2

/-! ### Histories that register the same -/

/-- No registration of a history is refused. -/
def Accepts (r : Registry α) : List (Registration α) → Prop
  | [] => True
  | registration :: history =>
    (r.attempt registration).2 = none ∧ (r.register registration).Accepts history

/-- What a history that is accepted registers is there after it. -/
theorem Accepts.exists_within {history : List (Registration α)} (h : r.Accepts history)
    {registration : Registration α} (hmem : registration ∈ history) :
    ∃ r₁ : Registry α, (r₁.attempt registration).2 = none ∧
      (r₁.attempt registration).1.Within (r.after history) := by
  induction history generalizing r with
  | nil => cases hmem
  | cons first history ih =>
    obtain ⟨hfirst, hrest⟩ := h
    rcases List.mem_cons.1 hmem with rfl | hmem
    · refine ⟨r, hfirst, ?_⟩
      rw [fst_attempt]
      exact ((r.register registration).extends_after history).toWithin
    · exact ih hrest hmem

/-- A history adds nothing to what has all that it registers. -/
theorem within_after {history : List (Registration α)} (hwithin : r.Within r')
    (h : ∀ registration ∈ history, ¬registration.IsSetting → ∃ r₁ : Registry α,
      (r₁.attempt registration).2 = none ∧ (r₁.attempt registration).1.Within r') :
    (r.after history).Within r' := by
  induction history generalizing r with
  | nil => exact hwithin
  | cons registration history ih =>
    obtain ⟨hfirst, hrest⟩ := List.forall_mem_cons.1 h
    refine ih ?_ hrest
    by_cases hsetting : registration.IsSetting
    · cases registration with
      | pairings pairings => exact ⟨hwithin.1, hwithin.2, hwithin.3, hwithin.4, hwithin.5⟩
      | hillClimb b => exact ⟨hwithin.1, hwithin.2, hwithin.3, hwithin.4, hwithin.5⟩
      | _ => exact hsetting.elim
    · obtain ⟨r₁, haccepted, hr₁⟩ := hfirst hsetting
      rw [← fst_attempt]
      exact (repeatable_attempt hsetting).within haccepted hr₁ hwithin

/-- **What a history registers is there after every history that makes the same registrations**, in
whatever order and however often, where none is refused. -/
theorem Accepts.within {history history' : List (Registration α)} (h : r.Accepts history')
    (hsubset : ∀ registration ∈ history, ¬registration.IsSetting → registration ∈ history') :
    (r.after history).Within (r.after history') :=
  within_after (r.extends_after history').toWithin fun _ hmem hsetting =>
    h.exists_within (hsubset _ hmem hsetting)

end Registry

end FactNet
