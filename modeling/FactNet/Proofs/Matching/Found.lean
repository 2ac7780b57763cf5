import Mathlib.Data.List.Basic
import FactNet.Matching.Reader
import FactNet.Proofs.Matching.Search

/-!
# Where rules are found

A rule is found wherever it is true: if its variables can stand for entities so that all its
antecedents are facts, then the search never turns away from these entities, whatever it has bound
before.

The other way round, a variable is looked at in an antecedent when it is bound, and so an
antecedent has been looked at from both ends once both of its variables are bound, the later one
with the entity of the earlier one at hand.  So what is found is true, with two exceptions.  In an
antecedent that relates a free variable to itself, neither end is at hand when the variable is
looked at; it is only made sure that the relation leads somewhere and comes from somewhere.  And a
consequent that relates a variable to itself is bound to the second entity of the pair, so that
little is known of the first.

## Main definitions

* `Bindings.AgreesWith` — bindings that are part of what all variables stand for.
* `MatchRule.IsFreeLoop` — an antecedent that relates a free variable to itself.
* `MatchRule.Supported` — what is known of bindings that the search has come to.

## Main results

* `MatchRule.exists_completion` — **what a rule is true for is among the completions.**
* `MatchRule.occursIn_complete` — **a rule is found where it is true.**
* `MatchRule.Supported.bind`, `MatchRule.Supported.complete` — what is known is kept by each
  binding, and so by a whole completion.
* `MatchRule.occursIn_sound` — **a rule is true where it is found**, up to the two exceptions.
* `MatchRule.occursIn_unsound` — **both exceptions occur.**
-/

namespace FactNet

variable {α : Type} {r : MatchRule α} {g : FactGraph α} {b b' : Bindings} {c : Clause}
  {σ : String → Entity} {x : String} {xs : List String} {e head tail : Entity}

/-! ### Rules are found where they are true -/

/-- Bindings are part of what all variables stand for. -/
def Bindings.AgreesWith (b : Bindings) (σ : String → Entity) : Prop :=
  ∀ x e, b.get? x = some e → σ x = e

theorem Bindings.AgreesWith.bind (h : b.AgreesWith σ) (x : String) :
    (b.bind x (σ x)).AgreesWith σ := by
  intro y e hy
  rw [get?_bind] at hy
  split at hy
  · next hyx => rw [hyx, Option.some.inj hy]
  · exact h y e hy

namespace MatchRule

/-- The entity that a variable stands for is consistent with other such bindings. -/
theorem isConsistent_of_holds (hholds : ∀ c ∈ r.antecedents, c.HoldsIn g σ)
    (hb : b.AgreesWith σ) (x : String) : r.isConsistent g b x (σ x) = true := by
  rw [isConsistent_iff]
  intro c hc
  obtain ⟨hhead, htail, f, hf, hfhead, hfrel, hftail⟩ := hholds c hc
  constructor
  · rintro rfl
    exact headFits_iff.2 ⟨hhead, f, hf, hfhead, hfrel, fun e he => hftail.trans (hb _ e he)⟩
  · rintro rfl
    exact tailFits_iff.2 ⟨htail, f, hf, hftail, hfrel, fun e he => hfhead.trans (hb _ e he)⟩

/-- **What a rule is true for is among the completions** of bindings that are part of it. -/
theorem exists_completion (hholds : ∀ c ∈ r.antecedents, c.HoldsIn g σ)
    (hxs : ∀ x ∈ xs, σ x ∈ g.vertices) (hb : b.AgreesWith σ) :
    ∃ b' ∈ r.completions g xs b, b'.AgreesWith σ := by
  induction xs generalizing b with
  | nil => exact ⟨b, List.mem_singleton_self b, hb⟩
  | cons x xs ih =>
    obtain ⟨hx, hxs⟩ := List.forall_mem_cons.1 hxs
    obtain ⟨b', hb', hagrees⟩ := ih hxs (hb.bind x)
    exact ⟨b', mem_completions_cons.2 ⟨σ x, hx, isConsistent_of_holds hholds hb x, hb'⟩, hagrees⟩

/-- **A rule is found where it is true**, in every graph that additions make. -/
theorem occursIn_complete [Scalar α] (hg : g.Made) (h : r.SatisfiedBy g head tail σ) :
    r.occursIn g head tail = true := by
  obtain ⟨rfl, rfl, hholds⟩ := h
  have hb : (r.bindConsequent (σ r.consequent.headVar) (σ r.consequent.tailVar)).AgreesWith σ := by
    intro y e hy
    rw [get?_bindConsequent] at hy
    split at hy
    · next hytail => rw [hytail, Option.some.inj hy]
    · split at hy
      · next hyhead => rw [hyhead, Option.some.inj hy]
      · cases hy
  have hfree : ∀ x ∈ r.freeVariables (r.bindConsequent (σ r.consequent.headVar)
      (σ r.consequent.tailVar)), σ x ∈ g.vertices := by
    intro x hx
    obtain ⟨⟨c, hc, hxc⟩, -⟩ := mem_freeVariables.1 hx
    obtain ⟨f, hf, hfhead, -, hftail⟩ := (hholds c hc).fact
    obtain ⟨hhead, htail⟩ := hg.mem_vertices hf
    rcases hxc with rfl | rfl
    · exact hfhead ▸ hhead
    · exact hftail ▸ htail
  obtain ⟨b', hb', -⟩ := exists_completion hholds hfree hb
  exact occursIn_iff.2
    ⟨isConsistent_of_holds hholds hb _, isConsistent_of_holds hholds hb _, b', hb'⟩

section Example

/-- Three names of a person. -/
def ann : Entity := ⟨"Ann", .person⟩

@[inherit_doc ann]
def anna : Entity := ⟨"Anna", .person⟩

@[inherit_doc ann]
def annie : Entity := ⟨"Annie", .person⟩

/-- The second is another name for the first, and the third one for the second. -/
def names : FactGraph Float :=
  ⟨[ann, anna, annie],
    [⟨ann, "per:alternate_names", anna, none, none⟩,
      ⟨anna, "per:alternate_names", annie, none, none⟩]⟩

theorem made_names : names.Made :=
  FactGraph.made_ofFacts [⟨ann, "per:alternate_names", anna, none, none⟩,
    ⟨anna, "per:alternate_names", annie, none, none⟩]

/-- A name for a name of a person is a name of the person. -/
def nameOfName : MatchRule Float :=
  ⟨[⟨"x", some .person, "per:alternate_names", "z", none⟩,
      ⟨"z", none, "per:alternate_names", "y", none⟩],
    ⟨"x", none, "per:alternate_names", "y", none⟩, 1⟩

/-- The third name is found to be one for the first, through the second. -/
theorem occursIn_complete_names : ∃ σ : String → Entity,
    σ "z" = anna ∧ nameOfName.SatisfiedBy names ann annie σ ∧
      nameOfName.occursIn names ann annie = true := by
  let σ : String → Entity := fun x => if x = "x" then ann else if x = "z" then anna else annie
  have h : nameOfName.SatisfiedBy names ann annie σ := by
    refine ⟨rfl, rfl, fun c hc => ?_⟩
    simp only [nameOfName, List.mem_cons, List.not_mem_nil, or_false] at hc
    rcases hc with rfl | rfl
    · exact ⟨rfl, rfl, _, .head _, rfl, rfl, rfl⟩
    · exact ⟨rfl, rfl, _, .tail _ (.head _), rfl, rfl, rfl⟩
  exact ⟨σ, rfl, h, occursIn_complete made_names h⟩

end Example

/-! ### What is found is true -/

/-- An antecedent relates a variable to itself that the consequent does not have. -/
def IsFreeLoop (r : MatchRule α) (c : Clause) : Prop :=
  c.headVar = c.tailVar ∧ c.headVar ∉ r.consequent.vars

/-- What is known of bindings that the search has come to. -/
structure Supported (r : MatchRule α) (g : FactGraph α) (b : Bindings) : Prop where
  /-- The variables of the consequent are bound. -/
  consequent : ∀ x ∈ r.consequent.vars, ∃ e, b.get? x = some e
  /-- The relation of an antecedent leads on from the entity that its head is bound to. -/
  head : ∀ c ∈ r.antecedents, ∀ e, b.get? c.headVar = some e → fitsType c.headType e = true ∧
    ∃ f ∈ g.facts, f.head = e ∧ f.relation = c.relation
  /-- The relation of an antecedent comes to the entity that its tail is bound to. -/
  tail : ∀ c ∈ r.antecedents, ∀ e, b.get? c.tailVar = some e → fitsType c.tailType e = true ∧
    ∃ f ∈ g.facts, f.tail = e ∧ f.relation = c.relation
  /-- An antecedent with both ends bound is a fact, unless it relates a free variable to itself. -/
  fact : ∀ c ∈ r.antecedents, ¬r.IsFreeLoop c → ∀ e e', b.get? c.headVar = some e →
    b.get? c.tailVar = some e' → ∃ f ∈ g.facts, f.head = e ∧ f.relation = c.relation ∧ f.tail = e'

section Consistent

variable {c : Clause} {e e' : Entity}

/-- The relation of an antecedent leads on from an entity that is consistent at its head. -/
theorem exists_from_of_isConsistent (he : r.isConsistent g b c.headVar e = true)
    (hc : c ∈ r.antecedents) : fitsType c.headType e = true ∧
      ∃ f ∈ g.facts, f.head = e ∧ f.relation = c.relation := by
  obtain ⟨hfits, f, hf, hhead, hrel, -⟩ := headFits_iff.1 ((isConsistent_iff.1 he c hc).1 rfl)
  exact ⟨hfits, f, hf, hhead, hrel⟩

/-- The relation of an antecedent comes to an entity that is consistent at its tail. -/
theorem exists_to_of_isConsistent (he : r.isConsistent g b c.tailVar e = true)
    (hc : c ∈ r.antecedents) : fitsType c.tailType e = true ∧
      ∃ f ∈ g.facts, f.tail = e ∧ f.relation = c.relation := by
  obtain ⟨hfits, f, hf, htail, hrel, -⟩ := tailFits_iff.1 ((isConsistent_iff.1 he c hc).2 rfl)
  exact ⟨hfits, f, hf, htail, hrel⟩

/-- An antecedent is a fact if its tail is bound and an entity is consistent at its head. -/
theorem exists_fact_of_isConsistent_head (he : r.isConsistent g b c.headVar e = true)
    (hc : c ∈ r.antecedents) (he' : b.get? c.tailVar = some e') :
    ∃ f ∈ g.facts, f.head = e ∧ f.relation = c.relation ∧ f.tail = e' := by
  obtain ⟨-, f, hf, hhead, hrel, htail⟩ := headFits_iff.1 ((isConsistent_iff.1 he c hc).1 rfl)
  exact ⟨f, hf, hhead, hrel, htail e' he'⟩

/-- An antecedent is a fact if its head is bound and an entity is consistent at its tail. -/
theorem exists_fact_of_isConsistent_tail (he' : r.isConsistent g b c.tailVar e' = true)
    (hc : c ∈ r.antecedents) (he : b.get? c.headVar = some e) :
    ∃ f ∈ g.facts, f.head = e ∧ f.relation = c.relation ∧ f.tail = e' := by
  obtain ⟨-, f, hf, htail, hrel, hhead⟩ := tailFits_iff.1 ((isConsistent_iff.1 he' c hc).2 rfl)
  exact ⟨f, hf, hhead e he, hrel, htail⟩

end Consistent

/-- Where all bound variables are consistent with each other, even loops have been looked at. -/
theorem supported_of_consistent (hcons : ∀ x ∈ r.consequent.vars, ∃ e, b.get? x = some e)
    (h : ∀ x e, b.get? x = some e → r.isConsistent g b x e = true) : r.Supported g b where
  consequent := hcons
  head _ hc e he := exists_from_of_isConsistent (h _ e he) hc
  tail _ hc e he := exists_to_of_isConsistent (h _ e he) hc
  fact _ hc _ e _ he he' := exists_fact_of_isConsistent_head (h _ e he) hc he'

/-- A consequent with both ends consistent is supported. -/
theorem supported_bindConsequent
    (hhead : r.isConsistent g (r.bindConsequent head tail) r.consequent.headVar head = true)
    (htail : r.isConsistent g (r.bindConsequent head tail) r.consequent.tailVar tail = true) :
    r.Supported g (r.bindConsequent head tail) := by
  refine supported_of_consistent (fun x hx => ?_) fun x e he => ?_
  · rw [Clause.vars, List.mem_pair] at hx
    rw [get?_bindConsequent]
    split
    · exact ⟨tail, rfl⟩
    · next hne => exact ⟨head, if_pos (hx.resolve_right hne)⟩
  · rw [get?_bindConsequent] at he
    split at he
    · next hx => rwa [hx, ← Option.some.inj he]
    · split at he
      · next hx => rwa [hx, ← Option.some.inj he]
      · cases he

/-- **Binding one more variable to a consistent entity keeps what is known.** -/
theorem Supported.bind (h : r.Supported g b) (hx : b.get? x = none)
    (he : r.isConsistent g b x e = true) : r.Supported g (b.bind x e) := by
  refine ⟨fun y hy => ?_, fun c hc e₁ h₁ => ?_, fun c hc e₂ h₂ => ?_,
    fun c hc hloop e₁ e₂ h₁ h₂ => ?_⟩
  · rw [Bindings.get?_bind]
    split
    · exact ⟨e, rfl⟩
    · exact h.consequent y hy
  · rw [Bindings.get?_bind] at h₁
    split at h₁
    · next hxc =>
      subst hxc
      obtain rfl := Option.some.inj h₁
      exact exists_from_of_isConsistent he hc
    · exact h.head c hc e₁ h₁
  · rw [Bindings.get?_bind] at h₂
    split at h₂
    · next hxc =>
      subst hxc
      obtain rfl := Option.some.inj h₂
      exact exists_to_of_isConsistent he hc
    · exact h.tail c hc e₂ h₂
  · -- the end that is bound later was looked at with the other one at hand
    rw [Bindings.get?_bind] at h₁ h₂
    split at h₁ <;> split at h₂
    · next hxhead hxtail =>
      refine absurd ⟨hxhead.trans hxtail.symm, fun hmem => ?_⟩ hloop
      obtain ⟨e', he'⟩ := h.consequent _ hmem
      rw [hxhead, hx] at he'
      cases he'
    · next hxhead _ =>
      subst hxhead
      obtain rfl := Option.some.inj h₁
      exact exists_fact_of_isConsistent_head he hc h₂
    · next _ hxtail =>
      subst hxtail
      obtain rfl := Option.some.inj h₂
      exact exists_fact_of_isConsistent_tail he hc h₁
    · exact h.fact c hc hloop e₁ e₂ h₁ h₂

/-- **A whole completion keeps what is known.** -/
theorem Supported.complete (h : r.Supported g b) (hfree : ∀ x ∈ xs, b.get? x = none)
    (hnodup : xs.Nodup) (hb' : b' ∈ r.completions g xs b) : r.Supported g b' := by
  induction xs generalizing b with
  | nil =>
    obtain rfl : b' = b := List.mem_singleton.1 hb'
    exact h
  | cons x xs ih =>
    obtain ⟨hx, hfree⟩ := List.forall_mem_cons.1 hfree
    obtain ⟨hnotMem, hnodup⟩ := List.nodup_cons.1 hnodup
    obtain ⟨e, -, he, hrest⟩ := mem_completions_cons.1 hb'
    refine ih (h.bind hx he) (fun y hy => ?_) hnodup hrest
    have hyx : y ≠ x := fun hyx => hnotMem (hyx ▸ hy)
    rw [Bindings.get?_bind, if_neg hyx]
    exact hfree y hy

/-- **A rule is true where it is found**, up to two exceptions.

Of an antecedent that relates a free variable to itself it is only known that its relation leads on
from the entity and comes to it.  A consequent that relates a variable to itself is about the second
entity of the pair, and about the first one only if they are the same. -/
theorem occursIn_sound (h : r.occursIn g head tail = true) : ∃ σ : String → Entity,
    (σ r.consequent.tailVar = tail ∧
      (r.consequent.headVar ≠ r.consequent.tailVar ∨ head = tail →
        σ r.consequent.headVar = head) ∧
      ∀ c ∈ r.antecedents,
        (fitsType c.headType (σ c.headVar) = true ∧
          ∃ f ∈ g.facts, f.head = σ c.headVar ∧ f.relation = c.relation) ∧
        (fitsType c.tailType (σ c.tailVar) = true ∧
          ∃ f ∈ g.facts, f.tail = σ c.tailVar ∧ f.relation = c.relation) ∧
        (¬r.IsFreeLoop c → c.HoldsIn g σ)) ∧
    (r.consequent.headVar ≠ r.consequent.tailVar ∨ head = tail →
      (∀ c ∈ r.antecedents, ¬r.IsFreeLoop c) → r.SatisfiedBy g head tail σ) := by
  obtain ⟨hhead, htail, b', hb'⟩ := occursIn_iff.1 h
  have hsupported : r.Supported g b' := (supported_bindConsequent hhead htail).complete
    (fun x hx => (mem_freeVariables.1 hx).2) nodup_freeVariables hb'
  -- the completion that was found binds all that the antecedents mention
  let σ : String → Entity := fun x => (b'.get? x).getD tail
  have hkept : ∀ {x e}, (r.bindConsequent head tail).get? x = some e → σ x = e := by
    intro x e he
    simp [σ, get?_of_completed hb' he]
  have hbound : ∀ c ∈ r.antecedents, ∀ x, (x = c.headVar ∨ x = c.tailVar) →
      b'.get? x = some (σ x) := by
    intro c hc x hx
    obtain ⟨e, he⟩ := exists_get?_of_completed hb' hc hx
    simp [σ, he]
  have hσtail : σ r.consequent.tailVar = tail := hkept (get?_bindConsequent.trans (if_pos rfl))
  have hσhead : r.consequent.headVar ≠ r.consequent.tailVar ∨ head = tail →
      σ r.consequent.headVar = head := by
    intro hpair
    by_cases hsame : r.consequent.headVar = r.consequent.tailVar
    · rw [hsame, hσtail, hpair.resolve_left fun hne => hne hsame]
    · exact hkept (get?_bindConsequent.trans ((if_neg hsame).trans (if_pos rfl)))
  have hholds : ∀ c ∈ r.antecedents, ¬r.IsFreeLoop c → c.HoldsIn g σ := by
    intro c hc hloop
    have hchead := hbound c hc _ (.inl rfl)
    have hctail := hbound c hc _ (.inr rfl)
    exact ⟨(hsupported.head c hc _ hchead).1, (hsupported.tail c hc _ hctail).1,
      hsupported.fact c hc hloop _ _ hchead hctail⟩
  refine ⟨σ, ⟨hσtail, hσhead, fun c hc => ⟨?_, ?_, hholds c hc⟩⟩, fun hpair hloops => ?_⟩
  · exact hsupported.head c hc _ (hbound c hc _ (.inl rfl))
  · exact hsupported.tail c hc _ (hbound c hc _ (.inr rfl))
  · exact ⟨hσhead hpair, hσtail, fun c hc => hholds c hc (hloops c hc)⟩

/-- That the third name is found to be one for the first has a reason. -/
theorem occursIn_sound_names : nameOfName.occursIn names ann annie = true ∧
    ∃ σ, nameOfName.SatisfiedBy names ann annie σ := by
  have hfound : nameOfName.occursIn names ann annie = true := by decide
  obtain ⟨σ, -, htrue⟩ := occursIn_sound hfound
  refine ⟨hfound, σ, htrue (.inl (by decide)) fun c hc hloop => ?_⟩
  simp only [nameOfName, List.mem_cons, List.not_mem_nil, or_false] at hc
  rcases hc with rfl | rfl
  · exact absurd hloop.1 (by decide)
  · exact absurd hloop.1 (by decide)

/-- Any two are names of one person if anything is a name for itself. -/
def nameForSelf : MatchRule Float :=
  ⟨[⟨"z", none, "per:alternate_names", "z", none⟩],
    ⟨"x", none, "per:alternate_names", "y", none⟩, 1⟩

/-- Who has another name has their own as well. -/
def ownName : MatchRule Float :=
  ⟨[⟨"x", none, "per:alternate_names", "z", none⟩],
    ⟨"x", none, "per:alternate_names", "x", none⟩, 1⟩

/-- A rule is read from an antecedent and the consequent after it. -/
theorem readClauses_pair {signatures : Signatures} {cs ds : List Char} {d : Clause}
    (hc : readClause? signatures (Text.trim cs) = some (true, c))
    (hd : readClause? signatures (Text.trim ds) = some (false, d)) :
    readClauses signatures {} [cs, ds] = .ok ⟨[c], some d, [c.relation, d.relation]⟩ := by
  simp [readClauses, hc, hd, Clause.insertInto]

/-- **Both exceptions occur**, for clauses that are read as those of a rule.

Nothing is a name for itself, but a rule that asks for it is found, since the second name is one for
the first and has one itself.  And a rule about someone and themselves is found for two names. -/
theorem occursIn_unsound : names.Made ∧
    (readClauses [] {}
        (Program.disjuncts "!per:alternate_names(z,z) v per:alternate_names(x,y)".toList) =
        .ok ⟨nameForSelf.antecedents, some nameForSelf.consequent,
          ["per:alternate_names", "per:alternate_names"]⟩ ∧
      nameForSelf.occursIn names ann annie = true ∧
      ¬∃ σ, nameForSelf.SatisfiedBy names ann annie σ) ∧
    (readClauses [] {}
        (Program.disjuncts "!per:alternate_names(x,z) v per:alternate_names(x,x)".toList) =
        .ok ⟨ownName.antecedents, some ownName.consequent,
          ["per:alternate_names", "per:alternate_names"]⟩ ∧
      ownName.occursIn names ann anna = true ∧
      ¬∃ σ, ownName.SatisfiedBy names ann anna σ) := by
  refine ⟨made_names, ⟨?_, by decide, ?_⟩, ?_, by decide, ?_⟩
  · have hparts :
        Program.disjuncts "!per:alternate_names(z,z) v per:alternate_names(x,y)".toList =
          ["!per:alternate_names(z,z)".toList, "per:alternate_names(x,y)".toList] := by
      decide +kernel
    rw [hparts]
    exact readClauses_pair (by decide +kernel) (by decide +kernel)
  · -- the antecedent holds of an entity only if that is a name of itself
    rintro ⟨σ, -, -, hholds⟩
    obtain ⟨f, hf, hhead, -, htail⟩ := (hholds _ (.head _)).fact
    have hself : f.head = f.tail := hhead.trans htail.symm
    revert hself
    simp only [names, List.mem_cons, List.not_mem_nil, or_false] at hf
    rcases hf with rfl | rfl
    · decide
    · decide
  · have hparts :
        Program.disjuncts "!per:alternate_names(x,z) v per:alternate_names(x,x)".toList =
          ["!per:alternate_names(x,z)".toList, "per:alternate_names(x,x)".toList] := by
      decide +kernel
    rw [hparts]
    exact readClauses_pair (by decide +kernel) (by decide +kernel)
  · rintro ⟨σ, hhead, htail, -⟩
    exact absurd (hhead.symm.trans htail) (by decide)

end MatchRule

end FactNet
