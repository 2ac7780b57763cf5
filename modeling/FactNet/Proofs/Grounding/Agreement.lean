import FactNet.Proofs.Grounding.Dealing
import FactNet.Proofs.Grounding.Implications
import FactNet.Proofs.LogProb

/-!
# Consequents of which the same is said

Two registries may number the same literal in different ways and ground the same implications in
different orders.  Where the same is said of a literal in both, the same becomes of it: it is
fixed to the same value, or has priors of the same log-probability; and there is a rule in both
that is too wide or in neither.  Over exact numbers its tables have the same entries, too.

## Main definitions

* `GroundedRule.IsWeighted` — the log-probabilities of a rule are those of a weight.
* `Said` — grounded rules say something of one consequent.
* `SameSaid` — grounded rules of two registries say the same.
* `GroundState.world` — the world in which literals have given values.

## Main results

* `SameSaid.fixedBy?_eq`, `SameSaid.width_eq`, `SameSaid.ifTrue_keptPrior` — **what is the same for
  both**, whatever the numbers.
* `SameSaid.exactLogProb_eq` — **tables of the same rules stand for the same log-probability** over
  exact numbers.
-/

namespace FactNet

open Scalar GroundState

/-! ### Rules with a weight -/

/-- The log-probabilities of a rule are those of a weight, as they are stored. -/
def GroundedRule.IsWeighted (g : GroundedRule EReal) : Prop :=
  ∃ w, g.ifTrue = LogProb.clip (LogProb.logSigmoid w) ∧
    g.ifFalse = LogProb.clip (LogProb.logSigmoid (-w))

namespace GroundedRule.IsWeighted

variable {g g' : GroundedRule EReal}

theorem isProb (h : g.IsWeighted) : g.IsProb := by
  obtain ⟨w, htrue, hfalse⟩ := h
  exact ⟨htrue ▸ (LogProb.clip_mem _).2, hfalse ▸ (LogProb.clip_mem _).2⟩

theorem ne_bot (h : g.IsWeighted) : g.ifTrue ≠ ⊥ := by
  obtain ⟨w, htrue, -⟩ := h
  rw [htrue]
  exact (LogProb.clip_mem _).1.ne'

/-- The log-probability of truth tells that of falsehood. -/
theorem ifFalse_eq (h : g.IsWeighted) (h' : g'.IsWeighted) (heq : g.ifTrue = g'.ifTrue) :
    g.ifFalse = g'.ifFalse := by
  obtain ⟨w, htrue, hfalse⟩ := h
  obtain ⟨w', htrue', hfalse'⟩ := h'
  rw [htrue, htrue'] at heq
  rw [hfalse, hfalse', LogProb.logSigmoid_neg, LogProb.logSigmoid_neg]
  exact LogProb.clip_congr_opposite heq

end GroundedRule.IsWeighted

/-- Every rule has a weight. -/
def AreWeighted (rules : List (GroundedRule EReal)) : Prop := ∀ g ∈ rules, g.IsWeighted

/-! ### What is said of one consequent -/

section Said

variable {α : Type}

/-- Grounded rules whose variables have numbers say something of one consequent. -/
structure Said (s : GroundState α) (c : Nat) (rules : List (GroundedRule α)) : Prop where
  distinct : s.Distinct
  numbers : ∀ g ∈ rules, s.Numbers g
  consequent : ∀ g ∈ rules, g.consequent = c

/-- The world in which the literals have given values. -/
def GroundState.world (s : GroundState α) (u : Literal → Bool) : World :=
  s.literals.map u

theorem GroundState.size_world (s : GroundState α) (u : Literal → Bool) :
    (s.world u).size = s.literals.size :=
  Array.size_map

theorem GroundState.value_world (s : GroundState α) (u : Literal → Bool) {i : Nat}
    (h : i < s.literals.size) : (s.world u).value i = u (s.literalOf i) := by
  simp [world, World.value, literalOf, h]

namespace Said

variable {s : GroundState α} {c : Nat} {rules : List (GroundedRule α)}

theorem subset {rules' : List (GroundedRule α)} (h : Said s c rules) (hsubset : rules' ⊆ rules) :
    Said s c rules' where
  distinct := h.distinct
  numbers g hg := h.numbers g (hsubset hg)
  consequent g hg := h.consequent g (hsubset hg)

/-- Rules have as many antecedents as the implications that they are read as. -/
theorem width_eq (h : Said s c rules) : width rules =
    (firsts ((rules.map (GroundedRule.spell s.literalOf)).flatMap (·.antecedents))).length := by
  have hspell : (rules.map (GroundedRule.spell s.literalOf)).flatMap (·.antecedents) =
      (rules.flatMap (·.antecedents)).map s.literalOf := by
    rw [List.flatMap_map, List.map_flatMap]
    rfl
  have hlt : ∀ a ∈ rules.flatMap (·.antecedents), a < s.literals.size := by
    intro a ha
    obtain ⟨g, hg, ha⟩ := List.mem_flatMap.1 ha
    exact (h.numbers g hg).2 a ha
  rw [FactNet.width_eq, hspell, eraseDups_eq_firsts,
    firsts_map fun a ha b hb => literalOf_injOn h.distinct (hlt a ha) (hlt b hb), List.length_map]

theorem lt (h : Said s c rules) (hne : rules ≠ []) : c < s.literals.size := by
  obtain ⟨g, hg⟩ := List.exists_mem_of_ne_nil rules hne
  exact h.consequent g hg ▸ (h.numbers g hg).1

end Said

/-- A log-probability is stored with one of the rules. -/
def Stores (rules : List (GroundedRule α)) (x : α) : Prop :=
  ∃ g ∈ rules, x = g.ifTrue ∨ x = g.ifFalse

/-- Where stored log-probabilities are told apart, so are the rules. -/
theorem Scalar.Comparable.eraseDups_eq_firsts [Scalar α] {rules : List (GroundedRule α)}
    (h : Comparable (Stores rules)) : rules.eraseDups = firsts rules := by
  refine eraseDups_eq_firsts_of fun g hg g' hg' => ?_
  have htrue := h.beq_iff ⟨g, hg, .inl rfl⟩ ⟨g', hg', .inl rfl⟩
  have hfalse := h.beq_iff ⟨g, hg, .inr rfl⟩ ⟨g', hg', .inr rfl⟩
  obtain ⟨name, ifTrue, ifFalse, consequent, antecedents⟩ := g
  obtain ⟨name', ifTrue', ifFalse', consequent', antecedents'⟩ := g'
  change (name == name' && ifTrue == ifTrue' && ifFalse == ifFalse' && consequent == consequent'
    && antecedents == antecedents') = true ↔ _
  simp only [Bool.and_eq_true, beq_iff_eq, GroundedRule.mk.injEq, htrue, hfalse, and_assoc]

end Said

/-! ### What is said of a literal in two registries -/

/-- Grounded rules of two registries say the same of a literal. -/
structure SameSaid {α : Type} (s s' : GroundState α) (c c' : Nat)
    (rules rules' : List (GroundedRule α)) : Prop where
  said : Said s c rules
  said' : Said s' c' rules'
  mem_iff : ∀ x, x ∈ rules.map (GroundedRule.spell s.literalOf) ↔
    x ∈ rules'.map (GroundedRule.spell s'.literalOf)

namespace SameSaid

section

variable {α : Type} {s s' : GroundState α} {c c' : Nat} {rules rules' : List (GroundedRule α)}

theorem symm (h : SameSaid s s' c c' rules rules') : SameSaid s' s c' c rules' rules where
  said := h.said'
  said' := h.said
  mem_iff x := (h.mem_iff x).symm

/-- For every rule there is one that says the same. -/
theorem exists_spell_eq (h : SameSaid s s' c c' rules rules') {g : GroundedRule α}
    (hg : g ∈ rules) : ∃ g' ∈ rules', g'.spell s'.literalOf = g.spell s.literalOf :=
  List.mem_map.1 ((h.mem_iff _).1 (List.mem_map_of_mem hg))

/-- For every rule there is one with the same log-probabilities, and it has antecedents if that
does. -/
theorem exists_logs_eq (h : SameSaid s s' c c' rules rules') {g : GroundedRule α} (hg : g ∈ rules) :
    ∃ g' ∈ rules', g'.logs = g.logs ∧ g'.isUnit = g.isUnit := by
  obtain ⟨g', hg', heq⟩ := h.exists_spell_eq hg
  refine ⟨g', hg', ?_, ?_⟩
  · exact Prod.ext (congrArg Implication.ifTrue heq) (congrArg Implication.ifFalse heq)
  · have hantecedents : g'.antecedents.map s'.literalOf = g.antecedents.map s.literalOf :=
      congrArg Implication.antecedents heq
    rw [GroundedRule.isUnit, GroundedRule.isUnit, ← List.isEmpty_map, hantecedents,
      List.isEmpty_map]

/-- The consequents are one literal. -/
theorem literalOf_eq (h : SameSaid s s' c c' rules rules') (hne : rules ≠ []) :
    s.literalOf c = s'.literalOf c' := by
  obtain ⟨g, hg⟩ := List.exists_mem_of_ne_nil rules hne
  obtain ⟨g', hg', heq⟩ := h.exists_spell_eq hg
  have hliteral : s'.literalOf g'.consequent = s.literalOf g.consequent :=
    congrArg Implication.consequent heq
  rw [← h.said.consequent g hg, ← h.said'.consequent g' hg', hliteral]

theorem ne_nil (h : SameSaid s s' c c' rules rules') (hne : rules ≠ []) : rules' ≠ [] := by
  obtain ⟨g, hg⟩ := List.exists_mem_of_ne_nil rules hne
  obtain ⟨g', hg', -⟩ := h.exists_spell_eq hg
  exact List.ne_nil_of_mem hg'

/-- How many antecedents there are depends on what is said. -/
theorem width_eq (h : SameSaid s s' c c' rules rules') : width rules = width rules' := by
  rw [h.said.width_eq, h.said'.width_eq]
  refine (perm_firsts fun a => ?_).length_eq
  simp only [List.mem_flatMap, h.mem_iff]

/-- Whether a rule is too wide depends on what is said. -/
theorem exists_wide (h : SameSaid s s' c c' rules rules')
    (hwide : ∃ g ∈ rules, tableCeiling ≤ width [g]) : ∃ g ∈ rules', tableCeiling ≤ width [g] := by
  obtain ⟨g, hg, hwide⟩ := hwide
  obtain ⟨g', hg', heq⟩ := h.exists_spell_eq hg
  have hsingle : SameSaid s s' c c' [g] [g'] := by
    refine ⟨h.said.subset (by simpa using hg), h.said'.subset (by simpa using hg'), fun x => ?_⟩
    simp [heq]
  exact ⟨g', hg', hsingle.width_eq ▸ hwide⟩

/-- The stored log-probabilities are the same. -/
theorem stores_eq (h : SameSaid s s' c c' rules rules') : Stores rules = Stores rules' := by
  have hsubset : ∀ {s s' : GroundState α} {c c' : Nat} {rules rules' : List (GroundedRule α)},
      SameSaid s s' c c' rules rules' → ∀ x, Stores rules x → Stores rules' x := by
    rintro s s' c c' rules rules' h x ⟨g, hg, hx⟩
    obtain ⟨g', hg', hlogs, -⟩ := h.exists_logs_eq hg
    exact ⟨g', hg', hx.imp (·.trans (congrArg Prod.fst hlogs).symm)
      (·.trans (congrArg Prod.snd hlogs).symm)⟩
  funext x
  exact propext ⟨hsubset h x, hsubset h.symm x⟩

/-- What holds of the log-probabilities of truth holds for both. -/
theorem all_ifTrue (h : SameSaid s s' c c' rules rules') {p : α → Bool}
    (hall : (rules'.all fun g => p g.ifTrue) = true) : (rules.all fun g => p g.ifTrue) = true := by
  refine List.all_eq_true.2 fun g hg => ?_
  obtain ⟨g', hg', hlogs, -⟩ := h.exists_logs_eq hg
  have htrue : g'.ifTrue = g.ifTrue := congrArg Prod.fst hlogs
  exact htrue ▸ List.all_eq_true.1 hall g' hg'

/-- What is read of priors is read of those of both. -/
theorem exists_unit (h : SameSaid s s' c c' rules rules') {γ : Type} {f : GroundedRule α → γ}
    (hf : ∀ g g' : GroundedRule α, g.logs = g'.logs → f g = f g') {x : α × γ}
    (hx : ∃ g ∈ firsts rules, g.isUnit = true ∧ (g.ifTrue, f g) = x) :
    ∃ g ∈ firsts rules', g.isUnit = true ∧ (g.ifTrue, f g) = x := by
  obtain ⟨g, hg, hunit, rfl⟩ := hx
  obtain ⟨g', hg', hlogs, hsame⟩ := h.exists_logs_eq (mem_firsts.1 hg)
  refine ⟨g', mem_firsts.2 hg', hsame.trans hunit, ?_⟩
  have htrue : g'.ifTrue = g.ifTrue := congrArg Prod.fst hlogs
  rw [htrue, hf g' g hlogs]

variable [Scalar α]

/-- **Whether a consequent is fixed depends on what is said of it.** -/
theorem fixedBy?_eq (h : SameSaid s s' c c' rules rules') : fixedBy? rules = fixedBy? rules' := by
  have hall : ∀ p : α → Bool, (rules.all fun g => p g.ifTrue) =
      rules'.all fun g => p g.ifTrue := fun p =>
    Bool.eq_iff_iff.2 ⟨h.symm.all_ifTrue, h.all_ifTrue⟩
  unfold fixedBy?
  rw [hall fun x => decide (x < fixFalseBelow), hall fun x => decide (fixTrueAbove < x)]

variable {r r' : Registry α}

/-- **What is read of the priors that are kept is the same**, where it is read of their
log-probabilities and told by that of truth. -/
theorem read_keptPrior (h : SameSaid s s' c c' rules rules') (hcomparable : Comparable (Stores rules))
    (hdefault : r.defaultPrior = r'.defaultPrior) {γ : Type} (f : GroundedRule α → γ)
    (hf : ∀ g g' : GroundedRule α, g.logs = g'.logs → f g = f g')
    (htells : ∀ g ∈ rules, ∀ g' ∈ rules, g.ifTrue = g'.ifTrue → f g = f g') :
    f (r.keptPrior c rules) = f (r'.keptPrior c' rules') := by
  have hcomparable' : Comparable (Stores rules') := h.stores_eq ▸ hcomparable
  rw [Registry.keptPrior, Registry.keptPrior, hcomparable.eraseDups_eq_firsts,
    hcomparable'.eraseDups_eq_firsts]
  refine choosePrior_congr f hcomparable ?_ ?_
    (fun x => ⟨h.exists_unit hf, h.symm.exists_unit hf⟩) ?_
  · exact fun g hg _ => ⟨g, mem_firsts.1 hg, .inl rfl⟩
  · refine hf _ _ ?_
    rw [hdefault]
    rfl
  · exact fun g hg g' hg' _ _ => htells g (mem_firsts.1 hg) g' (mem_firsts.1 hg')

/-- **The priors that are kept have the same log-probability of truth.** -/
theorem ifTrue_keptPrior (h : SameSaid s s' c c' rules rules')
    (hcomparable : Comparable (Stores rules)) (hdefault : r.defaultPrior = r'.defaultPrior) :
    (r.keptPrior c rules).ifTrue = (r'.keptPrior c' rules').ifTrue :=
  h.read_keptPrior hcomparable hdefault (·.ifTrue) (fun _ _ hlogs => congrArg Prod.fst hlogs)
    fun _ _ _ _ => id

end

/-! ### Tables over exact numbers -/

variable {s s' : GroundState EReal} {c c' : Nat} {rules rules' : List (GroundedRule EReal)}

theorem areWeighted (h : SameSaid s s' c c' rules rules') (hw : AreWeighted rules) :
    AreWeighted rules' := by
  intro g' hg'
  obtain ⟨g, hg, hlogs, -⟩ := h.symm.exists_logs_eq hg'
  obtain ⟨w, htrue, hfalse⟩ := hw g hg
  exact ⟨w, (congrArg Prod.fst hlogs).symm.trans htrue, (congrArg Prod.snd hlogs).symm.trans hfalse⟩

/-- **The rules that are dealt out say the same**, each equally often. -/
theorem perm_dealt (h : SameSaid s s' c c' rules rules') :
    ((Registry.dealt rules).map (GroundedRule.tells s.literalOf)).Perm
      ((Registry.dealt rules').map (GroundedRule.tells s'.literalOf)) := by
  have hspell : ∀ {s : GroundState EReal} {c : Nat} {rules : List (GroundedRule EReal)},
      Said s c rules → (Registry.dealt rules).map (GroundedRule.tells s.literalOf) =
        ((firsts (rules.map (GroundedRule.spell s.literalOf))).filter
          fun x => !x.antecedents.isEmpty).map
            fun x => ((x.ifTrue, x.ifFalse), x.antecedents) := by
    intro s c rules h
    have hinj : ∀ g ∈ rules, ∀ g' ∈ rules,
        g.spell s.literalOf = g'.spell s.literalOf → g = g' := fun g hg g' hg' =>
      eq_of_spell_eq h.distinct (h.numbers g hg) (h.numbers g' hg')
    rw [firsts_map hinj, List.filter_map, List.map_map, Registry.dealt, eraseDups_eq_firsts]
    have hunit : (fun x : Implication EReal => !x.antecedents.isEmpty) ∘
        GroundedRule.spell s.literalOf = fun g => !g.isUnit := by
      funext g
      simp [GroundedRule.spell, GroundedRule.isUnit]
    rw [hunit]
    rfl
  rw [hspell h.said, hspell h.said']
  exact ((perm_firsts h.mem_iff).filter _).map _

variable {r r' : Registry EReal}

/-- **The priors that are kept have the same log-probabilities.** -/
theorem logs_keptPrior (h : SameSaid s s' c c' rules rules') (hw : AreWeighted rules)
    (hdefault : r.defaultPrior = r'.defaultPrior) :
    (r.keptPrior c rules).logs = (r'.keptPrior c' rules').logs :=
  h.read_keptPrior (comparable_ereal _) hdefault GroundedRule.logs (fun _ _ => id)
    fun g hg g' hg' htrue => Prod.ext htrue ((hw g hg).ifFalse_eq (hw g' hg') htrue)

/-- **The rows of tables of all rules say the same**, each equally often. -/
theorem perm_rows (h : SameSaid s s' c c' rules rules') (hw : AreWeighted rules)
    (hdefault : r.defaultPrior = r'.defaultPrior) (hnil : (r.keptPrior c rules).antecedents = [])
    (hnil' : (r'.keptPrior c' rules').antecedents = []) {b b' : List (GroundedRule EReal)}
    (hb : b.Perm (Registry.dealt rules)) (hb' : b'.Perm (Registry.dealt rules')) :
    ((r.tableWith (r.keptPrior c rules) b).rows.map (GroundedRule.tells s.literalOf)).Perm
      ((r'.tableWith (r'.keptPrior c' rules') b').rows.map (GroundedRule.tells s'.literalOf)) := by
  have hprior : (r.keptPrior c rules).tells s.literalOf =
      (r'.keptPrior c' rules').tells s'.literalOf := by
    rw [GroundedRule.tells, GroundedRule.tells, h.logs_keptPrior hw hdefault, hnil, hnil']
    rfl
  have hbatch : ((r.keptPrior c rules :: b).map (GroundedRule.tells s.literalOf)).Perm
      ((r'.keptPrior c' rules' :: b').map (GroundedRule.tells s'.literalOf)) := by
    rw [List.map_cons, List.map_cons, hprior]
    exact (((hb.map _).trans h.perm_dealt).trans (hb'.map _).symm).cons _
  exact ((Registry.perm_rows_tableWith _ _ _).map _).trans
    (hbatch.trans ((Registry.perm_rows_tableWith _ _ _).map _).symm)

end SameSaid

namespace Said

variable {s : GroundState EReal} {c : Nat} {rules b : List (GroundedRule EReal)}
  {r : Registry EReal}

theorem areSound (h : Said s c rules) (hw : AreWeighted rules) : AreSound c rules where
  consequent := h.consequent
  isProb g hg := (hw g hg).isProb
  ne_bot g hg _ := (hw g hg).ne_bot

/-- A world has the values of the literals where a table of the consequent reads it. -/
theorem value_world (h : Said s c rules) (hnil : (r.keptPrior c rules).antecedents = [])
    (hb : ∀ g ∈ b, g ∈ rules) (u : Literal → Bool) :
    ∀ g ∈ (r.tableWith (r.keptPrior c rules) b).rows, ∀ a ∈ g.antecedents,
      (s.world u).value a = u (s.literalOf a) := by
  intro g hg a ha
  rcases Registry.mem_rows_tableWith.1 hg with rfl | hg
  · rw [hnil] at ha
    cases ha
  · exact s.value_world u ((h.numbers g (hb g hg)).2 a ha)

/-- The variables of the tables of a consequent have numbers. -/
theorem components_lt (h : Said s c rules) (hw : AreWeighted rules) (h0 : 0 < r.defaultPrior)
    (h1 : r.defaultPrior < 1) (hne : rules ≠ []) (hb : ∀ g ∈ b, g ∈ rules) :
    ∀ i ∈ (r.tableWith (r.keptPrior c rules) b).components, i < s.literals.size := by
  intro i hi
  obtain ⟨hconsequent, -, hnil, -⟩ := Registry.keptPrior_spec (h.areSound hw) h0 h1
  rcases RuleTable.mem_components.1 hi with hi | hi
  · have hc : (r.tableWith (r.keptPrior c rules) b).consequent = c := hconsequent
    rw [hi, hc]
    exact h.lt hne
  · obtain ⟨g, hg, hi⟩ := RuleTable.mem_antecedentsOf.1 hi
    rcases List.mem_cons.1 hg with rfl | hg
    · rw [hnil] at hi
      cases hi
    · exact (h.numbers g (hb g hg)).2 i hi

end Said

/-- **Tables of all rules of a consequent stand for the same log-probability.** -/
theorem SameSaid.exactLogProb_eq {s s' : GroundState EReal} {c c' : Nat}
    {rules rules' : List (GroundedRule EReal)} {r r' : Registry EReal}
    (h : SameSaid s s' c c' rules rules') (hw : AreWeighted rules) (hmethod : r.method = r'.method)
    (hdefault : r.defaultPrior = r'.defaultPrior) (h0 : 0 < r.defaultPrior)
    (h1 : r.defaultPrior < 1) (hne : rules ≠ []) {b b' : List (GroundedRule EReal)}
    (hb : b.Perm (Registry.dealt rules)) (hb' : b'.Perm (Registry.dealt rules'))
    (u : Literal → Bool) :
    (r.tableWith (r.keptPrior c rules) b).exactLogProb (s.world u) =
      (r'.tableWith (r'.keptPrior c' rules') b').exactLogProb (s'.world u) := by
  obtain ⟨hconsequent, hprob, hnil, -⟩ := Registry.keptPrior_spec (h.said.areSound hw) h0 h1
  obtain ⟨hconsequent', -, hnil', -⟩ :=
    Registry.keptPrior_spec (h.said'.areSound (h.areWeighted hw)) (hdefault ▸ h0) (hdefault ▸ h1)
  have hmem : ∀ g ∈ b, g ∈ rules := fun g hg => (Registry.mem_dealt.1 (hb.subset hg)).1
  have hmem' : ∀ g ∈ b', g ∈ rules' := fun g hg => (Registry.mem_dealt.1 (hb'.subset hg)).1
  have hrows : ∀ g ∈ (r.tableWith (r.keptPrior c rules) b).rows, g.IsProb := by
    intro g hg
    rcases Registry.mem_rows_tableWith.1 hg with rfl | hg
    · exact hprob
    · exact (hw g (hmem g hg)).isProb
  -- entries are merged from rows that say the same, and their order does not count
  have hentry : (r.tableWith (r.keptPrior c rules) b).entry (s.world u).value =
      (r'.tableWith (r'.keptPrior c' rules') b').entry (s'.world u).value :=
    RuleTable.entry_perm hmethod (h.logs_keptPrior hw hdefault) hprob.ifTrue_ne_top
      (fun g hg => (hrows g hg).ifTrue_ne_top)
      (Registry.sorted_tableWith _ _ _) (Registry.sorted_tableWith _ _ _)
      (h.perm_rows hw hdefault hnil hnil' hb hb') (h.said.value_world hnil hmem u)
      (h.said'.value_world hnil' hmem' u)
  have hvalue : (s.world u).value (r.tableWith (r.keptPrior c rules) b).consequent =
      (s'.world u).value (r'.tableWith (r'.keptPrior c' rules') b').consequent := by
    have hc : (r.tableWith (r.keptPrior c rules) b).consequent = c := hconsequent
    have hc' : (r'.tableWith (r'.keptPrior c' rules') b').consequent = c' := hconsequent'
    rw [hc, hc', s.value_world u (h.said.lt hne), s'.value_world u (h.said'.lt (h.ne_nil hne)),
      h.literalOf_eq hne]
  rw [RuleTable.exactLogProb, RuleTable.exactLogProb, hentry, hvalue]

end FactNet
