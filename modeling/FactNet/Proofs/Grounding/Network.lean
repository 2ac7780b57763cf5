import FactNet.Proofs.Grounding.Agreement
import FactNet.Proofs.Net.Touching
import FactNet.Proofs.Pairs

/-!
# The network that is built

Building settles the consequents one after another, and then assembles what becomes of them.  So
what a network has to say of a literal can be read off the registry: a literal is a variable if it
is mentioned; it is fixed if the rules of its consequent fix it or the evidence does; and it has
the prior that is kept of its rules, if they do not fix it.

## Main definitions

* `Registry.consequents`, `Registry.settleAt`, `Registry.outcome` — the consequents, and what
  becomes of each.
* `Registry.fixedAt`, `Registry.priorAt` — the value that the rules of a consequent fix it to, and
  the prior that is kept of them.
* `Registry.Consistent` — the evidence gives no literal two values.
* `Registry.Built` — a network is that of what becomes of the consequents.
* `BayesNet.fixedValue?`, `BayesNet.priorOf?` — what a network says of a literal.

## Main results

* `Registry.build_eq` — **building settles the consequents and assembles what becomes of them.**
* `Registry.last?_evidenceOf` — a literal has the value that the evidence gives it.
* `Registry.built_of_build` — **the network that is built is that of what becomes of the
  consequents.**
* `Registry.Built.fixedValue?_eq`, `Registry.Built.priorOf?_eq` — what it says of a literal.
-/

namespace FactNet

open Scalar GroundState

namespace Settled

variable {α : Type}

/-- The value that a consequent is fixed to. -/
def fixed? : Settled α → Option Bool
  | .fixed b => some b
  | .factors _ _ => none

/-- The log-probability of truth of the prior of a consequent that is not fixed. -/
def prior? : Settled α → Option α
  | .fixed _ => none
  | .factors prior _ => some prior.ifTrue

/-- The factors of a consequent. -/
def factorsOf : Settled α → List (Factor α)
  | .fixed _ => []
  | .factors _ fs => fs

end Settled

namespace Registry

section Build

variable {α : Type} [Scalar α] [Numeral α]

/-- The consequents of the grounded rules, each once. -/
def consequents (r : Registry α) : List Nat :=
  (r.groundAll.1.groundings.toList.map (·.consequent)).eraseDups

/-- The values that the evidence gives to variables. -/
def evidenceOf (r : Registry α) : List (Nat × Bool) :=
  r.fixedEvidence r.groundAll.1

/-- What becomes of a consequent. -/
def settleAt (r : Registry α) (i : Nat) : Except BuildFault (Settled α) :=
  r.settle (r.evidenceOf.any fun e => e.1 == i)
    (((r.groundAll.1.literals[i]?).map Literal.text).getD "") (r.rulesOf i)

/-- The network of what becomes of the consequents. -/
def assemble (r : Registry α) (settled : List (Nat × Settled α)) :
    Except NetFault (BayesNet α) :=
  BayesNet.ofParts r.groundAll.1.literals.toList (settled.flatMap fun e => e.2.factorsOf)
    (settled.filterMap fun e => e.2.prior?.map fun x => (e.1, x))
    (r.evidenceOf ++ settled.filterMap fun e => e.2.fixed?.map fun b => (e.1, b))
    r.hillClimb r.threads

/-- **Building settles the consequents and assembles what becomes of them.** -/
theorem build_eq (r : Registry α) : r.build = (do
    let settled ← r.consequents.mapM fun i => (r.settleAt i).map fun o => (i, o)
    match r.assemble settled with
    | .error fault => .error (.net fault)
    | .ok net => .ok (net, r.groundAll.2.map fun note => ⟨.warning, note.message⟩)) := by
  unfold build byConsequent
  dsimp only
  rw [List.mapM_map]
  refine congr (congrArg bind ?_) (funext fun settled => ?_)
  · refine congrArg (fun f => List.mapM f r.consequents) (funext fun i => ?_)
    rw [Function.comp_apply, settleAt, evidenceOf, rulesOf]
    dsimp only
    cases r.settle _ _ _ <;> rfl
  · rw [assemble]
    congr 2
    case e_factors =>
      refine List.flatMap_congr fun e _ => ?_
      obtain ⟨i, o⟩ := e
      cases o <;> rfl
    case e_priors =>
      refine List.filterMap_congr fun e _ => ?_
      obtain ⟨i, o⟩ := e
      cases o <;> rfl
    case e_fixed =>
      refine congrArg (r.evidenceOf ++ ·) (List.filterMap_congr fun e _ => ?_)
      obtain ⟨i, o⟩ := e
      cases o <;> rfl

theorem build_of_settled {r : Registry α} {settled : List (Nat × Settled α)}
    (h : r.consequents.mapM (fun i => (r.settleAt i).map fun o => (i, o)) = .ok settled) :
    r.build = match r.assemble settled with
      | .error fault => .error (.net fault)
      | .ok net => .ok (net, r.groundAll.2.map fun note => ⟨.warning, note.message⟩) := by
  rw [build_eq, h]
  rfl

theorem build_of_unsettled {r : Registry α} {e : BuildFault}
    (h : r.consequents.mapM (fun i => (r.settleAt i).map fun o => (i, o)) = .error e) :
    r.build = .error e := by
  rw [build_eq, h]
  rfl

theorem mem_consequents {r : Registry α} {i : Nat} : i ∈ r.consequents ↔ r.rulesOf i ≠ [] := by
  rw [consequents, List.mem_eraseDups, List.mem_map, rulesOf, Ne, List.filter_eq_nil_iff]
  simp

/-! ### Evidence -/

theorem knows_iff {r : Registry α} {l : Literal} :
    r.groundAll.1.Knows l ↔ l.asTrue ∈ r.mentioned := by
  rw [Knows, literals_groundAll, List.mem_eraseDups]

theorem knows_of_mem_evidence {r : Registry α} {l : Literal} (h : l ∈ r.evidence) :
    r.groundAll.1.Knows l :=
  knows_iff.2 (List.mem_append_left _ (List.mem_map_of_mem h))

/-- The values that the evidence gives are those of its literals. -/
theorem evidenceOf_eq (r : Registry α) : r.evidenceOf =
    Pairs.collapse (r.evidence.map fun l => (r.groundAll.1.numberOf l, l.truth)) := by
  rw [evidenceOf, fixedEvidence, ← List.filterMap_eq_map]
  refine congrArg _ (List.filterMap_congr fun l hl => ?_)
  rw [idxOf?_asTrue r.groundings_groundAll.1 (knows_of_mem_evidence hl)]
  rfl

/-- The evidence gives no literal two values. -/
def Consistent (r : Registry α) : Prop := ∀ l ∈ r.evidence, l.negate ∉ r.evidence

/-- A variable is given a value by the evidence for its literal. -/
theorem mem_evidence_pairs {r : Registry α} {l : Literal} (hl : r.groundAll.1.Knows l) {b : Bool} :
    (r.groundAll.1.numberOf l, b) ∈
      r.evidence.map (fun l => (r.groundAll.1.numberOf l, l.truth)) ↔
        ∃ e ∈ r.evidence, e.asTrue = l.asTrue ∧ e.truth = b := by
  rw [List.mem_map]
  refine exists_congr fun e => and_congr_right fun he => ?_
  rw [Prod.mk.injEq]
  refine and_congr_left fun _ => ⟨fun heq => ?_, fun heq => by rw [numberOf, heq]; rfl⟩
  rw [← literalOf_numberOf (knows_of_mem_evidence he), heq, literalOf_numberOf hl]

/-- No variable is given two values. -/
theorem Consistent.eq_of_mem {r : Registry α} (h : r.Consistent) (i : Nat) (b b' : Bool)
    (hb : (i, b) ∈ r.evidence.map fun l => (r.groundAll.1.numberOf l, l.truth))
    (hb' : (i, b') ∈ r.evidence.map fun l => (r.groundAll.1.numberOf l, l.truth)) : b' = b := by
  obtain ⟨e, he, heq⟩ := List.mem_map.1 hb
  obtain ⟨rfl, rfl⟩ := Prod.mk.inj heq
  obtain ⟨e', he', hsame, rfl⟩ := (mem_evidence_pairs (knows_of_mem_evidence he)).1 hb'
  by_contra hne
  -- the two pieces of evidence would be opposite
  refine h e he ?_
  have hopposite : e.negate = e' := by
    obtain ⟨name, arg1, arg2, truth⟩ := e
    obtain ⟨name', arg1', arg2', truth'⟩ := e'
    simp only [Literal.asTrue, Literal.mk.injEq] at hsame
    obtain ⟨rfl, rfl, rfl, -⟩ := hsame
    simp only [Literal.negate, Literal.mk.injEq, true_and]
    revert hne
    cases truth <;> cases truth' <;> simp
  rwa [hopposite]

/-- **A literal has the value that the evidence gives it**, where it gives no literal two values. -/
theorem last?_evidenceOf {r : Registry α} (hconsistent : r.Consistent) {l : Literal}
    (hl : r.groundAll.1.Knows l) (b : Bool) :
    Pairs.last? r.evidenceOf (r.groundAll.1.numberOf l) = some b ↔
      ∃ e ∈ r.evidence, e.asTrue = l.asTrue ∧ e.truth = b := by
  rw [evidenceOf_eq, Pairs.last?_collapse, ← mem_evidence_pairs hl]
  exact Pairs.last?_eq_some_iff fun b' => hconsistent.eq_of_mem _ b b'

/-- A variable is known when the evidence gives it a value. -/
theorem any_evidenceOf (r : Registry α) (i : Nat) :
    (r.evidenceOf.any fun e => e.1 == i) = (Pairs.last? r.evidenceOf i).isSome := by
  rw [Bool.eq_iff_iff, Pairs.isSome_last?, List.any_eq_true]
  constructor
  · rintro ⟨⟨j, b⟩, he, hi⟩
    obtain rfl : j = i := by simpa using hi
    exact ⟨b, he⟩
  · rintro ⟨b, he⟩
    exact ⟨(i, b), he, beq_self_eq_true i⟩

/-! ### What becomes of a consequent -/

/-- What becomes of a consequent that can be settled. -/
def outcome (r : Registry α) (i : Nat) : Settled α := (r.settleAt i).toOption.getD default

theorem settleAt_eq_outcome {r : Registry α} {i : Nat} {o : Settled α} (h : r.settleAt i = .ok o) :
    r.outcome i = o := by
  rw [outcome, h]
  rfl

/-- The value that the grounded rules of a consequent fix it to. -/
def fixedAt (r : Registry α) (i : Nat) : Option Bool :=
  if r.evidenceOf.any fun e => e.1 == i then none else fixedBy? (r.rulesOf i)

/-- The prior that is kept for a consequent. -/
def priorAt (r : Registry α) (i : Nat) : GroundedRule α := r.keptPrior i (r.rulesOf i)

/-- The grounded rules of a consequent say something of it. -/
theorem said_rulesOf (r : Registry α) (i : Nat) : Said r.groundAll.1 i (r.rulesOf i) where
  distinct := r.groundings_groundAll.1
  numbers g hg := numbers_of_mem_groundings (List.mem_of_mem_filter hg)
  consequent g hg := by simpa using (List.mem_filter.1 hg).2

/-- A consequent is a variable. -/
theorem lt_of_mem_consequents {r : Registry α} {i : Nat} (hi : i ∈ r.consequents) :
    i < r.groundAll.1.literals.size :=
  (r.said_rulesOf i).lt (mem_consequents.1 hi)

/-- The rules of a consequent have no more antecedents than there are literals mentioned. -/
theorem width_rulesOf_le (r : Registry α) (i : Nat) :
    width (r.rulesOf i) ≤ r.mentioned.length := by
  have hlt : ∀ a ∈ ((r.rulesOf i).flatMap (·.antecedents)).eraseDups,
      a ∈ List.range r.groundAll.1.literals.size := by
    intro a ha
    obtain ⟨g, hg, ha⟩ := List.mem_flatMap.1 (List.mem_eraseDups.1 ha)
    exact List.mem_range.2 (((r.said_rulesOf i).numbers g hg).2 a ha)
  have hle := (List.Nodup.subperm (nodup_eraseDups _) hlt).length_le
  have hsize : r.groundAll.1.literals.size ≤ r.mentioned.length := by
    rw [← Array.length_toList, literals_groundAll]
    exact (eraseDups_sublist r.mentioned).length_le
  rw [List.length_range] at hle
  rw [width_eq]
  exact hle.trans hsize

/-- A consequent that is not fixed cannot be settled if a rule is too wide. -/
theorem settleAt_error {r : Registry α} {i : Nat} {g : GroundedRule α} (hfixed : r.fixedAt i = none)
    (hg : g ∈ r.rulesOf i) (hwide : tableCeiling ≤ width [g]) :
    ∃ e, r.settleAt i = .error e := by
  unfold settleAt settle
  rw [← fixedAt, hfixed]
  exact makeFactors_error (r.said_rulesOf i).consequent _ hg hwide

/-- Nor can a network be built then. -/
theorem build_error_of_settleAt {r : Registry α} {i : Nat} (hi : i ∈ r.consequents)
    (h : ∃ e, r.settleAt i = .error e) : ∃ e, r.build = .error e := by
  obtain ⟨e, he⟩ := h
  obtain ⟨e', he'⟩ := mapM_eq_error (f := fun i => (r.settleAt i).map fun o => (i, o)) hi
    (by rw [he]; rfl)
  exact ⟨e', build_of_unsettled he'⟩

/-- **A consequent is fixed by its rules or has the prior that is kept of them.** -/
theorem outcome_spec {r : Registry α} {i : Nat} (hi : i ∈ r.consequents) {o : Settled α}
    (h : r.settleAt i = .ok o) : o.fixed? = r.fixedAt i ∧
      o.prior? = if (r.fixedAt i).isSome then none else some (r.priorAt i).ifTrue := by
  unfold settleAt settle at h
  rw [← fixedAt] at h
  cases hfixed : r.fixedAt i with
  | some b =>
    rw [hfixed] at h
    cases h
    exact ⟨rfl, rfl⟩
  | none =>
    rw [hfixed] at h
    dsimp only at h
    rw [makeFactors_eq_mapM (r.said_rulesOf i).consequent (mem_consequents.1 hi)] at h
    cases hgroups : (groupsOf (r.rulesOf i)).mapM fun b => r.tableOf
        (((r.groundAll.1.literals[i]?).map Literal.text).getD "")
        (r.keptPrior i (r.rulesOf i) :: b) with
    | error e =>
      rw [hgroups] at h
      cases h
    | ok fs =>
      rw [hgroups] at h
      cases h
      exact ⟨rfl, rfl⟩

end Build

end Registry

/-! ### Assembling -/

section Assembling

variable {α : Type} [Scalar α] {literals : List Literal} {factors : List (Factor α)}
  {priors : List (Nat × α)} {fixed : List (Nat × Bool)} {hillClimb : Bool} {threads : Int}

/-- The parts that a network is made of. -/
theorem BayesNet.eq_of_ofParts {net : BayesNet α}
    (h : BayesNet.ofParts literals factors priors fixed hillClimb threads = .ok net) :
    net.literals = literals.toArray ∧ net.factors = factors.toArray ∧
      net.fixed = Pairs.collapse fixed ∧ ∀ i < literals.length, net.priorProbs[i]? =
        some (((Pairs.last? priors i).map exp).getD BayesNet.uninformedPrior) := by
  unfold BayesNet.ofParts at h
  dsimp only at h
  split at h
  · cases h
  · split at h
    · cases h
    · split at h
      · cases h
      · cases h
        refine ⟨rfl, rfl, rfl, fun i hi => ?_⟩
        simp [hi]

/-- A variable is adjustable unless it is fixed. -/
theorem BayesNet.last?_fixed_of_mem_adjustable {net : BayesNet α}
    (h : BayesNet.ofParts literals factors priors fixed hillClimb threads = .ok net) {i : Nat}
    (hi : i ∈ net.adjustable) : Pairs.last? net.fixed i = none := by
  have hadjustable : net.adjustable = ((List.range literals.length).filter fun i =>
      !fixed.any fun e => e.1 == i).toArray := by
    unfold BayesNet.ofParts at h
    dsimp only at h
    split at h
    · cases h
    · split at h
      · cases h
      · split at h
        · cases h
        · cases h
          rfl
  rw [hadjustable, List.mem_toArray, List.mem_filter, Bool.not_eq_true', List.any_eq_false] at hi
  rw [(BayesNet.eq_of_ofParts h).2.2.1, Pairs.last?_collapse, ← Option.not_isSome_iff_eq_none,
    Pairs.isSome_last?]
  rintro ⟨b, hb⟩
  exact hi.2 _ hb (beq_self_eq_true i)

end Assembling

namespace Registry

variable {α : Type} [Scalar α] [Numeral α] {r : Registry α} {net : BayesNet α}

/-- A network is that of what becomes of the consequents. -/
structure Built (r : Registry α) (net : BayesNet α) : Prop where
  settled : ∀ i ∈ r.consequents, r.settleAt i = .ok (r.outcome i)
  literals : net.literals = r.groundAll.1.literals
  factors : net.factors.toList = r.consequents.flatMap fun i => (r.outcome i).factorsOf
  fixed : ∀ i, Pairs.last? net.fixed i =
    (if i ∈ r.consequents then (r.outcome i).fixed? else none).or (Pairs.last? r.evidenceOf i)
  priorProbs : ∀ i < net.literals.size, net.priorProbs[i]? = some
    (((if i ∈ r.consequents then (r.outcome i).prior? else none).map exp).getD
      BayesNet.uninformedPrior)

/-- What becomes of the consequents. -/
def outcomes (r : Registry α) : List (Nat × Settled α) :=
  r.consequents.map fun i => (i, r.outcome i)

/-- Consequents that can be settled have their outcomes. -/
theorem mapM_settleAt (h : ∀ i ∈ r.consequents, r.settleAt i = .ok (r.outcome i)) :
    r.consequents.mapM (fun i => (r.settleAt i).map fun o => (i, o)) = .ok r.outcomes :=
  mapM_eq_ok fun i hi => by
    rw [h i hi]
    rfl

/-- What is assembled of the outcomes. -/
theorem built_of_assemble (hsettled : ∀ i ∈ r.consequents, r.settleAt i = .ok (r.outcome i))
    (h : r.assemble r.outcomes = .ok net) : r.Built net := by
  obtain ⟨hliterals, hfactors, hfixed, hpriors⟩ := BayesNet.eq_of_ofParts h
  rw [Array.toArray_toList] at hliterals
  refine ⟨hsettled, hliterals, ?_, fun i => ?_, fun i hi => ?_⟩
  · rw [hfactors, outcomes, List.flatMap_map]
  · rw [hfixed, Pairs.last?_collapse, Pairs.last?_append, outcomes, List.filterMap_map]
    exact congrArg (Option.or · _) (Pairs.last?_filterMap (fun i => (r.outcome i).fixed?) _ i)
  · rw [hpriors i (by rwa [Array.length_toList, ← hliterals]), outcomes, List.filterMap_map]
    exact congrArg (fun x : Option α => some ((x.map exp).getD BayesNet.uninformedPrior))
      (Pairs.last?_filterMap (fun i => (r.outcome i).prior?) _ i)

/-- A network that is built is assembled of the outcomes. -/
theorem assemble_of_build {notes : List Event} (h : r.build = .ok (net, notes)) :
    (∀ i ∈ r.consequents, r.settleAt i = .ok (r.outcome i)) ∧ r.assemble r.outcomes = .ok net := by
  have hsettled : ∀ i ∈ r.consequents, r.settleAt i = .ok (r.outcome i) := by
    intro i hi
    cases hi' : r.settleAt i with
    | ok o => rw [settleAt_eq_outcome hi']
    | error e =>
      obtain ⟨e', he'⟩ := build_error_of_settleAt hi ⟨e, hi'⟩
      rw [he'] at h
      cases h
  refine ⟨hsettled, ?_⟩
  rw [build_of_settled (mapM_settleAt hsettled)] at h
  cases hassemble : r.assemble r.outcomes with
  | error e =>
    rw [hassemble] at h
    cases h
  | ok net' =>
    rw [hassemble] at h
    cases h
    rfl

/-- **The network that is built is that of what becomes of the consequents.** -/
theorem built_of_build {notes : List Event} (h : r.build = .ok (net, notes)) : r.Built net :=
  built_of_assemble (assemble_of_build h).1 (assemble_of_build h).2

end Registry

/-! ### Reading a network -/

namespace BayesNet

/-- The value that a literal is fixed to. -/
def fixedValue? {α : Type} (net : BayesNet α) (l : Literal) : Option Bool :=
  (net.idOf? l).bind (Pairs.last? net.fixed)

/-- The probability that a literal is drawn true with. -/
def priorOf? {α : Type} (net : BayesNet α) (l : Literal) : Option α :=
  (net.idOf? l).bind fun i => net.priorProbs[i]?

end BayesNet

namespace Registry.Built

variable {α : Type} [Scalar α] [Numeral α] {r : Registry α} {net : BayesNet α}

/-- **The variables are the literals that are mentioned.** -/
theorem mem_literals (h : r.Built net) {l : Literal} :
    l ∈ net.literals ↔ l ∈ r.mentioned := by
  rw [h.literals, ← Array.mem_toList_iff, literals_groundAll, List.mem_eraseDups]

/-- A literal that is mentioned has its number. -/
theorem idOf?_eq_some (h : r.Built net) {l : Literal} (hl : r.groundAll.1.Knows l) :
    net.idOf? l = some (r.groundAll.1.numberOf l) := by
  have hget := getElem?_numberOf hl
  rw [← Array.getElem?_toList] at hget
  rw [BayesNet.idOf?, h.literals]
  refine (Pairs.last?_eq_some_iff fun j hi hj => ?_).2 (List.mem_zipIdx_iff_getElem?.2 hget)
  obtain ⟨hlt, hgetl⟩ := List.getElem?_eq_some_iff.1 hget
  obtain ⟨hltj, hgetj⟩ := List.getElem?_eq_some_iff.1 (List.mem_zipIdx_iff_getElem?.1 hj)
  exact (List.Nodup.getElem_inj_iff r.groundings_groundAll.1).1 (hgetj.trans hgetl.symm)

theorem idOf?_eq_none (h : r.Built net) {l : Literal} (hl : ¬r.groundAll.1.Knows l) :
    net.idOf? l = none := by
  rw [BayesNet.idOf?, h.literals, ← Option.not_isSome_iff_eq_none, Pairs.isSome_last?]
  rintro ⟨i, hi⟩
  exact hl (List.mem_of_getElem? (List.mem_zipIdx_iff_getElem?.1 hi))

/-- **A literal is fixed by the rules of its consequent or by the evidence.** -/
theorem fixedValue?_eq (h : r.Built net) {l : Literal} (hl : r.groundAll.1.Knows l) :
    net.fixedValue? l =
      (if r.rulesOf (r.groundAll.1.numberOf l) ≠ [] then
        r.fixedAt (r.groundAll.1.numberOf l) else none).or
        (Pairs.last? r.evidenceOf (r.groundAll.1.numberOf l)) := by
  rw [BayesNet.fixedValue?, h.idOf?_eq_some hl, Option.bind_some, h.fixed,
    if_congr mem_consequents rfl rfl]
  split
  · next hne => rw [(outcome_spec (mem_consequents.2 hne) (h.settled _ (mem_consequents.2 hne))).1]
  · rfl

/-- **A literal has the prior that is kept of its rules**, if they do not fix it. -/
theorem priorOf?_eq (h : r.Built net) {l : Literal} (hl : r.groundAll.1.Knows l) :
    net.priorOf? l = some
      (((if r.rulesOf (r.groundAll.1.numberOf l) ≠ [] then
        if (r.fixedAt (r.groundAll.1.numberOf l)).isSome then none
        else some (r.priorAt (r.groundAll.1.numberOf l)).ifTrue else none).map exp).getD
          BayesNet.uninformedPrior) := by
  have hlt := numberOf_lt hl
  rw [← h.literals] at hlt
  rw [BayesNet.priorOf?, h.idOf?_eq_some hl, Option.bind_some, h.priorProbs _ hlt,
    if_congr mem_consequents rfl rfl]
  split
  · next hne => rw [(outcome_spec (mem_consequents.2 hne) (h.settled _ (mem_consequents.2 hne))).2]
  · rfl

end Registry.Built

end FactNet
