import FactNet.Proofs.Grounding.Acyclic
import FactNet.Proofs.Grounding.ClosedWorld
import FactNet.Proofs.Grounding.Content
import FactNet.Proofs.Grounding.Ledger
import FactNet.Proofs.Grounding.Tables

/-!
# Building keeps its ledger

A build numbers and notes its evidence, registers its clauses one after another, and settles the
consequents that have come of them.  Done to the records of a ledger these are the same steps, so
the ledger is in step at every point, and at every clause it has the variables and the grounded
rules of the state of grounding.

The steps can all be done for two reasons that are settled elsewhere: a clause of one literal is
turned before it is grounded, and a rule with no head, or with several, is not grounded at all.  So
a clause has just one literal to be the consequent.  Nothing else is looked at when tables are made
and put together, and yet no table sees the rules of two consequents, and no factor depends on a
variable that there is not.

## Main definitions

* `Ledger.Represents` — a ledger has the variables and the grounded rules of a state of grounding.
* `Registry.steps`, `Registry.ledger` — the steps of a build, and the ledger they lead to.
* `Registry.HasSettled` — a ledger in which some of the consequents have been settled.
* `Ledger.Makes` — a network has the variables, fixed values and priors of a ledger.

## Main results

* `Ledger.Represents.register` — a clause is registered in the ledger as it is in the state.
* `Registry.exists_filter_truth_eq` — a clause has just one literal that is not negated.
* `Registry.hasSettled_of_isPrefix` — **the consequents are settled one after another.**
* `Registry.makes_ledger` — the network that is built is that of the ledger.
* `Registry.build_keeps_ledger` — **the records are in step at every point, and make a network.**
-/

namespace FactNet

open Scalar GroundState

variable {α : Type}

/-! ### The ledger and the state of grounding -/

namespace GroundState

/-- The rules of a consequent, filed. -/
def groupFor (rules : List (GroundedRule α)) (i : Nat) : Int × List (Entry α) :=
  (i, (rules.filter fun g => g.consequent == i).map Entry.ofRule)

theorem groupFor_concat (rules : List (GroundedRule α)) (g : GroundedRule α) (i : Nat) :
    groupFor (rules ++ [g]) i =
      if g.consequent = i then ((i : Int), (groupFor rules i).2 ++ [Entry.ofRule g])
      else groupFor rules i := by
  by_cases hi : g.consequent = i
  · simp [groupFor, hi]
  · simp [groupFor, hi]

/-- The grounded rules of a state, filed. -/
def groups (s : GroundState α) : List (Int × List (Entry α)) :=
  s.byConsequent.map fun group => ((group.1 : Int), group.2.map Entry.ofRule)

theorem groups_eq (s : GroundState α) : s.groups =
    (s.groundings.toList.map (·.consequent)).eraseDups.map (groupFor s.groundings.toList) := by
  rw [groups, byConsequent, List.map_map]
  rfl

theorem mem_keys_groups {s : GroundState α} {i : Nat} :
    (i : Int) ∈ s.groups.map (·.1) ↔ i ∈ s.groundings.toList.map (·.consequent) := by
  simp [groups_eq, groupFor]

/-- One more rule is filed. -/
theorem groups_concat {s s' : GroundState α} {g : GroundedRule α}
    (h : s'.groundings.toList = s.groundings.toList ++ [g]) :
    s'.groups = Ledger.filed s.groups (.ofRule g) := by
  have hany : (s.groups.any fun group => group.1 == (Entry.ofRule g).consequent) = true ↔
      g.consequent ∈ s.groundings.toList.map (·.consequent) :=
    Ledger.any_key_iff.trans mem_keys_groups
  rw [groups_eq, Ledger.filed, if_congr hany rfl rfl, groups_eq, h, List.map_append,
    List.map_singleton, eraseDups_concat]
  split
  · -- the consequent has a group already
    rw [List.map_map]
    refine List.map_congr_left fun i _ => ?_
    rw [Function.comp_apply, groupFor_concat]
    refine if_congr ?_ rfl rfl
    rw [beq_iff_eq]
    exact eq_comm.trans Int.natCast_inj.symm
  · next hnew =>
    -- a group is opened for it
    rw [List.map_append, List.map_singleton]
    have hnone : (groupFor s.groundings.toList g.consequent).2 = [] := by
      rw [groupFor, List.map_eq_nil_iff, List.filter_eq_nil_iff]
      exact fun g' hg' heq => hnew (beq_iff_eq.1 heq ▸ List.mem_map_of_mem hg')
    refine congrArg₂ (· ++ ·) (List.map_congr_left fun i hi => ?_) ?_
    · have hne : g.consequent ≠ i := fun heq => hnew (heq ▸ List.mem_eraseDups.1 hi)
      rw [groupFor_concat, if_neg hne]
    · rw [groupFor_concat, if_pos rfl, hnone]
      rfl

/-- A literal that has a number keeps it. -/
theorem number_of_knows {s : GroundState α} (hs : s.Distinct) {l : Literal} (hl : s.Knows l) :
    s.number l = (s.numberOf l, s) := by
  rw [number, idxOf?_asTrue hs hl]

/-- Literals that have numbers keep them. -/
theorem numberAll_of_knows {s : GroundState α} (hs : s.Distinct) {ls : List Literal}
    (hls : ∀ l ∈ ls, s.Knows l) : s.numberAll ls = (ls.map s.numberOf, s) := by
  induction ls with
  | nil => rfl
  | cons l ls ih =>
    obtain ⟨hl, hls⟩ := List.forall_mem_cons.1 hls
    rw [numberAll, number_of_knows hs hl]
    dsimp only
    rw [ih hls]
    rfl

/-- To number literals again gives them the same numbers. -/
theorem numberAll_numberAll {s : GroundState α} (hs : s.Distinct) (ls : List Literal) :
    (s.numberAll ls).2.numberAll ls = s.numberAll ls := by
  obtain ⟨-, hdistinct, hknows, hnumbers, -⟩ := numberAll_spec hs ls
  rw [numberAll_of_knows hdistinct hknows, ← hnumbers]

theorem numberAll_concat (s : GroundState α) (ls : List Literal) (l : Literal) :
    (s.numberAll (ls ++ [l])).2 = ((s.numberAll ls).2.number l).2 := by
  induction ls generalizing s with
  | nil => rfl
  | cons k ls ih => exact ih (s.number k).2

/-- A clause whose literals have been numbered is registered as it would be without. -/
theorem register_numberAll [Scalar α] [Numeral α] {s : GroundState α} (hs : s.Distinct)
    (ifTrue ifFalse : α) (clause : List Literal) :
    (s.numberAll clause).2.register ifTrue ifFalse clause = s.register ifTrue ifFalse clause := by
  rw [register, register, numberAll_numberAll hs]

end GroundState

/-- A ledger has the variables and the grounded rules of a state of grounding. -/
structure Ledger.Represents (L : Ledger α) (s : GroundState α) : Prop where
  literals : L.literals = s.literals.toList
  groundings : L.groundings = s.groups

namespace Ledger.Represents

variable {L : Ledger α} {s : GroundState α} {l : Literal}

theorem distinct (h : L.Represents s) (hL : L.WellFormed) : s.Distinct := by
  rw [Distinct, ← h.literals]
  exact hL.nodup

/-- The index finds what is found among the literals. -/
theorem index_eq (h : L.Represents s) (hL : L.WellFormed) (l : Literal) :
    L.index l = s.literals.idxOf? l := by
  have hlist : s.literals.idxOf? l = L.literals.idxOf? l := by
    rw [h.literals, ← List.idxOf?_toArray, Array.toArray_toList]
  refine Option.ext fun i => ?_
  rw [hlist, hL.index_iff, List.idxOf?_eq_some_iff, List.getElem?_eq_some_iff]
  refine exists_congr fun hi => ⟨fun hl => ⟨hl, fun j hj hsame => ?_⟩, And.left⟩
  exact hj.ne ((List.Nodup.getElem_inj_iff hL.nodup).1 (hsame.trans hl.symm))

theorem number (h : L.Represents s) (hL : L.WellFormed) (l : Literal) :
    (L.number l).1 = (s.number l).1 ∧ (L.number l).2.Represents (s.number l).2 := by
  unfold Ledger.number GroundState.number
  rw [h.index_eq hL]
  cases s.literals.idxOf? l.asTrue with
  | some i => exact ⟨rfl, h⟩
  | none =>
    refine ⟨?_, ?_, h.groundings⟩
    · simp [h.literals]
    · simp [Ledger.push, h.literals]

theorem setFixed (h : L.Represents s) (i : Int) (b : Bool) : (L.setFixed i b).Represents s :=
  ⟨h.literals, h.groundings⟩

theorem setPrior (h : L.Represents s) (i : Int) (x : α) : (L.setPrior i x).Represents s :=
  ⟨h.literals, h.groundings⟩

/-- **The literals of a clause get the same numbers**, and the consequent and the antecedents are
picked by what is negated. -/
theorem scan (h : L.Represents s) (hL : L.WellFormed) (clause : List Literal) (consequent : Int)
    (antecedents : List Nat) :
    (L.scan clause consequent antecedents).1 =
        (((clause.filter (·.truth)).getLast?.map fun l =>
            ((s.numberAll clause).2.numberOf l : Int)).getD consequent,
          antecedents ++ (clause.filter fun l => !l.truth).map (s.numberAll clause).2.numberOf) ∧
      (L.scan clause consequent antecedents).2.Represents (s.numberAll clause).2 := by
  induction clause generalizing L s consequent antecedents with
  | nil => simpa [Ledger.scan, GroundState.numberAll] using h
  | cons l ls ih =>
    obtain ⟨hid, hnumber⟩ := h.number hL l
    obtain ⟨-, -, -, hnumbers, -⟩ := numberAll_spec (h.distinct hL) (l :: ls)
    have hfinal : (s.numberAll (l :: ls)).2 = ((s.number l).2.numberAll ls).2 := rfl
    have hl : (L.number l).1 = ((s.number l).2.numberAll ls).2.numberOf l :=
      hid.trans (List.cons.inj hnumbers).1
    rw [Ledger.scan, hfinal]
    cases htruth : l.truth with
    | true =>
      obtain ⟨hpicked, hrest⟩ := ih hnumber (hL.number l).1 (L.number l).1 antecedents
      refine ⟨?_, hrest⟩
      rw [if_pos rfl, hpicked, List.filter_cons_of_pos htruth,
        List.filter_cons_of_neg (by simp [htruth]), List.getLast?_cons, hl]
      -- the last literal without negation is among those that follow, if there is one
      cases (ls.filter (·.truth)).getLast? <;> rfl
    | false =>
      obtain ⟨hpicked, hrest⟩ :=
        ih hnumber (hL.number l).1 consequent (antecedents ++ [(L.number l).1])
      refine ⟨?_, hrest⟩
      rw [if_neg Bool.false_ne_true, hpicked, List.filter_cons_of_neg (by simp [htruth]),
        List.filter_cons_of_pos (by simp [htruth]), List.map_cons, hl, List.append_assoc]
      rfl

section Weights

variable [Scalar α] [Numeral α]

/-- **A clause is registered in the ledger as it is in the state.** -/
theorem register (h : L.Represents s) (hL : L.WellFormed) {c : Weighted α}
    (hc : ∃ l ∈ c.2, l.truth = true) : (L.register c).Represents
      (s.register (LogProb.logSigmoid c.1) (LogProb.logSigmoid (-c.1)) c.2) := by
  have hs := h.distinct hL
  obtain ⟨hpicked, hscanned⟩ := h.scan hL c.2 (-1) []
  obtain ⟨-, -, -, -, hsame⟩ := numberAll_spec hs c.2
  obtain ⟨hliterals, hgroundings⟩ :=
    register_eq hs (LogProb.logSigmoid c.1) (LogProb.logSigmoid (-c.1)) c.2
  obtain ⟨head, hhead⟩ : ∃ head, (c.2.filter (·.truth)).getLast? = some head := by
    obtain ⟨l, hl, htruth⟩ := hc
    exact ⟨_, List.getLast?_eq_some_getLast
      (List.ne_nil_of_mem (List.mem_filter.2 ⟨hl, htruth⟩))⟩
  rw [groundingOf, hhead, Option.map_some, Option.toList_some, ← hsame] at hgroundings
  rw [hhead, Option.map_some, Option.getD_some, List.nil_append] at hpicked
  refine ⟨hscanned.literals.trans (congrArg Array.toList hliterals).symm, ?_⟩
  rw [groups_concat hgroundings, ← hscanned.groundings]
  unfold Ledger.register
  dsimp only
  rw [hpicked]
  rfl

end Weights

end Ledger.Represents

/-- A network is made of a ledger: it has its variables, fixed values and priors. -/
structure Ledger.Makes [Scalar α] (L : Ledger α) (net : BayesNet α) : Prop where
  literals : net.literals.toList = L.literals
  fixed : ∀ n : Nat, Pairs.last? net.fixed n = L.fixed n
  priorProbs : ∀ n < net.literals.size, net.priorProbs[n]? =
    some (((L.priors n).map exp).getD BayesNet.uninformedPrior)

/-! ### The steps of grounding -/

namespace Ledger

/-- The steps for some evidence. -/
def evidenceSteps (evidence : List Literal) : List (Step α) :=
  evidence.flatMap fun l => [.number l, .note l]

/-- The steps for some clauses. -/
def clauseSteps (clauses : List (Weighted α)) : List (Step α) :=
  clauses.flatMap fun c => c.2.map .number ++ [.register c]

theorem mem_evidenceSteps {evidence : List Literal} {s : Step α} :
    s ∈ evidenceSteps evidence ↔ ∃ l ∈ evidence, s = .number l ∨ s = .note l := by
  simp [evidenceSteps]

theorem mem_clauseSteps {clauses : List (Weighted α)} {s : Step α} :
    s ∈ clauseSteps clauses ↔
      ∃ c ∈ clauses, (∃ l ∈ c.2, s = .number l) ∨ s = .register c := by
  simp [clauseSteps, eq_comm]

section Grounding

variable [Scalar α] [Numeral α] {L : Ledger α} {s : GroundState α} {d : α}

omit [Scalar α] [Numeral α] in
/-- A piece of evidence is noted by the number that its literal has been given. -/
theorem note_number (L : Ledger α) (l : Literal) : (L.number l).2.note l = L.note l := by
  rw [note, number_number, note]

/-- The ledger after some evidence. -/
theorem Represents.evidence (h : L.Represents s) (hL : L.WellFormed) (ls : List Literal) :
    (runFrom d L (evidenceSteps ls)).WellFormed ∧
      (runFrom d L (evidenceSteps ls)).Represents (s.numberAll ls).2 := by
  induction ls generalizing L s with
  | nil => exact ⟨hL, h⟩
  | cons l ls ih =>
    have hfirst : runFrom d L (evidenceSteps (l :: ls)) =
        runFrom d (L.note l) (evidenceSteps ls) := by
      rw [← note_number]
      rfl
    rw [hfirst]
    exact ih ((h.number hL l).2.setFixed _ _) (hL.note l)

/-- The ledger after some literals have been numbered. -/
theorem Represents.numbers (h : L.Represents s) (hL : L.WellFormed) (ls : List Literal) :
    (runFrom d L (ls.map .number)).WellFormed ∧
      (runFrom d L (ls.map .number)).Represents (s.numberAll ls).2 := by
  induction ls generalizing L s with
  | nil => exact ⟨hL, h⟩
  | cons l ls ih => exact ih (h.number hL l).2 (hL.number l).1

/-- **The ledger after some clauses.** -/
theorem Represents.clauses (h : L.Represents s) (hL : L.WellFormed) {cs : List (Weighted α)}
    (hcs : ∀ c ∈ cs, ∃ l ∈ c.2, l.truth = true) :
    (runFrom d L (clauseSteps cs)).WellFormed ∧
      (runFrom d L (clauseSteps cs)).Represents (s.registerEach cs) := by
  induction cs generalizing L s with
  | nil => exact ⟨hL, h⟩
  | cons c cs ih =>
    obtain ⟨hc, hcs⟩ := List.forall_mem_cons.1 hcs
    obtain ⟨hnumbered, hnumbers⟩ := h.numbers (d := d) hL c.2
    have hfirst : runFrom d L (clauseSteps (c :: cs)) =
        runFrom d ((runFrom d L (c.2.map .number)).register c) (clauseSteps cs) := by
      rw [clauseSteps, List.flatMap_cons, List.append_assoc, runFrom_append]
      rfl
    have hregistered := hnumbers.register hnumbered hc
    rw [register_numberAll (h.distinct hL)] at hregistered
    rw [hfirst, registerEach_cons]
    exact ih hregistered (hnumbered.register hc) hcs

/-- Steps that can always be done can be done one after another. -/
theorem admits_of_valid {steps : List (Step α)} (h : ∀ s ∈ steps, ∀ L, s.Valid L) :
    Admits d L steps := by
  induction steps generalizing L with
  | nil => trivial
  | cons s steps ih =>
    obtain ⟨hs, hsteps⟩ := List.forall_mem_cons.1 h
    exact ⟨hs L, ih hsteps⟩

/-- What no step changes stays. -/
theorem runFrom_eq {β : Type} {f : Ledger α → β} {steps : List (Step α)}
    (h : ∀ s ∈ steps, ∀ L, f (s.apply d L) = f L) (L : Ledger α) : f (runFrom d L steps) = f L := by
  induction steps generalizing L with
  | nil => rfl
  | cons s steps ih =>
    obtain ⟨hs, hsteps⟩ := List.forall_mem_cons.1 h
    exact (ih hsteps (s.apply d L)).trans (hs L)

omit [Scalar α] [Numeral α] in
theorem fixed_priors_scan (L : Ledger α) (clause : List Literal) (consequent : Int)
    (antecedents : List Nat) : (L.scan clause consequent antecedents).2.fixed = L.fixed ∧
      (L.scan clause consequent antecedents).2.priors = L.priors := by
  induction clause generalizing L consequent antecedents with
  | nil => exact ⟨rfl, rfl⟩
  | cons l ls ih =>
    rw [scan]
    split
    · simpa using ih (L.number l).2 (L.number l).1 antecedents
    · simpa using ih (L.number l).2 consequent (antecedents ++ [(L.number l).1])

/-- Clauses fix nothing and give no priors. -/
theorem fixed_priors_clauses (L : Ledger α) (cs : List (Weighted α)) :
    (runFrom d L (clauseSteps cs)).fixed = L.fixed ∧
      (runFrom d L (clauseSteps cs)).priors = L.priors := by
  have hkept : ∀ s ∈ clauseSteps cs, ∀ L : Ledger α,
      ((s.apply d L).fixed, (s.apply d L).priors) = (L.fixed, L.priors) := by
    intro s hs L
    obtain ⟨c, -, ⟨l, -, rfl⟩ | rfl⟩ := mem_clauseSteps.1 hs
    · exact Prod.ext (fixed_number L l) (priors_number L l)
    · obtain ⟨hfixed, hpriors⟩ := fixed_priors_scan L c.2 (-1) []
      exact Prod.ext hfixed hpriors
  exact Prod.ext_iff.1 (runFrom_eq (f := fun L => (L.fixed, L.priors)) hkept L)

/-- Evidence gives no priors. -/
theorem priors_evidence (L : Ledger α) (ls : List Literal) :
    (runFrom d L (evidenceSteps ls)).priors = L.priors := by
  refine runFrom_eq (fun s hs L => ?_) L
  obtain ⟨l, -, rfl | rfl⟩ := mem_evidenceSteps.1 hs
  · exact priors_number L l
  · exact priors_number L l

/-- What some evidence fixes: of two pieces for one literal the last one counts. -/
theorem fixed_evidence (ls : List Literal) (n : Nat) :
    (run d (evidenceSteps ls)).fixed n = Pairs.last? (ls.map fun l =>
      ((GroundState.numberAll ({} : GroundState α) ls).2.numberOf l, l.truth)) n := by
  induction ls using List.reverseRecOn with
  | nil => rfl
  | append_singleton ls l ih =>
    obtain ⟨hwell, hrep⟩ := Represents.evidence (d := d) (s := ({} : GroundState α)) ⟨rfl, rfl⟩
      wellFormed_empty ls
    obtain ⟨-, hdistinct, hknows, -, -⟩ :=
      numberAll_spec (s := ({} : GroundState α)) List.nodup_nil ls
    obtain ⟨hgrows, -, -, hnumber, -⟩ := number_spec hdistinct l
    have hlast : run d (evidenceSteps (ls ++ [l])) = (run d (evidenceSteps ls)).note l := by
      rw [← note_number, run, evidenceSteps, List.flatMap_append, runFrom_append]
      rfl
    have hsame : (ls.map fun k => ((GroundState.numberAll ({} : GroundState α) ls).2.numberOf k,
        k.truth)) = ls.map fun k =>
          (((GroundState.numberAll ({} : GroundState α) ls).2.number l).2.numberOf k, k.truth) :=
      List.map_congr_left fun k hk => by rw [hgrows.numberOf_eq (hknows k hk)]
    rw [hlast, numberAll_concat, List.map_append, List.map_singleton, Pairs.last?_concat, ← hsame,
      ← ih, ← hnumber, ← (hrep.number hwell l).1]
    rw [note, fixed_setFixed, fixed_number]
    refine if_congr ?_ rfl rfl
    rw [beq_iff_eq, Int.natCast_inj, eq_comm]
    rfl

end Grounding

end Ledger

/-! ### The steps of a build -/

namespace Registry

variable [Scalar α] [Numeral α] {r : Registry α} {L : Ledger α} {d : α} {i : Nat}

/-- **A clause that is registered has exactly one literal without negation**: a clause of one
literal has been turned so that it has none, and a rule is grounded only if it has one head. -/
theorem exists_filter_truth_eq {c : Weighted α} (hc : c ∈ r.clauses) :
    ∃ head, c.2.filter (·.truth) = [head] := by
  have hone : ∀ {l : Literal}, l.truth = true → [l].filter (·.truth) = [l] := fun htruth =>
    List.filter_cons_of_pos htruth
  rcases List.mem_append.1 hc with hc | hc
  · rcases List.mem_append.1 hc with hc | hc
    · obtain ⟨u, hu, rfl⟩ := List.mem_map.1 hc
      exact ⟨u.1, hone (truth_of_mem_units (List.mem_of_mem_filter hu))⟩
    · obtain ⟨rule, -, hc⟩ := List.mem_flatMap.1 hc
      obtain ⟨clause, hclause, rfl⟩ := List.mem_map.1 hc
      have hheads : rule.heads.length = 1 := by
        by_contra hmany
        rw [instances, if_neg hmany] at hclause
        cases hclause
      obtain ⟨t, rfl⟩ := exists_of_mem_instances hclause
      obtain ⟨head, hhead⟩ := List.length_eq_one_iff.1 hheads
      exact ⟨head.under t, by rw [filter_groundClause, hhead, List.map_singleton]⟩
  · obtain ⟨u, -, hc⟩ := List.mem_flatMap.1 hc
    obtain ⟨v, hv, rfl⟩ := List.mem_map.1 hc
    refine ⟨v, hone ?_⟩
    rw [← asTrue_of_mem_mentioned (List.mem_eraseDups.1 (List.mem_of_mem_filter hv))]
    rfl

theorem exists_truth_of_mem_clauses {c : Weighted α} (hc : c ∈ r.clauses) :
    ∃ l ∈ c.2, l.truth = true := by
  obtain ⟨head, hhead⟩ := exists_filter_truth_eq hc
  exact ⟨head, List.mem_filter.1 (hhead ▸ List.mem_singleton_self head)⟩

/-- The steps that ground some of the clauses. -/
def groundingSteps (r : Registry α) (clauses : List (Weighted α)) : List (Ledger.Step α) :=
  Ledger.evidenceSteps r.evidence ++ Ledger.clauseSteps clauses

/-- The steps of a build: the evidence, the clauses, and last the consequents. -/
def steps (r : Registry α) : List (Ledger.Step α) :=
  r.groundingSteps r.clauses ++ r.consequents.map fun i => .settle i

/-- The ledger after a build. -/
def ledger (r : Registry α) : Ledger α := Ledger.run r.defaultPrior r.steps

/-- **The ledger at any clause** is that of the state of grounding. -/
theorem represents_groundingSteps (d : α) {clauses : List (Weighted α)} (h : clauses ⊆ r.clauses) :
    (Ledger.run d (r.groundingSteps clauses)).WellFormed ∧
      (Ledger.run d (r.groundingSteps clauses)).Represents
        ((GroundState.numberAll {} r.evidence).2.registerEach clauses) := by
  obtain ⟨hwell, hrep⟩ := Ledger.Represents.evidence (d := d) (s := ({} : GroundState α))
    ⟨rfl, rfl⟩ Ledger.wellFormed_empty r.evidence
  rw [groundingSteps, Ledger.run, Ledger.runFrom_append]
  exact hrep.clauses hwell fun c hc => exists_truth_of_mem_clauses (h hc)

/-- What is fixed before the consequents are settled is what the evidence says. -/
theorem fixed_groundingSteps (r : Registry α) (d : α) (n : Nat) :
    (Ledger.run d (r.groundingSteps r.clauses)).fixed n = Pairs.last? r.evidenceOf n := by
  obtain ⟨-, hdistinct, hknows, -, -⟩ :=
    numberAll_spec (s := ({} : GroundState α)) List.nodup_nil r.evidence
  have hgrows := (registerEach_spec hdistinct r.clauses).1
  rw [← groundAll_eq_registerEach] at hgrows
  rw [groundingSteps, Ledger.run, Ledger.runFrom_append, (Ledger.fixed_priors_clauses _ _).1,
    ← Ledger.run, Ledger.fixed_evidence, evidenceOf_eq, Pairs.last?_collapse]
  refine congrArg (Pairs.last? · n) (List.map_congr_left fun l hl => ?_)
  rw [hgrows.numberOf_eq (hknows l hl)]

theorem priors_groundingSteps (r : Registry α) (d : α) (n : Nat) :
    (Ledger.run d (r.groundingSteps r.clauses)).priors n = none := by
  rw [groundingSteps, Ledger.run, Ledger.runFrom_append, (Ledger.fixed_priors_clauses _ _).2,
    Ledger.priors_evidence]

/-! ### Settling -/

/-- A ledger in which some of the consequents have been settled. -/
structure HasSettled (r : Registry α) (L : Ledger α) (done : List Nat) : Prop where
  wellFormed : L.WellFormed
  represents : L.Represents r.groundAll.1
  fixed : ∀ n : Nat, L.fixed n =
    (if n ∈ done then r.fixedAt n else none).or (Pairs.last? r.evidenceOf n)
  priors : ∀ n : Nat, L.priors n =
    if n ∈ done then if (r.fixedAt n).isSome then none else some (r.priorAt n).ifTrue else none

/-- The rules of a consequent are filed under it. -/
theorem mem_groups (hi : i ∈ r.consequents) :
    ((i : Int), (r.rulesOf i).map Entry.ofRule) ∈ r.groundAll.1.groups := by
  rw [groups_eq]
  exact List.mem_map_of_mem hi

theorem hasSettled_nil (r : Registry α) (d : α) :
    r.HasSettled (Ledger.run d (r.groundingSteps r.clauses)) [] where
  wellFormed := (represents_groundingSteps d (List.Subset.refl _)).1
  represents := by
    rw [groundAll_eq_registerEach]
    exact (represents_groundingSteps d (List.Subset.refl _)).2
  fixed n := by simpa using r.fixed_groundingSteps d n
  priors n := by simpa using r.priors_groundingSteps d n

/-- **A consequent is settled in the ledger as it is in a build.** -/
theorem HasSettled.settle {done : List Nat} (h : r.HasSettled L done) (hi : i ∈ r.consequents)
    (hnew : i ∉ done) : r.HasSettled (L.settle r.defaultPrior i) (done ++ [i]) := by
  have hgroup : ((i : Int), (r.rulesOf i).map Entry.ofRule) ∈ L.groundings := by
    rw [h.represents.groundings]
    exact mem_groups hi
  have hknown : (L.fixed i).isSome = r.evidenceOf.any fun e => e.1 == i := by
    rw [h.fixed, if_neg hnew, Option.none_or, any_evidenceOf]
  have hrules : ((r.rulesOf i).map Entry.ofRule).map Entry.rule = r.rulesOf i := by
    simp [Function.comp_def]
  -- the ledger decides as the build does, by the same rules and the same evidence
  have hsettle := h.wellFormed.settle_eq hgroup r.defaultPrior
  rw [hrules, hknown, ← fixedAt, Int.toNat_natCast] at hsettle
  have hwell := h.wellFormed.settle hgroup r.defaultPrior
  cases hfixed : r.fixedAt i with
  | some b =>
    rw [hfixed] at hsettle
    dsimp only at hsettle
    rw [hsettle] at hwell ⊢
    refine ⟨hwell, h.represents.setFixed _ _, fun n => ?_, fun n => ?_⟩
    · rcases eq_or_ne n i with rfl | hn
      · simp [hfixed]
      · simp [hn, h.fixed n]
    · rcases eq_or_ne n i with rfl | hn
      · simp [h.priors n, hnew, hfixed]
      · simp [hn, h.priors n]
  | none =>
    rw [hfixed] at hsettle
    dsimp only at hsettle
    rw [hsettle] at hwell ⊢
    refine ⟨hwell, h.represents.setPrior _ _, fun n => ?_, fun n => ?_⟩
    · rcases eq_or_ne n i with rfl | hn
      · simp [h.fixed n, hnew, hfixed]
      · simp [hn, h.fixed n]
    · rcases eq_or_ne n i with rfl | hn
      · simp [hfixed, priorAt, keptPrior]
      · simp [hn, h.priors n]

/-- The steps that ground can be done. -/
theorem admits_groundingSteps (r : Registry α) (d : α) :
    Ledger.Admits d {} (r.groundingSteps r.clauses) := by
  refine Ledger.admits_of_valid fun s hs L => ?_
  rcases List.mem_append.1 hs with hs | hs
  · obtain ⟨l, -, rfl | rfl⟩ := Ledger.mem_evidenceSteps.1 hs
    · trivial
    · trivial
  · obtain ⟨c, hc, ⟨l, -, rfl⟩ | rfl⟩ := Ledger.mem_clauseSteps.1 hs
    · trivial
    · exact exists_truth_of_mem_clauses hc

/-- **The consequents are settled one after another**, each once it has its rules. -/
theorem hasSettled_of_isPrefix {done : List Nat} (h : done <+: r.consequents) :
    Ledger.Admits r.defaultPrior {} (r.groundingSteps r.clauses ++
        done.map fun i : Nat => .settle i) ∧
      r.HasSettled (Ledger.run r.defaultPrior (r.groundingSteps r.clauses ++
        done.map fun i : Nat => .settle i)) done := by
  induction done using List.reverseRecOn with
  | nil =>
    rw [List.map_nil, List.append_nil]
    exact ⟨r.admits_groundingSteps _, r.hasSettled_nil _⟩
  | append_singleton done i ih =>
    obtain ⟨hadmits, hsettled⟩ := ih ((List.prefix_append _ _).trans h)
    have hi : i ∈ r.consequents := h.subset (by simp)
    have hnew : i ∉ done := by
      have hall : r.consequents.Nodup := nodup_eraseDups _
      exact fun hdone => (List.nodup_append.1 (hall.sublist h.sublist)).2.2 i hdone i
        (List.mem_singleton_self i) rfl
    rw [List.map_append, List.map_singleton, ← List.append_assoc]
    refine ⟨Ledger.admits_append.2 ⟨hadmits, ?_, trivial⟩, ?_⟩
    · rw [← Ledger.run]
      change (i : Int) ∈ _
      rw [hsettled.represents.groundings]
      exact List.mem_map_of_mem (mem_groups hi)
    · rw [Ledger.run, Ledger.runFrom_append]
      exact hsettled.settle hi hnew

/-! ### What a build makes of its ledger -/

/-- **The network that is built is that of the ledger.** -/
theorem makes_ledger {net : BayesNet α} {notes : List Event} (h : r.build = .ok (net, notes)) :
    r.ledger.Makes net := by
  have hbuilt := built_of_build h
  have hsettled : r.HasSettled r.ledger r.consequents :=
    (hasSettled_of_isPrefix List.prefix_rfl).2
  refine ⟨?_, fun n => ?_, fun n hn => ?_⟩
  · rw [hbuilt.literals, hsettled.represents.literals]
  · rw [hbuilt.fixed, hsettled.fixed]
    split
    · next hi => rw [(outcome_spec hi (hbuilt.settled n hi)).1]
    · rfl
  · rw [hbuilt.priorProbs n hn, hsettled.priors]
    split
    · next hi => rw [(outcome_spec hi (hbuilt.settled n hi)).2]
    · rfl

/-- **Records that are in step make a network.**  At every point of a build the records are in step,
and at every clause they are those of grounding; each clause has just one literal that is not
negated.  In the end the network is what the ledger makes.  No table sees rules of two consequents
or none, and the network is never refused for a factor over an unknown variable; with a default
prior that can be used, the only fault there is is a table that is too wide. -/
theorem build_keeps_ledger (r : Registry α) :
    (∀ n, (Ledger.run r.defaultPrior (r.steps.take n)).WellFormed) ∧
    (∀ k, (Ledger.run r.defaultPrior (r.groundingSteps (r.clauses.take k))).Represents
      ((GroundState.numberAll {} r.evidence).2.registerEach (r.clauses.take k))) ∧
    r.ledger.Represents r.groundAll.1 ∧
    (∀ c ∈ r.clauses, ∃ head, c.2.filter (·.truth) = [head]) ∧
    (∀ net notes, r.build = .ok (net, notes) → r.ledger.Makes net) ∧
    (∀ fault, r.build = .error (.table fault) → fault = .overflow) ∧
    (1 ≤ r.threads → ∀ fault, r.build = .error (.net fault) → fault = .overflow) ∧
    (StaysLow α → zero < r.defaultPrior → r.defaultPrior < one → 1 ≤ r.threads →
      ∀ e, r.build = .error e → ∃ text n, tableCeiling ≤ n ∧ e = .tooWide text n) := by
  obtain ⟨hadmits, hsettled⟩ := r.hasSettled_of_isPrefix List.prefix_rfl
  refine ⟨fun n => Ledger.wellFormed_empty.runFrom hadmits n, fun k =>
    (represents_groundingSteps _ (List.take_subset _ _)).2, hsettled.represents,
    fun c => exists_filter_truth_eq, fun net notes => makes_ledger, fun fault he => ?_,
    fun hthreads fault he => ?_, fun hlow h0 h1 hthreads e he => ?_⟩
  · rcases exists_of_build_eq_error he with ⟨i, -, -, b, hb, htable⟩ | ⟨-, fault', -, heq⟩
    · rcases tableOf_eq_error hb htable with ⟨-, heq⟩ | ⟨heq, -⟩
      · cases heq
      · exact BuildFault.table.inj heq
    · cases heq
  · rcases exists_of_build_eq_error he with
      ⟨i, -, -, b, hb, htable⟩ | ⟨hall, fault', hassemble, heq⟩
    · rcases tableOf_eq_error hb htable with ⟨-, heq⟩ | ⟨heq, -⟩
      · cases heq
      · cases heq
    · cases heq
      exact (assemble_eq_error hthreads hall hassemble).1
  · obtain ⟨i, -, -, g, -, hwide, heq⟩ := exists_wide_of_build hlow h0 h1 hthreads he
    exact ⟨_, _, hwide, heq⟩

/-- One piece of evidence and one rule make a ledger of two variables, and a network of it. -/
theorem build_keeps_ledger_kinship : letI := unwritten
    let r := (fresh .geometricMean ((1 / 2 : ℝ) : EReal) false 1).after kinshipHistory
    (StaysLow EReal ∧ zero < r.defaultPrior ∧ r.defaultPrior < one ∧ 1 ≤ r.threads) ∧
      r.ledger.literals = [⟨"parent", "Ann", "Bob", true⟩, ⟨"ancestor", "Ann", "Bob", true⟩] ∧
      (∀ n, (Ledger.run r.defaultPrior (r.steps.take n)).WellFormed) ∧
      (∀ e, r.build = .error e → ∃ text n, tableCeiling ≤ n ∧ e = .tooWide text n) ∧
      ∃ net notes, r.build = .ok (net, notes) ∧ r.ledger.Makes net := by
  let _ := unwritten
  intro r
  have hr : r = _ := after_kinshipHistory
  have hmentioned : r.mentioned.eraseDups =
      [⟨"parent", "Ann", "Bob", true⟩, ⟨"ancestor", "Ann", "Bob", true⟩] := by
    rw [hr]
    decide
  obtain ⟨h0, h1⟩ := bounds_of_create create_kinship
  have hd : r.defaultPrior = ((1 / 2 : ℝ) : EReal) := by rw [hr]; rfl
  have hthreads : 1 ≤ r.threads := by
    rw [hr]
    decide
  rw [← hd] at h0 h1
  obtain ⟨net, notes, hbuild⟩ := exists_build_kinship
  obtain ⟨hwell, -, hrep, -, hmakes, -, -, hfault⟩ := r.build_keeps_ledger
  refine ⟨⟨staysLow_ereal, h0, h1, hthreads⟩, ?_, hwell, hfault staysLow_ereal h0 h1 hthreads,
    net, notes, hbuild, hmakes net notes hbuild⟩
  rw [hrep.literals, literals_groundAll, hmentioned]

end Registry

end FactNet
