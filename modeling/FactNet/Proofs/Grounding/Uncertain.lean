import FactNet.Proofs.Factor.Uncertain
import FactNet.Proofs.Grounding.Evidence
import FactNet.Proofs.Grounding.Stored

/-!
# No world is impossible

Every row of a table of the network that is built is uncertain: a grounded rule has a weight whose
log-probabilities are brought into the range that is stored, and the default prior is between zero
and one.  So the entries that are listed for the table are uncertain, and so are those of their
opposites, which are listed beside them.  What a factor gives a world is one of them, and their sum
is a real number: no world is impossible, however many rules speak against it.

## Main definitions

* `EagerTable.IsUncertain` — no entry that is listed is that of a certainty.

## Main results

* `EagerTable.isUncertain_listed` — the entries of an uncertain table are.
* `Registry.isUncertain_tableWith` — the tables of a consequent are uncertain.
* `BayesNet.exists_score_eq` — a network of uncertain tables has real scores.
* `Registry.build_possible` — **every world of the network that is built is possible.**
-/

namespace FactNet

open Scalar RuleTable

theorem GroundedRule.IsWeighted.isUncertain {g : GroundedRule EReal} (h : g.IsWeighted) :
    g.IsUncertain := by
  obtain ⟨w, htrue, hfalse⟩ := h
  exact ⟨htrue ▸ LogProb.isUncertain_clip _, hfalse ▸ LogProb.isUncertain_clip _⟩

/-! ### Entries that are listed -/

/-- No entry of a table is that of a certainty, and there is one for every combination of values,
each with its opposite beside it. -/
structure EagerTable.IsUncertain (t : EagerTable EReal) : Prop where
  entry : ∀ v, LogProb.IsUncertain (t.table.entry v)
  size : t.ifTrue.size = 2 ^ t.table.antecedents.length
  ifTrue : ∀ x ∈ t.ifTrue, LogProb.IsUncertain x
  ifFalse : t.ifFalse = t.ifTrue.map LogProb.opposite

namespace EagerTable

theorem isUncertain_listed {t : RuleTable EReal} (h : ∀ v, LogProb.IsUncertain (t.entry v)) :
    (listed t).IsUncertain where
  entry := h
  size := (size_listed t).1
  ifTrue x hx := by
    obtain ⟨bits, -, rfl⟩ := List.mem_map.1 (List.mem_toArray.1 hx)
    exact h _
  ifFalse := by
    rw [listed, List.map_toArray]
    exact congrArg List.toArray (List.map_congr_left fun x _ => complement_ereal x)

namespace IsUncertain

variable {t : EagerTable EReal}

theorem opposite (h : t.IsUncertain) : ∀ x ∈ t.ifFalse, LogProb.IsUncertain x := by
  intro x hx
  rw [h.ifFalse] at hx
  obtain ⟨y, hy, rfl⟩ := Array.mem_map.1 hx
  exact (h.ifTrue y hy).opposite

/-- What an uncertain table gives a world is one of its entries, or the opposite of one. -/
theorem logProb (h : t.IsUncertain) (w : World) : LogProb.IsUncertain (t.logProb w) := by
  have hplace : t.table.key w.value < t.ifTrue.size := by
    rw [h.size]
    exact pattern_lt _ _
  have hread : ∀ {xs : Array EReal} {i : Nat}, i < xs.size → xs.getD i bottom ∈ xs := by
    intro xs i hi
    rw [Array.getD_eq_getD_getElem?, Array.getElem?_eq_getElem hi]
    exact Array.getElem_mem hi
  unfold EagerTable.logProb
  cases w.value t.table.consequent with
  | true => exact h.ifTrue _ (hread hplace)
  | false => exact h.opposite _ (hread (by rwa [h.ifFalse, Array.size_map]))

end IsUncertain

end EagerTable

/-- The score of a world is a real number where all tables are uncertain. -/
theorem BayesNet.exists_score_eq {net : BayesNet EReal}
    (h : ∀ f ∈ net.factors.toList, ∃ t : EagerTable EReal, f = .eager t ∧ t.IsUncertain)
    (w : World) : ∃ x : ℝ, x ≤ 0 ∧ net.score w = x := by
  rw [score_eq_sum]
  rcases eq_or_ne net.factors.toList [] with hnil | hne
  · exact ⟨0, le_rfl, by rw [hnil]; rfl⟩
  · have huncertain : LogProb.IsUncertain (net.factors.toList.map fun f => f.logProb w).sum := by
      refine LogProb.IsUncertain.sum (by simpa using hne) fun x hx => ?_
      obtain ⟨f, hf, rfl⟩ := List.mem_map.1 hx
      obtain ⟨t, rfl, ht⟩ := h f hf
      exact ht.logProb w
    obtain ⟨x, hx, heq⟩ := LogProb.isUncertain_iff.1 huncertain
    exact ⟨x, hx.le, heq.symm⟩

/-! ### The network that is built -/

namespace Registry

section Build

variable [Numeral EReal] {r : Registry EReal}

/-- The prior that is kept of a consequent is uncertain. -/
theorem isUncertain_priorAt (h0 : 0 < r.defaultPrior) (h1 : r.defaultPrior < 1) (i : Nat) :
    (r.priorAt i).IsUncertain := by
  rcases choosePrior_mem (.default i r.defaultPrior) (r.rulesOf i).eraseDups with heq | ⟨hmem, -⟩
  · rw [priorAt, keptPrior, heq]
    exact GroundedRule.isUncertain_default i h0 h1
  · exact (r.areWeighted_rulesOf i _ (eraseDups_subset _ hmem)).isUncertain

/-- **The tables of a consequent are uncertain.** -/
theorem isUncertain_tableWith (h0 : 0 < r.defaultPrior) (h1 : r.defaultPrior < 1) {i : Nat}
    {b : List (GroundedRule EReal)} (hb : b ∈ groupsOf (r.rulesOf i)) (v : Valuation) :
    LogProb.IsUncertain ((r.tableWith (r.priorAt i) b).entry v) := by
  refine isUncertain_entry (mem_rows_tableWith.2 (.inl rfl)) (choosePrior_antecedents ..) ?_ v
  intro g hg
  rcases mem_rows_tableWith.1 hg with rfl | hg
  · exact isUncertain_priorAt h0 h1 i
  · exact (r.areWeighted_rulesOf i g (mem_groupsOf.1 ⟨b, hb, hg⟩).1).isUncertain

/-- **Every world of the network that is built is possible.**

For every default prior between zero and one there is a registry, whatever the way to merge.  A
network that is built from it after any history has tables for factors, merged in that way, and no
entry of a table is that of a certainty, be it computed for some values or listed, nor is its
opposite, which is listed beside it.  So every world of the network has a real number as its
score. -/
theorem build_possible (method : MergeMethod) {d : EReal} (h0 : 0 < d) (h1 : d < 1)
    (hillClimb : Bool) (threads : Int) :
    ∃ r : Registry EReal, create method d hillClimb threads = .ok r ∧
      ∀ (history : List (Registration EReal)) {net : BayesNet EReal} {notes : List Event},
        (r.after history).build = .ok (net, notes) →
        (∀ f ∈ net.factors.toList, ∃ t : EagerTable EReal, f = .eager t ∧
          t.table.method = method ∧ t.IsUncertain ∧
          (∀ v, LogProb.IsUncertain (LogProb.opposite (t.table.entry v))) ∧
          ∀ x ∈ t.ifFalse, LogProb.IsUncertain x) ∧
        ∀ w : World, w.size = net.literals.size →
          ∃ x : ℝ, x ≤ 0 ∧ net.score? w = .ok (x : EReal) ∧ net.score w = x := by
  refine ⟨_, create_eq_ok method h0 h1 hillClimb threads, fun history {net notes} hbuild => ?_⟩
  have hafter := extends_after (fresh method d hillClimb threads) history
  have hdefault : ((fresh method d hillClimb threads).after history).defaultPrior = d :=
    hafter.defaultPrior_eq
  rw [← hdefault] at h0 h1
  have htables : ∀ f ∈ net.factors.toList, ∃ t : EagerTable EReal, f = .eager t ∧
      t.table.method = method ∧ t.IsUncertain := by
    intro f hf
    obtain ⟨i, -, b, hb, rfl⟩ := (built_of_build hbuild).eager_of_mem_factors h0 h1 hf
    exact ⟨_, rfl, hafter.method_eq,
      EagerTable.isUncertain_listed (isUncertain_tableWith h0 h1 hb)⟩
  refine ⟨fun f hf => ?_, fun w hw => ?_⟩
  · obtain ⟨t, heq, hmethod, ht⟩ := htables f hf
    exact ⟨t, heq, hmethod, ht, fun v => (ht.entry v).opposite, ht.opposite⟩
  · have huncertain : ∀ f ∈ net.factors.toList, ∃ t : EagerTable EReal, f = .eager t ∧
        t.IsUncertain := fun f hf =>
      (htables f hf).imp fun t ⟨heq, _, ht⟩ => ⟨heq, ht⟩
    obtain ⟨x, hx, hscore⟩ := BayesNet.exists_score_eq huncertain w
    exact ⟨x, hx, by rw [(wellMade_of_build hbuild).score?_eq hw, hscore], hscore⟩

end Build

/-- A default prior of one in a hundred thousand, which is below the range that is stored, makes no
world impossible, though it is a row of a table. -/
theorem build_possible_doubt : letI := unwritten
    let d : EReal := ((1 / 10 ^ 5 : ℝ) : EReal)
    let r := (fresh .geometricMean d false 1).after doubtHistory
    (0 < d ∧ d < 1) ∧ ∃ net notes, r.build = .ok (net, notes) ∧
      (∃ t : EagerTable EReal, .eager t ∈ net.factors.toList ∧ t.IsUncertain ∧
        ∃ c, GroundedRule.default c d ∈ t.table.rows) ∧
      ∀ u : Literal → Bool, ∃ x : ℝ, net.score? (net.literals.map u) = .ok (x : EReal) := by
  let _ := unwritten
  intro d r
  obtain ⟨⟨h0, h1⟩, -⟩ := create_doubt
  obtain ⟨net, notes, hbuild, f, hf, hdefault⟩ := exists_default_doubt
  obtain ⟨r₀, hcreate, hpossible⟩ := build_possible .geometricMean h0 h1 false 1
  obtain rfl := eq_fresh_of_create hcreate
  obtain ⟨htables, hscores⟩ := hpossible doubtHistory hbuild
  refine ⟨⟨h0, h1⟩, net, notes, hbuild, ?_, fun u => ?_⟩
  · obtain ⟨t, rfl, -, ht, -⟩ := htables f hf
    exact ⟨t, hf, ht, hdefault⟩
  · obtain ⟨x, -, hscore, -⟩ := hscores (net.literals.map u) (Array.size_map ..)
    exact ⟨x, hscore⟩

end Registry

end FactNet
