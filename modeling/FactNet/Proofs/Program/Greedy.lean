import Mathlib
import FactNet.Proofs.Program.Acyclic
import FactNet.Proofs.Program.WeightOrder

/-!
# Rules refused for a cycle only

The table that rules are tested against never names too many ancestors, so a rule is refused
only if it closes a cycle with those admitted before it.  Whether a rule stays is thus
a decision that looks at the graph alone, made for one rule after another in the order of
their weights.  A rule that is equal to an admitted one closes no cycle either, so the places of
equal rules share one decision.

A program without a cycle therefore loses nothing, selecting twice selects nothing new, and
none of the rules that went can come back.

## Main definitions

* `IsGreedy` — decisions for the rules of an order, each made for those kept before.
* `Program.IsGreedySelection` — a program selected by such decisions.

## Main results

* `Ancestors.Exact.refuses_iff_hasCycle` — **a rule is refused when it closes a cycle.**
* `Program.isGreedy_isAmong` — the rules that stay are chosen one by one.
* `Program.makeAcyclic_greedy` — **nothing is refused needlessly.**
-/

namespace FactNet

variable {α : Type}

/-! ### Going through the rules -/

/-- The table after some rules have been admitted. -/
def Ancestors.extendAll (t : Ancestors) (xs : List (Nat × Rule α)) : Ancestors :=
  xs.foldl (fun t x => t.extend x.2) t

theorem Ancestors.Exact.extendAll {t : Ancestors} {edges : List Edge} (h : t.Exact edges)
    (xs : List (Nat × Rule α)) : (t.extendAll xs).Exact (edges ++ placedEdges xs) := by
  induction xs generalizing t edges with
  | nil => simpa [Ancestors.extendAll, placedEdges] using h
  | cons x xs ih =>
    have hrest := ih (h.extend x.2)
    rwa [List.append_assoc] at hrest

/-- **A rule is refused when it closes a cycle** with edges that make none. -/
theorem Ancestors.Exact.refuses_iff_hasCycle {t : Ancestors} {edges : List Edge}
    (h : t.Exact edges) (hedges : ¬ HasCycle edges) (r : Rule α) :
    t.refuses r = true ↔ HasCycle (edges ++ r.edges) := by
  constructor
  · intro hrefuses
    obtain ⟨a, ha, c, hc, hca⟩ := h.refuses_iff.mp hrefuses
    have hedge : (a, c) ∈ edges ++ r.edges :=
      List.mem_append_right _ (Rule.mem_edges.mpr ⟨ha, hc⟩)
    exact hasCycle_iff.mpr ⟨a, c, hedge, hca.mono (List.subset_append_left _ _)⟩
  · intro hcycle
    by_contra hnot
    exact not_hasCycle_append h hedges (Bool.not_eq_true _ ▸ hnot) hcycle

/-- Rules are admitted one after another, with the table that the earlier ones leave. -/
theorem admitRules_append (t : Ancestors) (xs ys : List (Nat × Rule α)) :
    admitRules t (xs ++ ys) =
      admitRules t xs ++ admitRules (t.extendAll (admitRules t xs)) ys := by
  induction xs generalizing t with
  | nil => rfl
  | cons x xs ih =>
    rw [List.cons_append, admitRules, admitRules]
    split
    · exact ih t
    · rw [ih, List.cons_append]
      rfl

/-- Decisions about the rules of an order: one is kept exactly if it closes no cycle with those that
are kept before it. -/
def IsGreedy (order : List (Nat × Rule α)) (kept : Nat × Rule α → Bool) : Prop :=
  ∀ earlier x later, order = earlier ++ x :: later →
    (kept x = true ↔ ¬ HasCycle (placedEdges (earlier.filter kept) ++ x.2.edges))

namespace Program

variable [BEq α] {p : Program α} {order earlier later : List (Nat × Rule α)} {x : Nat × Rule α}

/-- A rule stays exactly if it closes no cycle with those that are admitted before it. -/
theorem isAmong_iff (horder : order ⊆ placed p.rules) (heq : order = earlier ++ x :: later) :
    isAmong (admitRules {} order) x = true ↔
      ¬ HasCycle (placedEdges (admitRules {} earlier) ++ x.2.edges) := by
  have hnone := not_hasCycle_admitRules (α := α) Ancestors.exact_empty not_hasCycle_nil
  have hexact := Ancestors.exact_empty.extendAll (admitRules {} earlier)
  simp only [List.nil_append] at hnone hexact
  have hadmitted : admitRules {} order = admitRules {} earlier ++
      admitRules (Ancestors.extendAll {} (admitRules {} earlier)) (x :: later) := by
    rw [heq, admitRules_append]
  constructor
  · intro hamong
    obtain ⟨y, hy, hsame⟩ := List.any_eq_true.mp hamong
    -- the rule that `x` stays for makes the edges of `x`
    have hedges : y.2.edges = x.2.edges := by
      rcases Bool.or_eq_true_iff.mp hsame with hplace | hequal
      · have hx : x ∈ order := heq ▸ List.mem_append_right _ List.mem_cons_self
        have hy' : y ∈ order := (admitRules_sublist _ _).subset hy
        rw [eq_of_mem_placed (horder hy') (horder hx) (beq_iff_eq.mp hplace)]
      · exact Rule.edges_eq_of_beq hequal
    refine fun hcycle => hnone order (hcycle.mono ?_)
    refine List.append_subset.mpr ⟨?_, ?_⟩
    · rw [hadmitted, placedEdges, placedEdges, List.flatMap_append]
      exact List.subset_append_left _ _
    · rw [← hedges]
      exact fun e he => List.mem_flatMap.mpr ⟨y, hy, he⟩
  · intro hcycle
    have hrefuses := (hexact.refuses_iff_hasCycle (hnone earlier) x.2).not.mpr hcycle
    refine List.any_eq_true.mpr ⟨x, ?_, by simp⟩
    rw [hadmitted, admitRules, if_neg hrefuses]
    exact List.mem_append_right _ List.mem_cons_self

/-- The earlier rules that stay are those admitted. -/
theorem filter_isAmong (horder : order ⊆ placed p.rules) (heq : order = earlier ++ later) :
    earlier.filter (isAmong (admitRules {} order)) = admitRules {} earlier := by
  induction earlier using List.reverseRecOn generalizing later with
  | nil => rfl
  | append_singleton earlier x ih =>
    rw [List.append_assoc, List.singleton_append] at heq
    have hexact := Ancestors.exact_empty.extendAll (admitRules {} earlier)
    have hnone := not_hasCycle_admitRules Ancestors.exact_empty not_hasCycle_nil earlier
    rw [List.nil_append] at hexact hnone
    have hiff := (isAmong_iff horder heq).trans
      (hexact.refuses_iff_hasCycle hnone x.2).symm.not
    rw [List.filter_append, ih heq, admitRules_append, admitRules]
    refine congrArg (admitRules {} earlier ++ ·) ?_
    split
    · next hrefuses => simp [admitRules, Bool.eq_false_iff.mpr (hiff.not.mpr (not_not.mpr hrefuses))]
    · next hrefuses => simp [admitRules, hiff.mpr hrefuses]

/-- **The rules that stay are chosen one by one.** -/
theorem isGreedy_isAmong (horder : order ⊆ placed p.rules) :
    IsGreedy order (isAmong (admitRules {} order)) := by
  intro earlier x later heq
  rw [filter_isAmong horder heq]
  exact isAmong_iff horder heq

/-! ### What is selected -/

/-- A program whose rules are those that decisions for the rules of another keep. -/
structure IsGreedySelection (p q : Program α) (order : List (Nat × Rule α))
    (kept : Nat × Rule α → Bool) : Prop where
  perm : order.Perm (placed p.rules)
  greedy : IsGreedy order kept
  predicates_eq : q.predicates = p.predicates
  rules_eq : q.rules = ((placed p.rules).filter kept).map (·.2)

theorem isGreedySelection_keeping (p : Program α) (hperm : order.Perm (placed p.rules)) :
    p.IsGreedySelection (p.keeping order) order (isAmong (admitRules {} order)) :=
  ⟨hperm, isGreedy_isAmong hperm.subset, rfl, rfl⟩

namespace IsGreedySelection

omit [BEq α]

variable {q : Program α} {kept : Nat × Rule α → Bool}

/-- The rules kept before some place are rules of the selected program. -/
theorem placedEdges_subset (h : p.IsGreedySelection q order kept) (hsub : earlier ⊆ order) :
    placedEdges (earlier.filter kept) ⊆ q.edges := by
  intro e he
  obtain ⟨y, hy, hey⟩ := List.mem_flatMap.mp he
  obtain ⟨hearlier, hkept⟩ := List.mem_filter.mp hy
  refine List.mem_flatMap.mpr ⟨y.2, ?_, hey⟩
  rw [h.rules_eq]
  exact List.mem_map_of_mem (List.mem_filter.mpr ⟨h.perm.mem_iff.mp (hsub hearlier), hkept⟩)

/-- A rule that is not kept closes a cycle with those that are. -/
theorem hasCycle_of_not_kept (h : p.IsGreedySelection q order kept) (hx : x ∈ placed p.rules)
    (hkept : kept x = false) : HasCycle (q.edges ++ x.2.edges) := by
  obtain ⟨earlier, later, heq⟩ := List.append_of_mem (h.perm.mem_iff.mpr hx)
  have hcycle : HasCycle (placedEdges (earlier.filter kept) ++ x.2.edges) := by
    by_contra hnone
    rw [(h.greedy earlier x later heq).mpr hnone] at hkept
    cases hkept
  have hearlier := h.placedEdges_subset (heq ▸ List.subset_append_left earlier (x :: later))
  exact hcycle.mono (List.append_subset.mpr
    ⟨List.subset_append_of_subset_left _ hearlier, List.subset_append_right _ _⟩)

/-- A program without a cycle keeps every rule. -/
theorem eq_of_not_hasCycle (h : p.IsGreedySelection q order kept) (hnone : ¬ HasCycle p.edges) :
    q = p := by
  have hsub : q.edges ⊆ p.edges := by
    have hrules : q.rules ⊆ p.rules := by
      rw [h.rules_eq]
      nth_rewrite 2 [← map_snd_placed p.rules]
      exact List.map_subset _ (List.filter_subset_self _)
    exact fun e he => List.mem_flatMap.mpr
      ((List.mem_flatMap.mp he).imp fun r hr => ⟨hrules hr.1, hr.2⟩)
  have hall : ∀ x ∈ placed p.rules, kept x = true := by
    intro x hx
    by_contra hnot
    refine hnone ((h.hasCycle_of_not_kept hx (Bool.not_eq_true _ ▸ hnot)).mono ?_)
    refine List.append_subset.mpr ⟨hsub, fun e he => List.mem_flatMap.mpr ⟨x.2, ?_, he⟩⟩
    rw [← map_snd_placed p.rules]
    exact List.mem_map_of_mem hx
  have hrules := h.rules_eq
  rw [List.filter_eq_self.mpr hall, map_snd_placed] at hrules
  obtain ⟨predicates, rules, ordered⟩ := p
  obtain ⟨predicates', rules', ordered'⟩ := q
  cases h.predicates_eq
  cases hrules
  rfl

/-- A rule that is put back, at whatever place, closes a cycle. -/
theorem hasCycle_put_back (h : p.IsGreedySelection q order kept) (hx : x ∈ placed p.rules)
    (hkept : kept x = false) {front back : List (Rule α)} (hrules : q.rules = front ++ back) :
    HasCycle (q.withRules (front ++ x.2 :: back)).edges := by
  refine (h.hasCycle_of_not_kept hx hkept).mono ?_
  intro e he
  simp only [edges, withRules, hrules, List.flatMap_append, List.flatMap_cons,
    List.mem_append] at he ⊢
  rcases he with (he | he) | he
  · exact .inl he
  · exact .inr (.inr he)
  · exact .inr (.inl he)

end IsGreedySelection

/-- **Nothing is refused needlessly**, if every weight is a number.  By weight, heavier rules first
or last, a rule is kept exactly if it closes no cycle with those kept before it.  None of the others
can be put back, a program without a cycle stays as it is, and so does what has been selected. -/
theorem makeAcyclic_greedy (p : Program Float) (hweights : ∀ r ∈ p.rules, r.weight.isNaN = false)
    (descending : Bool) :
    (∃ order kept, IsWeightOrder descending p.rules order ∧
      p.IsGreedySelection (p.makeAcyclic descending) order kept ∧
      ∀ x ∈ placed p.rules, kept x = false →
        ∀ front back, (p.makeAcyclic descending).rules = front ++ back →
          HasCycle ((p.makeAcyclic descending).withRules (front ++ x.2 :: back)).edges) ∧
      (¬ HasCycle p.edges → p.makeAcyclic descending = p) ∧
      ∀ again, (p.makeAcyclic descending).makeAcyclic again = p.makeAcyclic descending := by
  have hselection : ∀ (q : Program Float) (d : Bool), q.IsGreedySelection (q.makeAcyclic d)
      (byWeight d q.rules) (isAmong (admitRules {} (byWeight d q.rules))) := fun q d =>
    q.isGreedySelection_keeping (List.mergeSort_perm _ _)
  have hacyclic : ¬ HasCycle (p.makeAcyclic descending).edges :=
    (p.acyclicPart_keeping (List.mergeSort_perm _ _)).not_hasCycle
  refine ⟨⟨_, _, isWeightOrder_byWeight hweights descending, hselection p descending, ?_⟩, ?_, ?_⟩
  · intro x hx hkept front back hrules
    exact (hselection p descending).hasCycle_put_back hx hkept hrules
  · exact (hselection p descending).eq_of_not_hasCycle
  · intro again
    exact (hselection _ again).eq_of_not_hasCycle hacyclic

/-- Three rules in a circle, the last of which is neither the heaviest nor the lightest. -/
def circle : Program Float :=
  ofParts []
    [⟨1, [⟨"knows", "x", "y", false⟩, ⟨"meets", "x", "y", true⟩]⟩,
      ⟨3, [⟨"meets", "x", "y", false⟩, ⟨"helps", "x", "y", true⟩]⟩,
      ⟨2, [⟨"helps", "x", "y", false⟩, ⟨"knows", "x", "y", true⟩]⟩]

/-- The lightest rule of a circle goes, and cannot be put back. -/
theorem makeAcyclic_greedy_circle :
    (∀ r ∈ circle.rules, r.weight.isNaN = false) ∧
      (∃ order kept, IsWeightOrder true circle.rules order ∧
        circle.IsGreedySelection (circle.makeAcyclic true) order kept) ∧
      (circle.makeAcyclic true).makeAcyclic true = circle.makeAcyclic true := by
  have hweights : ∀ r ∈ circle.rules, r.weight.isNaN = false := by decide
  obtain ⟨⟨order, kept, horder, hselection, -⟩, -, hagain⟩ :=
    circle.makeAcyclic_greedy hweights true
  exact ⟨hweights, ⟨order, kept, horder, hselection⟩, hagain true⟩

end Program

end FactNet
