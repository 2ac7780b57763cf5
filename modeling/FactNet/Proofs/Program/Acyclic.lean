import FactNet.Proofs.Program.Ancestors

/-!
# Programs without a cycle

Whatever the order in which rules are considered, those that are admitted make no cycle: the
table that they are tested against is exact, so a rule that would close one is refused.  A
rule that stays because it is equal to one that is admitted makes the same edges.

## Main definitions

* `Program.AcyclicPart` — a program without a cycle that is part of another.

## Main results

* `not_hasCycle_admitRules` — the rules that are admitted make no cycle.
* `Program.makeAcyclic_sound` — **what stays is an acyclic part of the program.**
-/

namespace FactNet

variable {α : Type}

/-- The dependencies that placed rules make. -/
def placedEdges (xs : List (Nat × Rule α)) : List Edge :=
  xs.flatMap fun x => x.2.edges

/-! ### Admitted rules -/

/-- The rules that are admitted are considered. -/
theorem admitRules_sublist (t : Ancestors) (xs : List (Nat × Rule α)) :
    (admitRules t xs).Sublist xs := by
  induction xs generalizing t with
  | nil => exact .slnil
  | cons x xs ih =>
    rw [admitRules]
    split
    · exact (ih t).cons x
    · exact (ih _).cons_cons x

/-- **The rules that are admitted make no cycle**, with edges that make none and that the table is
exact for. -/
theorem not_hasCycle_admitRules {t : Ancestors} {edges : List Edge} (ht : t.Exact edges)
    (hedges : ¬ HasCycle edges) (xs : List (Nat × Rule α)) :
    ¬ HasCycle (edges ++ placedEdges (admitRules t xs)) := by
  induction xs generalizing t edges with
  | nil => simpa [admitRules, placedEdges] using hedges
  | cons x xs ih =>
    rw [admitRules]
    split
    · exact ih ht hedges
    · next hr =>
      rw [placedEdges, List.flatMap_cons, ← List.append_assoc]
      exact ih (ht.extend x.2) (not_hasCycle_append ht hedges (Bool.not_eq_true _ ▸ hr))

/-! ### Programs of admitted rules -/

/-- Equal rules make the same edges. -/
theorem Rule.edges_eq_of_beq [BEq α] {r s : Rule α} (h : (r == s) = true) : r.edges = s.edges := by
  have hliterals : r.literals = s.literals := by
    have hboth : (r.weight == s.weight && r.literals == s.literals) = true := h
    exact beq_iff_eq.mp (Bool.and_eq_true_iff.mp hboth).2
  unfold edges bodyNames headNames
  rw [hliterals]

namespace Program

/-- A program without a cycle that is part of another: it has the same predicates, and some of the
rules in their order. -/
structure AcyclicPart (q p : Program α) : Prop where
  predicates_eq : q.predicates = p.predicates
  rules_sublist : q.rules.Sublist p.rules
  not_hasCycle : ¬ HasCycle q.edges

theorem map_snd_placed (rules : List (Rule α)) : (placed rules).map (·.2) = rules := by
  unfold placed
  rw [List.map_map]
  exact List.zipIdx_map_fst 0 rules

/-- There is one rule at a place. -/
theorem eq_of_mem_placed {rules : List (Rule α)} {x y : Nat × Rule α} (hx : x ∈ placed rules)
    (hy : y ∈ placed rules) (h : x.1 = y.1) : x.2 = y.2 := by
  have hget : ∀ z ∈ placed rules, rules[z.1]? = some z.2 := by
    rintro z hz
    obtain ⟨w, hw, rfl⟩ := List.mem_map.mp hz
    exact List.mem_zipIdx_iff_getElem?.mp hw
  have hxy := hget x hx
  rw [h, hget y hy, Option.some.injEq] at hxy
  exact hxy.symm

/-- What stays is an acyclic part, in whatever order the rules are considered. -/
theorem acyclicPart_keeping [BEq α] (p : Program α) {order : List (Nat × Rule α)}
    (horder : order.Perm (placed p.rules)) : (p.keeping order).AcyclicPart p where
  predicates_eq := rfl
  rules_sublist := by
    have h := (List.filter_sublist (p := isAmong (admitRules {} order))
      (l := placed p.rules)).map (·.2)
    rwa [map_snd_placed] at h
  not_hasCycle := by
    have hnone := not_hasCycle_admitRules Ancestors.exact_empty not_hasCycle_nil order
    rw [List.nil_append] at hnone
    refine fun hcycle => hnone (hcycle.mono ?_)
    intro e he
    obtain ⟨r, hr, her⟩ := List.mem_flatMap.mp he
    obtain ⟨x, hx, rfl⟩ := List.mem_map.mp hr
    obtain ⟨hplaced, hamong⟩ := List.mem_filter.mp hx
    obtain ⟨y, hy, hsame⟩ := List.any_eq_true.mp hamong
    have hyplaced : y ∈ placed p.rules := horder.mem_iff.mp ((admitRules_sublist _ _).subset hy)
    refine List.mem_flatMap.mpr ⟨y, hy, ?_⟩
    rcases Bool.or_eq_true_iff.mp hsame with hplace | hequal
    · rwa [eq_of_mem_placed hyplaced hplaced (beq_iff_eq.mp hplace)]
    · rwa [Rule.edges_eq_of_beq hequal]

/-- **What stays is an acyclic part of the program**, when heavier rules are considered first, when
they are considered last, and when rules are considered in any other order. -/
theorem makeAcyclic_sound [Scalar α] (p : Program α) :
    (∀ descending, (p.makeAcyclic descending).AcyclicPart p) ∧
      ∀ order : List (Nat × Rule α), order.Perm (placed p.rules) →
        (p.keeping order).AcyclicPart p :=
  ⟨fun _ => p.acyclicPart_keeping (List.mergeSort_perm _ _), fun _ => p.acyclicPart_keeping⟩

/-- Two predicates that follow from each other. -/
def eachOther : Program Float :=
  ofParts [⟨"knows", "Person", "Person", false⟩, ⟨"meets", "Person", "Person", false⟩]
    [⟨1, [⟨"knows", "x", "y", false⟩, ⟨"meets", "x", "y", true⟩]⟩,
      ⟨2, [⟨"meets", "x", "y", false⟩, ⟨"knows", "x", "y", true⟩]⟩]

/-- A cycle of two rules, the last of which is considered first. -/
theorem makeAcyclic_sound_eachOther :
    let order := (placed eachOther.rules).reverse
    HasCycle eachOther.edges ∧ order.Perm (placed eachOther.rules) ∧
      (eachOther.keeping order).AcyclicPart eachOther := by
  have hperm := List.reverse_perm (placed eachOther.rules)
  refine ⟨hasCycle_iff.mpr ⟨"knows", "meets", by decide, ?_⟩, hperm,
    eachOther.makeAcyclic_sound.2 _ hperm⟩
  exact .single (by decide : ("meets", "knows") ∈ eachOther.edges)

end Program

end FactNet
