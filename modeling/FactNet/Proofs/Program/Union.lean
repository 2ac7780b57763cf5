import FactNet.Proofs.Distinct
import FactNet.Proofs.Double
import FactNet.Program.Reader
import FactNet.Proofs.Program.Declarations

/-!
# Putting programs together

The union of two programs has the rules of the first as they stand, and after them those of the
second that are not there yet, each once.  Whether a rule is there is told by the test of rules for
equality, which takes the two zeros for the same weight.

A rule that the first program repeats stays repeated.  So a union lists every rule once just if the
first program does, as the empty program does, which files are read after.

Adding what is not there yet is associative and adds nothing that is there; and whether a rule
mentions some predicates is the same for equal rules, so leaving these out commutes with it.

## Main results

* `Program.foldl_addRule_assoc`, `Program.filter_foldl_addRule` — the laws of adding rules that are
  not there yet.
* `Program.foldl_addRule_nil` — **after no rules, every rule is listed once.**
* `Program.countP_foldl_addRule`, `Program.foldl_addRule_eq_eraseDups_iff` — how often a rule is
  listed after others, and when each is at its first occurrence only.
* `Program.union_lists_once` — **a union lists every rule once just if its first program does.**
* `Program.union_algebra` — **union is associative and idempotent, and leaving out predicates
  distributes over it.**
-/

namespace FactNet

instance {α : Type} [BEq α] [PartialEquivBEq α] : PartialEquivBEq (Rule α) where
  symm {r s} h := by
    change (r.weight == s.weight && r.literals == s.literals) = true at h
    change (s.weight == r.weight && s.literals == r.literals) = true
    rw [Bool.and_eq_true] at h ⊢
    exact ⟨PartialEquivBEq.symm h.1, PartialEquivBEq.symm h.2⟩
  trans {r s t} h h' := by
    change (r.weight == s.weight && r.literals == s.literals) = true at h
    change (s.weight == t.weight && s.literals == t.literals) = true at h'
    change (r.weight == t.weight && r.literals == t.literals) = true
    rw [Bool.and_eq_true] at h h' ⊢
    exact ⟨PartialEquivBEq.trans h.1 h'.1, PartialEquivBEq.trans h.2 h'.2⟩

/-- Rules that are told to be the same have the same literals. -/
theorem Rule.literals_eq_of_beq {α : Type} [BEq α] {r s : Rule α} (h : (r == s) = true) :
    r.literals = s.literals := by
  change (r.weight == s.weight && r.literals == s.literals) = true at h
  rw [Bool.and_eq_true] at h
  exact eq_of_beq h.2

namespace Program

/-! ### Adding rules that are not there yet -/

section AddRule

variable {α : Type} [BEq α]

theorem addRule_of_any {xs : List (Rule α)} {y : Rule α} (h : xs.any (· == y) = true) :
    addRule xs y = xs := if_pos h

theorem addRule_of_not_any {xs : List (Rule α)} {y : Rule α} (h : xs.any (· == y) = false) :
    addRule xs y = xs ++ [y] := if_neg (by rw [h]; exact Bool.false_ne_true)

theorem foldl_addRule_concat (xs ys : List (Rule α)) (y : Rule α) :
    (ys ++ [y]).foldl addRule xs = addRule (ys.foldl addRule xs) y := List.foldl_append

/-- Where every rule is there, nothing is added. -/
theorem foldl_addRule_eq_self {xs ys : List (Rule α)}
    (h : ∀ y ∈ ys, xs.any (· == y) = true) : ys.foldl addRule xs = xs := by
  induction ys with
  | nil => rfl
  | cons y ys ih =>
    obtain ⟨hy, hys⟩ := List.forall_mem_cons.1 h
    rw [List.foldl_cons, addRule_of_any hy]
    exact ih hys

/-- What is told to be the same as a rule is there among those that are left, if that rule is. -/
theorem any_filter_eq {keep : Rule α → Bool} {y : Rule α}
    (hkeep : ∀ z : Rule α, (z == y) = true → keep z = true) (xs : List (Rule α)) :
    (xs.filter keep).any (· == y) = xs.any (· == y) := by
  rw [List.any_filter]
  refine List.any_congr rfl fun z => ?_
  by_cases hz : (z == y) = true
  · rw [hkeep z hz, Bool.true_and]
  · rw [Bool.eq_false_of_not_eq_true hz, Bool.and_false]

/-- **Leaving out rules commutes with adding them**, if of two that are told to be the same either
both are left out or none. -/
theorem filter_foldl_addRule {keep : Rule α → Bool}
    (hkeep : ∀ r s : Rule α, (r == s) = true → keep r = keep s) (xs ys : List (Rule α)) :
    (ys.foldl addRule xs).filter keep = (ys.filter keep).foldl addRule (xs.filter keep) := by
  induction ys using List.reverseRecOn with
  | nil => rfl
  | append_singleton ys y ih =>
    rw [foldl_addRule_concat, List.filter_append]
    cases hy : keep y with
    | false =>
      have hnone : [y].filter keep = [] := by simp [hy]
      rw [hnone, List.append_nil, ← ih]
      cases hany : (ys.foldl addRule xs).any (· == y) with
      | true => rw [addRule_of_any hany]
      | false => rw [addRule_of_not_any hany, List.filter_append, hnone, List.append_nil]
    | true =>
      have hone : [y].filter keep = [y] := by simp [hy]
      -- what is told to be the same as `y` has not been left out either
      have hsame : ((ys.foldl addRule xs).filter keep).any (· == y) =
          (ys.foldl addRule xs).any (· == y) :=
        any_filter_eq (fun z hz => (hkeep z y hz).trans hy) _
      rw [hone, foldl_addRule_concat, ← ih]
      cases hany : (ys.foldl addRule xs).any (· == y) with
      | true => rw [addRule_of_any hany, addRule_of_any (hsame.trans hany)]
      | false =>
        rw [addRule_of_not_any hany, addRule_of_not_any (hsame.trans hany), List.filter_append,
          hone]

variable [PartialEquivBEq α]

theorem any_addRule (xs : List (Rule α)) (y r : Rule α) :
    (addRule xs y).any (· == r) = (xs.any (· == r) || y == r) := by
  cases hy : xs.any (· == y) with
  | true =>
    rw [addRule_of_any hy]
    by_cases hsame : (y == r) = true
    · rw [← any_beq_congr hsame, hy, Bool.true_or]
    · rw [Bool.eq_false_of_not_eq_true hsame, Bool.or_false]
  | false =>
    rw [addRule_of_not_any hy]
    simp

/-- A rule is there after others have been added just if it was or is one of them. -/
theorem any_foldl_addRule (xs ys : List (Rule α)) (r : Rule α) :
    (ys.foldl addRule xs).any (· == r) = (xs.any (· == r) || ys.any (· == r)) := by
  induction ys generalizing xs with
  | nil => simp
  | cons y ys ih => rw [List.foldl_cons, ih, any_addRule, List.any_cons, Bool.or_assoc]

/-- **Adding rules is associative.** -/
theorem foldl_addRule_assoc (xs ys zs : List (Rule α)) :
    zs.foldl addRule (ys.foldl addRule xs) = (zs.foldl addRule ys).foldl addRule xs := by
  induction zs using List.reverseRecOn with
  | nil => rfl
  | append_singleton zs z ih =>
    rw [foldl_addRule_concat, foldl_addRule_concat, ih]
    cases hz : (zs.foldl addRule ys).any (· == z) with
    | true =>
      have hlarge : ((zs.foldl addRule ys).foldl addRule xs).any (· == z) = true := by
        rw [any_foldl_addRule, hz, Bool.or_true]
      rw [addRule_of_any hz, addRule_of_any hlarge]
    | false => rw [addRule_of_not_any hz, foldl_addRule_concat]

/-- **What is added to some rules** are those that are not among them, each once. -/
theorem foldl_addRule_eq_append (xs ys : List (Rule α)) :
    ys.foldl addRule xs = xs ++ (ys.filter fun y => !xs.any (· == y)).eraseDups := by
  induction ys using List.reverseRecOn with
  | nil => simp
  | append_singleton ys y ih =>
    rw [foldl_addRule_concat, List.filter_append]
    have hadded := any_foldl_addRule xs ys y
    cases hxs : xs.any (· == y) with
    | true =>
      rw [hxs, Bool.true_or] at hadded
      rw [addRule_of_any hadded, ih]
      simp [hxs]
    | false =>
      rw [hxs, Bool.false_or] at hadded
      have hone : [y].filter (fun y => !xs.any (· == y)) = [y] := by simp [hxs]
      -- what is told to be the same as `y` is not among the first rules either
      have hsame : (ys.filter fun y => !xs.any (· == y)).any (· == y) = ys.any (· == y) := by
        refine any_filter_eq (fun z hz => ?_) ys
        rw [any_beq_congr hz, hxs]
        rfl
      rw [hone, eraseDups_concat_any, hsame]
      cases hys : ys.any (· == y) with
      | true => rw [addRule_of_any (hadded.trans hys), if_pos rfl, ih]
      | false =>
        rw [addRule_of_not_any (hadded.trans hys), if_neg Bool.false_ne_true, ih,
          List.append_assoc]

/-- **After no rules, every rule is listed once.** -/
theorem foldl_addRule_nil (ys : List (Rule α)) : ys.foldl addRule [] = ys.eraseDups := by
  rw [foldl_addRule_eq_append, List.nil_append]
  congr 1
  simp

/-- **Each rule is listed once, or as often as it was there.** -/
theorem countP_foldl_addRule {xs ys : List (Rule α)} {s : Rule α} (hself : (s == s) = true)
    (hs : s ∈ xs ++ ys) :
    (ys.foldl addRule xs).countP (s == ·) = max 1 (xs.countP (s == ·)) := by
  rw [foldl_addRule_eq_append, List.countP_append]
  cases hany : xs.any (· == s) with
  | true =>
    -- it is among the first rules, and nothing that is told to be the same is added
    obtain ⟨t, ht, hts⟩ := List.any_eq_true.1 hany
    have hpos : 0 < xs.countP (s == ·) :=
      List.countP_pos_iff.2 ⟨t, ht, PartialEquivBEq.symm hts⟩
    have hzero : (ys.filter fun y => !xs.any (· == y)).eraseDups.countP (s == ·) = 0 := by
      rw [List.countP_eq_zero]
      intro t ht hst
      have hnew := (List.mem_filter.1 (eraseDups_subset _ ht)).2
      rw [← any_beq_congr hst, hany] at hnew
      cases hnew
    omega
  | false =>
    have hnone := List.any_eq_false.1 hany
    have hzero : xs.countP (s == ·) = 0 := by
      rw [List.countP_eq_zero]
      intro t ht hst
      exact hnone t ht (PartialEquivBEq.symm hst)
    have hmem : s ∈ ys := by
      rcases List.mem_append.1 hs with hs | hs
      · exact absurd hself (hnone s hs)
      · exact hs
    have hone : (ys.filter fun y => !xs.any (· == y)).eraseDups.countP (s == ·) = 1 := by
      refine countP_eraseDups (List.mem_filter.2 ⟨hmem, ?_⟩) hself
      rw [hany]
      rfl
    omega

/-- **What is listed is each rule at its first occurrence** just if no rule was there twice. -/
theorem foldl_addRule_eq_eraseDups_iff (xs ys : List (Rule α)) :
    ys.foldl addRule xs = (xs ++ ys).eraseDups ↔ xs.Pairwise fun s t => (s == t) = false := by
  have hany : ∀ s, xs.eraseDups.any (· == s) = xs.any (· == s) := by
    intro s
    rw [← foldl_addRule_nil, any_foldl_addRule, List.any_nil, Bool.false_or]
  have hall : (xs ++ ys).eraseDups =
      xs.eraseDups ++ (ys.filter fun y => !xs.any (· == y)).eraseDups := by
    rw [← foldl_addRule_nil, List.foldl_append, foldl_addRule_nil, foldl_addRule_eq_append]
    simp only [hany]
  rw [foldl_addRule_eq_append, hall, List.append_left_inj, ← eraseDups_eq_self_iff, eq_comm]

end AddRule

/-! ### Unions -/

section Union

variable {α : Type}

/-- Programs with the same predicates and the same rules in order are the same. -/
theorem eq_of_same {p q : Program α} (hpredicates : ∀ d, d ∈ p.predicates ↔ d ∈ q.predicates)
    (hrules : p.rules = q.rules) : p = q := by
  have hanti : Std.Antisymm fun d e : Predicate => d.key < e.key :=
    ⟨fun d e hde hed => absurd hde (lt_asymm hed)⟩
  have hirrefl : Std.Irrefl fun d e : Predicate => d.key < e.key := ⟨fun d => lt_irrefl d.key⟩
  have hlists : p.predicates = q.predicates := p.ordered.eq_of_mem_iff q.ordered hpredicates
  cases p
  cases q
  simp only [mk.injEq]
  exact ⟨hlists, hrules⟩

@[simp] theorem mem_predicates_without {p : Program α} {names : List String} {d : Predicate} :
    d ∈ (p.without names).predicates ↔ d ∈ p.predicates ∧ d.name ∉ names := by
  simp [without]

/-- The rules that are kept are those that mention none of the names. -/
theorem rules_without (p : Program α) (names : List String) :
    (p.without names).rules = p.rules.filter fun r => ∀ l ∈ r.literals, l.name ∉ names := by
  unfold without
  refine List.filter_congr fun r _ => ?_
  rw [Bool.eq_iff_iff]
  simp

theorem without_without (p : Program α) (names : List String) :
    (p.without names).without names = p.without names := by
  refine eq_of_same (fun d => ?_) ?_
  · rw [mem_predicates_without, mem_predicates_without, and_assoc, and_self]
  · rw [rules_without, rules_without, List.filter_filter]
    refine List.filter_congr fun r _ => ?_
    rw [Bool.and_self]

variable [BEq α]

@[simp] theorem mem_predicates_union {p q : Program α} {d : Predicate} :
    d ∈ (p.union q).predicates ↔ d ∈ p.predicates ∨ d ∈ q.predicates := by
  simp [union, ofParts]

theorem rules_union (p q : Program α) : (p.union q).rules = q.rules.foldl addRule p.rules := rfl

theorem union_assoc [PartialEquivBEq α] (p q r : Program α) :
    (p.union q).union r = p.union (q.union r) := by
  refine eq_of_same (fun d => ?_) ?_
  · simp only [mem_predicates_union, or_assoc]
  · rw [rules_union, rules_union, rules_union, rules_union, foldl_addRule_assoc]

/-- A program is added to itself in vain if each of its rules is told to be the same as itself. -/
theorem union_self {p : Program α} (hself : ∀ r ∈ p.rules, (r == r) = true) : p.union p = p := by
  refine eq_of_same (fun d => ?_) ?_
  · rw [mem_predicates_union, or_self]
  · rw [rules_union]
    refine foldl_addRule_eq_self fun r hr => ?_
    exact List.any_eq_true.2 ⟨r, hr, hself r hr⟩

theorem without_union (p q : Program α) (names : List String) :
    (p.union q).without names = (p.without names).union (q.without names) := by
  refine eq_of_same (fun d => ?_) ?_
  · simp only [mem_predicates_union, mem_predicates_without, or_and_right]
  · rw [rules_without, rules_union, rules_union, rules_without, rules_without]
    refine filter_foldl_addRule (fun r s hrs => ?_) p.rules q.rules
    rw [Rule.literals_eq_of_beq hrs]

/-- **Programs that are put together after no rules, as those of several files are, list every rule
once.** -/
theorem rules_foldl_union_empty [PartialEquivBEq α] (ps : List (Program α)) :
    (ps.foldl union empty).rules = (ps.flatMap rules).eraseDups := by
  have hfold : ∀ p : Program α,
      (ps.foldl union p).rules = (ps.flatMap rules).foldl addRule p.rules := by
    induction ps with
    | nil => intro p; rfl
    | cons q ps ih =>
      intro p
      rw [List.foldl_cons, ih, rules_union, List.flatMap_cons, List.foldl_append]
  rw [hfold]
  exact foldl_addRule_nil _

end Union

/-! ### Programs of unit clauses -/

section OfUnits

variable {α : Type}

/-- A program of clauses with one literal each, of the given weights and names. -/
def ofUnits (clauses : List (α × String)) : Program α :=
  ofParts [] (clauses.map fun (weight, name) => ⟨weight, [⟨name, "x", "y", true⟩]⟩)

/-- The program of two equal hard clauses. -/
def twice [Scalar α] : Program α := ofUnits [(Scalar.top, "a"), (Scalar.top, "a")]

/-- A file can have a rule twice. -/
theorem readProgram_twice [Scalar α] [Numeral α] :
    readProgram (α := α) ["a(x,y).", "a(x,y)."] = .ok twice := by
  cbv

end OfUnits

/-! ### Weights that are numbers -/

theorem beq_self_of_isNaN {r : Rule Float} (h : r.weight.isNaN = false) : (r == r) = true := by
  show (r.weight == r.weight && r.literals == r.literals) = true
  rw [(Double.beq_iff h h).2 rfl, beq_self_eq_true]
  rfl

variable {p q r : Program Float}

/-- **A union lists every rule once just if its first program does.**  It has the rules of the first
program as they stand, and after them those of the second that are not among them, each once.  So
each rule of either program is listed once, or as often as the first program has it; and the rules
are those of the first and then the second program, each at its first occurrence only, if and only
if the first program has no rule twice. -/
theorem union_lists_once (hp : ∀ s ∈ p.rules, s.weight.isNaN = false)
    (hq : ∀ s ∈ q.rules, s.weight.isNaN = false) :
    (p.union q).rules = p.rules ++ (q.rules.filter fun s => !p.rules.any (· == s)).eraseDups ∧
    (∀ s ∈ p.rules ++ q.rules,
      (p.union q).rules.countP (s == ·) = max 1 (p.rules.countP (s == ·))) ∧
    ((p.union q).rules = (p.rules ++ q.rules).eraseDups ↔
      p.rules.Pairwise fun s t => (s == t) = false) := by
  refine ⟨foldl_addRule_eq_append p.rules q.rules, ?_,
    foldl_addRule_eq_eraseDups_iff p.rules q.rules⟩
  intro s hs
  have hnumber := List.forall_mem_append.2 ⟨hp, hq⟩ s hs
  exact countP_foldl_addRule (beq_self_of_isNaN hnumber) hs

/-- The first program has no rule twice.  The second one has, and it has one of the first with the
other zero as its weight. -/
theorem union_lists_once_ofUnits :
    ((ofUnits [(1.5, "a"), (0, "b")]).union
      (ofUnits [(2, "c"), (-0.0, "b"), (2, "c"), (1.5, "a")])).rules =
        (ofUnits [(1.5, "a"), (0, "b"), (2, "c")]).rules ∧
    ((ofUnits [(1.5, "a"), (0, "b")]).rules ++
      (ofUnits [(2, "c"), (-0.0, "b"), (2, "c"), (1.5, "a")]).rules).eraseDups =
        (ofUnits [(1.5, "a"), (0, "b"), (2, "c")]).rules := by
  have hunion : ((ofUnits [(1.5, "a"), (0, "b")]).union
      (ofUnits [(2, "c"), (-0.0, "b"), (2, "c"), (1.5, "a")])).rules =
        (ofUnits [(1.5, "a"), (0, "b"), (2, "c")]).rules := by rfl
  refine ⟨hunion, ?_⟩
  rw [← hunion]
  exact ((union_lists_once (by decide) (by decide)).2.2.2 (by decide)).symm

/-- **A rule that a file has twice stays twice**, even where no rule is added. -/
theorem not_lists_once_twice :
    readProgram ["a(x,y).", "a(x,y)."] = .ok (twice : Program Float) ∧
    (∀ s ∈ (twice : Program Float).rules, s.weight.isNaN = false) ∧
    ((twice : Program Float).union empty).rules ≠
      ((twice : Program Float).rules ++ empty.rules).eraseDups := by
  refine ⟨readProgram_twice, by decide, ?_⟩
  intro h
  exact absurd (congrArg List.length h) (by decide)

/-- **Programs form an idempotent algebra.**  Union is associative and a program is added to itself
in vain, in the order of the rules too.  Leaving out some names distributes over union and is done
once and for all; what it leaves mentions none of the names, neither in a predicate nor in a
literal, and it leaves every other predicate and every other rule, in order. -/
theorem union_algebra (hp : ∀ s ∈ p.rules, s.weight.isNaN = false) (names : List String) :
    (p.union q).union r = p.union (q.union r) ∧ p.union p = p ∧
    (p.union q).without names = (p.without names).union (q.without names) ∧
    (p.without names).without names = p.without names ∧
    (∀ d ∈ (p.without names).predicates, d.name ∉ names) ∧
    (∀ s ∈ (p.without names).rules, ∀ l ∈ s.literals, l.name ∉ names) ∧
    (p.without names).predicates = p.predicates.filter (fun d => d.name ∉ names) ∧
    (p.without names).rules = p.rules.filter fun s => ∀ l ∈ s.literals, l.name ∉ names := by
  have hrules := rules_without p names
  refine ⟨union_assoc p q r, union_self fun s hs => beq_self_of_isNaN (hp s hs),
    without_union p q names, without_without p names, ?_, ?_, ?_, hrules⟩
  · intro d hd
    exact (mem_predicates_without.1 hd).2
  · intro s hs
    rw [hrules] at hs
    simpa using (List.mem_filter.1 hs).2
  · unfold without
    refine List.filter_congr fun d _ => ?_
    rw [Bool.eq_iff_iff]
    simp

/-- A program with a rule twice, added to itself and put together with one that has the other zero
as a weight. -/
theorem union_algebra_ofUnits :
    (ofUnits [((1 : Float), "a"), (0, "b"), (1, "a")]).union
        (ofUnits [(1, "a"), (0, "b"), (1, "a")]) =
      ofUnits [(1, "a"), (0, "b"), (1, "a")] ∧
    ((ofUnits [((1 : Float), "a"), (0, "b"), (1, "a")]).union
        (ofUnits [(-0.0, "b"), (3, "c")])).without ["a"] =
      ofUnits [(0, "b"), (3, "c")] := by
  have h := union_algebra (p := ofUnits [((1 : Float), "a"), (0, "b"), (1, "a")])
    (q := ofUnits [(-0.0, "b"), (3, "c")]) (r := empty) (by decide) ["a"]
  obtain ⟨-, hself, hwithout, -⟩ := h
  exact ⟨hself, hwithout.trans (by rfl)⟩

end Program

end FactNet
