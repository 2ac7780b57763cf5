import FactNet.Proofs.Distinct
import FactNet.Proofs.Program.Greedy

/-!
# The table while rules are selected

Looking up the ancestors of a predicate enters it, and a rule is tested by looking up the
predicates of its body one after another until one is found that the head leads to.  So a
refused rule leaves some of its body in the table, and how much depends on the order in which
its predicates are gone through.  An admitted rule changes the sets one head predicate at a
time, each time giving what its body has to whatever descends from that predicate by then.

None of this can be seen in the sets.  Whatever the order in which the rules are considered and
their predicates gone through, the table is the closure of the admitted rules before and after
each of them: the predicates that are met have exactly those that lead to them, and both ends
of every dependency are met.  A predicate that is only looked up has itself alone, which is why
the selection need not remember that it was.

## Main definitions

* `Ancestors.IsClosure` — a table that is the closure of some edges.
* `Ancestors.consult`, `Ancestors.spread`, `Ancestors.adopt` — the test of a rule and its
  admission, with everything that they enter.
* `Traversal`, `Traversal.select` — an order for the predicates of each rule, and the selection that
  goes through them in it.

## Main results

* `Ancestors.spread_eq_inherit` — going through the entries and then the head is one pass.
* `Traversal.isClosure_consider` — a rule keeps the table a closure, refused or not.
* `Traversal.select_isClosure` — **the table is exact before and after every rule.**
-/

namespace FactNet

variable {α : Type} {edges : List Edge} {t : Ancestors} {x y name : String}

namespace Ancestors

/-! ### What is in a table -/

/-- The predicates that have been met. -/
def names (t : Ancestors) : List String :=
  t.entries.map (·.1)

theorem any_entries_iff : (t.entries.any fun e => e.1 == name) = true ↔ name ∈ t.names := by
  simp [names]

theorem enter_of_mem (h : name ∈ t.names) : t.enter name = t :=
  if_pos (any_entries_iff.mpr h)

theorem enter_of_not_mem (h : name ∉ t.names) :
    t.enter name = ⟨t.entries ++ [(name, [name])]⟩ :=
  if_neg (any_entries_iff.not.mpr h)

theorem mem_names_enter : x ∈ (t.enter name).names ↔ x ∈ t.names ∨ x = name := by
  by_cases h : name ∈ t.names
  · rw [enter_of_mem h]
    exact ⟨.inl, fun hx => hx.elim id fun hxn => hxn ▸ h⟩
  · rw [enter_of_not_mem h]
    simp [names]

theorem mem_names_foldl_enter {entered : List String} :
    x ∈ (entered.foldl enter t).names ↔ x ∈ t.names ∨ x ∈ entered := by
  induction entered generalizing t with
  | nil => simp
  | cons e entered ih => rw [List.foldl_cons, ih, mem_names_enter, List.mem_cons, or_assoc]

/-- The table with some ancestors given to the entries that pass a test. -/
def give (t : Ancestors) (p : String × List String → Bool) (inherited : List String) : Ancestors :=
  ⟨t.entries.map fun e => if p e then (e.1, unionTexts e.2 inherited) else e⟩

theorem inherit_eq_give (t : Ancestors) (inherited : List String) (head : String) :
    t.inherit inherited head = (t.enter head).give (fun e => e.2.contains head) inherited :=
  rfl

/-- Sets grow in place, so the predicates that are met stay where they are. -/
@[simp] theorem names_give (t : Ancestors) (p : String × List String → Bool)
    (inherited : List String) : (t.give p inherited).names = t.names := by
  simp only [names, give, List.map_map]
  refine List.map_congr_left fun e _ => ?_
  dsimp only [Function.comp_apply]
  split <;> rfl

theorem names_inherit (inherited : List String) (head : String) :
    (t.inherit inherited head).names = (t.enter head).names :=
  names_give _ _ _

theorem mem_names_foldl_inherit {inherited heads : List String} :
    x ∈ (heads.foldl (fun t c => t.inherit inherited c) t).names ↔ x ∈ t.names ∨ x ∈ heads := by
  induction heads generalizing t with
  | nil => simp
  | cons c heads ih =>
    rw [List.foldl_cons, ih, names_inherit, mem_names_enter, List.mem_cons, or_assoc]

/-- A predicate that is not met has itself alone. -/
theorem of_of_not_mem (h : name ∉ t.names) : t.of name = [name] := by
  have hnone : t.entries.find? (fun e => e.1 == name) = none := by
    rw [List.find?_eq_none]
    exact fun e he hsame => h (beq_iff_eq.mp hsame ▸ List.mem_map_of_mem he)
  rw [of, hnone]

/-! ### One entry for each predicate -/

theorem nodup_names_enter (h : t.names.Nodup) : (t.enter name).names.Nodup := by
  by_cases hmem : name ∈ t.names
  · rwa [enter_of_mem hmem]
  · rw [enter_of_not_mem hmem]
    simpa [names] using List.Nodup.concat hmem h

theorem nodup_names_foldl_enter (h : t.names.Nodup) (entered : List String) :
    (entered.foldl enter t).names.Nodup := by
  induction entered generalizing t with
  | nil => exact h
  | cons e entered ih => exact ih (nodup_names_enter h)

theorem nodup_names_foldl_inherit (h : t.names.Nodup) (inherited heads : List String) :
    (heads.foldl (fun t c => t.inherit inherited c) t).names.Nodup := by
  induction heads generalizing t with
  | nil => exact h
  | cons c heads ih => exact ih (names_inherit inherited c ▸ nodup_names_enter h)

/-- An entry has the ancestors that are found for its predicate. -/
theorem of_eq_of_mem (h : t.names.Nodup) {e : String × List String} (he : e ∈ t.entries) :
    t.of e.1 = e.2 := by
  have hfind : t.entries.find? (fun e' => e'.1 == e.1) = some e :=
    (find?_key_eq_some_iff h).2 ⟨he, rfl⟩
  rw [of, hfind]

/-! ### Closures -/

/-- A table that is the closure of some edges: every predicate that is met is met once and has
exactly the predicates that lead to it, and both ends of every edge are met. -/
structure IsClosure (t : Ancestors) (edges : List Edge) : Prop where
  nodup : t.names.Nodup
  mem_iff : ∀ name ancestors, (name, ancestors) ∈ t.entries →
    ∀ x, x ∈ ancestors ↔ Leads edges x name
  covers : ∀ a c, (a, c) ∈ edges → a ∈ t.names ∧ c ∈ t.names

/-- An exact table in which both ends of every edge are met is a closure. -/
theorem IsClosure.of_exact (hnodup : t.names.Nodup) (h : t.Exact edges)
    (hcovers : ∀ a c, (a, c) ∈ edges → a ∈ t.names ∧ c ∈ t.names) : t.IsClosure edges where
  nodup := hnodup
  mem_iff name ancestors hentry x := by
    have hof : t.of name = ancestors := of_eq_of_mem hnodup hentry
    rw [← hof, h x name]
  covers := hcovers

namespace IsClosure

/-- A closure is exact for every predicate, as nothing leads to one that is not met. -/
theorem exact (h : t.IsClosure edges) : t.Exact edges := by
  intro x y
  by_cases hy : y ∈ t.names
  · obtain ⟨⟨name, ancestors⟩, hentry, rfl⟩ := List.mem_map.mp hy
    rw [show t.of name = ancestors from of_eq_of_mem h.nodup hentry]
    exact h.mem_iff name ancestors hentry x
  · rw [of_of_not_mem hy, List.mem_singleton]
    constructor
    · rintro rfl
      exact .refl
    · intro hxy
      cases hxy with
      | refl => rfl
      | tail _ hedge => exact absurd (h.covers _ _ hedge).2 hy

theorem empty : IsClosure {} [] :=
  .of_exact .nil exact_empty fun _ _ hedge => nomatch hedge

/-- Predicates that are looked up leave a closure one. -/
theorem foldl_enter (h : t.IsClosure edges) (entered : List String) :
    (entered.foldl enter t).IsClosure edges := by
  refine .of_exact (nodup_names_foldl_enter h.nodup entered) ?_ ?_
  · intro x y
    rw [of_foldl_enter]
    exact h.exact x y
  · intro a c hedge
    obtain ⟨ha, hc⟩ := h.covers a c hedge
    exact ⟨mem_names_foldl_enter.mpr (.inl ha), mem_names_foldl_enter.mpr (.inl hc)⟩

end IsClosure

/-! ### The test of a rule -/

/-- Looks up the predicates of a body one after another, until one has a predicate of the head
among its ancestors: whether there is one, and the table with those that were looked up. -/
def consult (heads : List String) : Ancestors → List String → Bool × Ancestors
  | t, [] => (false, t)
  | t, a :: body =>
    let t := t.enter a
    if (t.of a).any heads.contains then (true, t) else consult heads t body

theorem fst_consult (heads : List String) (t : Ancestors) (body : List String) :
    (consult heads t body).1 = body.any fun a => (t.of a).any heads.contains := by
  induction body generalizing t with
  | nil => rfl
  | cons a body ih =>
    rw [consult, List.any_cons]
    split
    · next hfound => rw [← of_enter t a, hfound, Bool.true_or]
    · next hfound =>
      rw [ih, ← of_enter t a, Bool.eq_false_iff.mpr hfound, Bool.false_or]
      simp only [of_enter]

/-- A test only looks up, and it may stop early. -/
theorem snd_consult (heads : List String) (t : Ancestors) (body : List String) :
    ∃ asked, asked <+: body ∧ (consult heads t body).2 = asked.foldl enter t := by
  induction body generalizing t with
  | nil => exact ⟨[], List.prefix_rfl, rfl⟩
  | cons a body ih =>
    rw [consult]
    split
    · exact ⟨[a], ⟨body, rfl⟩, rfl⟩
    · obtain ⟨asked, hasked, htable⟩ := ih (t.enter a)
      exact ⟨a :: asked, List.cons_prefix_cons.mpr ⟨rfl, hasked⟩, htable⟩

/-! ### The admission of a rule -/

/-- The table with some ancestors given to a predicate of a head: first to the entries that descend
from it or are its own, then to it, once it is entered. -/
def spread (t : Ancestors) (inherited : List String) (head : String) : Ancestors :=
  ((t.give (fun e => e.2.contains head || e.1 == head) inherited).enter head).give
    (fun e => e.1 == head) inherited

/-- The table after a rule is admitted, whose body and head are gone through in some order. -/
def adopt (t : Ancestors) (body heads : List String) : Ancestors :=
  let t := body.foldl enter t
  let inherited := body.foldl (fun acc a => unionTexts acc (t.of a)) []
  heads.foldl (fun t c => t.spread inherited c) t

theorem give_congr {p q : String × List String → Bool} (h : ∀ e ∈ t.entries, p e = q e)
    (inherited : List String) : t.give p inherited = t.give q inherited := by
  refine congrArg Ancestors.mk (List.map_congr_left fun e he => ?_)
  rw [h e he]

theorem give_append (t : Ancestors) (e : String × List String) (p : String × List String → Bool)
    (inherited : List String) : give ⟨t.entries ++ [e]⟩ p inherited =
      ⟨(t.give p inherited).entries ++ [if p e then (e.1, unionTexts e.2 inherited) else e]⟩ := by
  simp [give]

theorem unionTexts_eq_self {xs ys : List String} (h : ys ⊆ xs) : unionTexts xs ys = xs := by
  unfold unionTexts
  induction ys with
  | nil => rfl
  | cons y ys ih =>
    obtain ⟨hy, hys⟩ := List.cons_subset.mp h
    rw [List.foldl_cons, if_pos (List.contains_iff_mem.mpr hy)]
    exact ih hys

/-- Entries that have some ancestors are not changed when they are given them. -/
theorem give_eq_self {p : String × List String → Bool} {inherited : List String}
    (h : ∀ e ∈ t.entries, p e = true → inherited ⊆ e.2) : t.give p inherited = t := by
  refine congrArg Ancestors.mk ((List.map_congr_left fun e he => ?_).trans (List.map_id _))
  split
  · next hp => exact Prod.ext rfl (unionTexts_eq_self (h e he hp))
  · rfl

/-- Every predicate that is met is among its own ancestors. -/
def HasSelf (t : Ancestors) : Prop :=
  ∀ e ∈ t.entries, e.1 ∈ e.2

theorem IsClosure.hasSelf (h : t.IsClosure edges) : t.HasSelf :=
  fun e he => (h.mem_iff e.1 e.2 he e.1).mpr .refl

theorem HasSelf.enter (h : t.HasSelf) (name : String) : (t.enter name).HasSelf := by
  by_cases hmem : name ∈ t.names
  · rwa [enter_of_mem hmem]
  · rw [enter_of_not_mem hmem]
    intro e he
    rcases List.mem_append.mp he with he | he
    · exact h e he
    · rw [List.mem_singleton.mp he]
      exact List.mem_singleton_self name

theorem HasSelf.give (h : t.HasSelf) (p : String × List String → Bool) (inherited : List String) :
    (t.give p inherited).HasSelf := by
  intro e he
  obtain ⟨e', he', rfl⟩ := List.mem_map.mp he
  split
  · exact mem_unionTexts.mpr (.inl (h e' he'))
  · exact h e' he'

/-- **Going through the entries and then the head is one pass** over the table with the head in
it. -/
theorem spread_eq_inherit (h : t.HasSelf) (inherited : List String) (head : String) :
    t.spread inherited head = t.inherit inherited head := by
  -- the head's own entry, if there is one, has the head among its ancestors
  have hpass : t.give (fun e => e.2.contains head || e.1 == head) inherited =
      t.give (fun e => e.2.contains head) inherited := by
    refine give_congr (fun e he => ?_) inherited
    by_cases hhead : e.1 = head
    · rw [List.contains_iff_mem.mpr (hhead ▸ h e he), Bool.true_or]
    · rw [beq_false_of_ne hhead, Bool.or_false]
  rw [spread, inherit_eq_give, hpass]
  by_cases hmem : head ∈ t.names
  · rw [enter_of_mem hmem, enter_of_mem (names_give t _ inherited ▸ hmem)]
    refine give_eq_self fun e he hhead => ?_
    obtain ⟨e', he', rfl⟩ := List.mem_map.mp he
    have hname : e'.1 = head := by
      rw [← beq_iff_eq.mp hhead]
      split <;> rfl
    rw [if_pos (List.contains_iff_mem.mpr (hname ▸ h e' he'))]
    exact fun x hx => mem_unionTexts.mpr (.inr hx)
  · have hnot : head ∉ (t.give (fun e => e.2.contains head) inherited).names := by
      rwa [names_give]
    rw [enter_of_not_mem hmem, enter_of_not_mem hnot, give_append, give_append]
    have hold : (t.give (fun e => e.2.contains head) inherited).give (fun e => e.1 == head)
        inherited = t.give (fun e => e.2.contains head) inherited := by
      refine give_eq_self fun e he hhead => absurd ?_ hnot
      have hname : e.1 ∈ (t.give (fun e => e.2.contains head) inherited).names :=
        List.mem_map_of_mem he
      rwa [beq_iff_eq.mp hhead] at hname
    rw [hold]
    simp

theorem foldl_spread_eq_foldl_inherit (h : t.HasSelf) (inherited heads : List String) :
    heads.foldl (fun t c => t.spread inherited c) t =
      heads.foldl (fun t c => t.inherit inherited c) t := by
  induction heads generalizing t with
  | nil => rfl
  | cons c heads ih =>
    rw [List.foldl_cons, List.foldl_cons, spread_eq_inherit h]
    exact ih ((h.enter c).give _ inherited)

/-- **A rule that is admitted keeps the table a closure**, in whatever order its predicates are gone
through. -/
theorem IsClosure.adopt (h : t.IsClosure edges) (r : Rule α) {body heads : List String}
    (hbody : ∀ a, a ∈ body ↔ a ∈ r.bodyNames) (hheads : ∀ c, c ∈ heads ↔ c ∈ r.headNames) :
    (t.adopt body heads).IsClosure (edges ++ r.edges) := by
  have hentered := h.foldl_enter body
  rw [Ancestors.adopt, foldl_spread_eq_foldl_inherit hentered.hasSelf]
  refine .of_exact (nodup_names_foldl_inherit hentered.nodup _ _) ?_ ?_
  · intro x y
    have hextend := h.exact.extend r x y
    rw [Ancestors.extend, mem_of_foldl_inherit, mem_foldl_unionTexts] at hextend
    rw [mem_of_foldl_inherit, mem_foldl_unionTexts]
    simpa only [of_foldl_enter, hbody, hheads] using hextend
  · intro a c hedge
    simp only [mem_names_foldl_inherit, mem_names_foldl_enter, hbody, hheads]
    rcases List.mem_append.mp hedge with hold | hnew
    · obtain ⟨ha, hc⟩ := h.covers a c hold
      exact ⟨.inl (.inl ha), .inl (.inl hc)⟩
    · obtain ⟨ha, hc⟩ := Rule.mem_edges.mp hnew
      exact ⟨.inl (.inr ha), .inr hc⟩

/-- The same for the table that only admitted rules change. -/
theorem IsClosure.extend (h : t.IsClosure edges) (r : Rule α) :
    (t.extend r).IsClosure (edges ++ r.edges) := by
  have hadopt := h.adopt r (fun _ => Iff.rfl) fun _ => Iff.rfl
  rwa [Ancestors.adopt, foldl_spread_eq_foldl_inherit (h.foldl_enter _).hasSelf] at hadopt

theorem IsClosure.extendAll (h : t.IsClosure edges) (xs : List (Nat × Rule α)) :
    (t.extendAll xs).IsClosure (edges ++ placedEdges xs) := by
  induction xs generalizing t edges with
  | nil => simpa [Ancestors.extendAll, placedEdges] using h
  | cons x xs ih =>
    have hrest := ih (h.extend x.2)
    rwa [List.append_assoc] at hrest

end Ancestors

/-! ### The selection -/

/-- An order in which the predicates of the body and those of the head of a rule are gone
through, for each rule at its place. -/
structure Traversal (α : Type) where
  body : Nat × Rule α → List String
  head : Nat × Rule α → List String
  mem_body : ∀ x a, a ∈ body x ↔ a ∈ x.2.bodyNames
  mem_head : ∀ x c, c ∈ head x ↔ c ∈ x.2.headNames

/-- What a selection has at some point: its table, and the rules it has admitted. -/
structure Selection (α : Type) where
  table : Ancestors := {}
  admitted : List (Nat × Rule α) := []

namespace Traversal

/-- The order in which the predicates are written. -/
def written (α : Type) : Traversal α where
  body x := x.2.bodyNames
  head x := x.2.headNames
  mem_body _ _ := Iff.rfl
  mem_head _ _ := Iff.rfl

instance : Inhabited (Traversal α) := ⟨written α⟩

/-- One more rule is considered: it is tested, and admitted unless the test has found that it would
close a cycle. -/
def consider (ρ : Traversal α) (s : Selection α) (x : Nat × Rule α) : Selection α :=
  match Ancestors.consult (ρ.head x) s.table (ρ.body x) with
  | (true, t) => ⟨t, s.admitted⟩
  | (false, t) => ⟨t.adopt (ρ.body x) (ρ.head x), s.admitted ++ [x]⟩

/-- What a selection has after it has considered some rules. -/
def select (ρ : Traversal α) (order : List (Nat × Rule α)) : Selection α :=
  order.foldl ρ.consider {}

variable (ρ : Traversal α) {s : Selection α}

theorem select_concat (order : List (Nat × Rule α)) (x : Nat × Rule α) :
    ρ.select (order ++ [x]) = ρ.consider (ρ.select order) x :=
  List.foldl_concat _ _ _ _

/-- What is found does not depend on the order in which it is looked for. -/
theorem fst_consult_eq_refuses (t : Ancestors) (x : Nat × Rule α) :
    (Ancestors.consult (ρ.head x) t (ρ.body x)).1 = t.refuses x.2 := by
  rw [Ancestors.fst_consult, Bool.eq_iff_iff]
  simp only [Ancestors.refuses, List.any_eq_true, List.contains_iff_mem, ρ.mem_body, ρ.mem_head]

/-- **A rule keeps the table a closure**, whether it is refused or not. -/
theorem isClosure_consider (h : s.table.IsClosure (placedEdges s.admitted)) (x : Nat × Rule α) :
    (ρ.consider s x).table.IsClosure (placedEdges (ρ.consider s x).admitted) := by
  obtain ⟨asked, -, htable⟩ := Ancestors.snd_consult (ρ.head x) s.table (ρ.body x)
  have hasked := h.foldl_enter asked
  rw [← htable] at hasked
  unfold consider
  split
  · next t hconsult => rwa [hconsult] at hasked
  · next t hconsult =>
    rw [hconsult] at hasked
    have hadopt := hasked.adopt x.2 (ρ.mem_body x) (ρ.mem_head x)
    simpa [placedEdges] using hadopt

/-- A rule is admitted if some exact table for the same dependencies does not refuse it. -/
theorem admitted_consider (h : s.table.IsClosure (placedEdges s.admitted)) {t : Ancestors}
    (ht : t.Exact (placedEdges s.admitted)) (x : Nat × Rule α) :
    (ρ.consider s x).admitted = s.admitted ++ admitRules t [x] := by
  have hrefuses : t.refuses x.2 = (Ancestors.consult (ρ.head x) s.table (ρ.body x)).1 := by
    rw [ρ.fst_consult_eq_refuses, Bool.eq_iff_iff, ht.refuses_iff, h.exact.refuses_iff]
  unfold consider admitRules
  rw [hrefuses]
  split
  · next hconsult => simp [hconsult, admitRules]
  · next hconsult => simp [hconsult, admitRules]

/-- The rules that are admitted, and the table that they leave. -/
theorem select_spec (order : List (Nat × Rule α)) :
    (ρ.select order).admitted = admitRules {} order ∧
      (ρ.select order).table.IsClosure (placedEdges (admitRules {} order)) := by
  induction order using List.reverseRecOn with
  | nil => exact ⟨rfl, .empty⟩
  | append_singleton order x ih =>
    obtain ⟨hadmitted, hclosure⟩ := ih
    rw [← hadmitted] at hclosure
    have hexact := Ancestors.exact_empty.extendAll (admitRules {} order)
    rw [List.nil_append, ← hadmitted] at hexact
    have hsame : (ρ.select (order ++ [x])).admitted = admitRules {} (order ++ [x]) := by
      rw [select_concat, ρ.admitted_consider hclosure hexact, admitRules_append, ← hadmitted]
    refine ⟨hsame, ?_⟩
    rw [← hsame, select_concat]
    exact ρ.isClosure_consider hclosure x

/-- **The table is exact before and after every rule.**  Let rules be considered in any order and
their predicates gone through in any order.  Wherever the order is cut, the table at that point is
the closure of the rules admitted before it, be it the one that has all that was looked up or the
one that has the admitted rules alone; both admit the same rules, and the selection goes on from
there. -/
theorem select_isClosure [BEq α] (p : Program α) (earlier later : List (Nat × Rule α)) :
    let admitted := admitRules {} earlier
    let table := Ancestors.extendAll {} admitted
    ((ρ.select earlier).admitted = admitted ∧
      (ρ.select earlier).table.IsClosure (placedEdges admitted) ∧
      ρ.select (earlier ++ later) = later.foldl ρ.consider (ρ.select earlier)) ∧
    (table.IsClosure (placedEdges admitted) ∧
      admitRules {} (earlier ++ later) = admitted ++ admitRules table later) ∧
    p.keeping (earlier ++ later) = p.withRules (((Program.placed p.rules).filter
      (isAmong (ρ.select (earlier ++ later)).admitted)).map (·.2)) := by
  dsimp only
  obtain ⟨hadmitted, hclosure⟩ := ρ.select_spec earlier
  refine ⟨⟨hadmitted, hclosure, List.foldl_append⟩, ⟨?_, admitRules_append _ _ _⟩, ?_⟩
  · have htable := Ancestors.IsClosure.empty.extendAll (admitRules {} earlier)
    rwa [List.nil_append] at htable
  · rw [(ρ.select_spec (earlier ++ later)).1]
    rfl

/-- A rule that is refused for one predicate of its body leaves those that were looked up before. -/
example :
    let order : List (Nat × Rule Nat) :=
      [(0, ⟨2, [⟨"knows", "x", "y", false⟩, ⟨"meets", "x", "y", true⟩]⟩),
        (1, ⟨1, [⟨"helps", "x", "y", false⟩, ⟨"meets", "x", "y", false⟩,
          ⟨"knows", "x", "y", true⟩]⟩)]
    ((written Nat).select order).table.entries =
        [("knows", ["knows"]), ("meets", ["meets", "knows"]), ("helps", ["helps"])] ∧
      (Ancestors.extendAll {} (admitRules {} order)).entries =
        [("knows", ["knows"]), ("meets", ["meets", "knows"])] := by
  decide

end Traversal

end FactNet
