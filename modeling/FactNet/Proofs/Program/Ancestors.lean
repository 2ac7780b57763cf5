import Mathlib.Data.List.Basic
import Mathlib.Logic.Relation
import FactNet.Program.Acyclic

/-!
# The ancestor table

The table that rules are tested against is built one rule at a time, and the graph it speaks
of is never looked at.  A rule adds an edge from every predicate of its body to every
predicate of its head, so a path over the new edges is either an old one, or an old path to
the body followed by an old path from the head, however often it goes through the rule.
That is what the table does too, so the ancestors it keeps are exactly the predicates that
lead to one, whether or not the rule was tested.

## Main definitions

* `Leads` — some edges lead from a predicate to another, or to itself.
* `Ancestors.Exact` — a table keeps the predicates that lead to one.

## Main results

* `leads_append_edges` — the paths after a rule.
* `Ancestors.Exact.extend` — **a rule keeps the table exact.**
* `not_hasCycle_append` — a rule that is not refused closes no cycle.
-/

namespace FactNet

open Relation

variable {α : Type} {edges : List Edge} {r : Rule α} {t : Ancestors} {x y : String}

/-! ### Paths -/

/-- Some edges lead from a predicate to another, or to itself. -/
def Leads (edges : List Edge) : String → String → Prop :=
  ReflTransGen fun a b => (a, b) ∈ edges

theorem Leads.mono {edges' : List Edge} (hsub : edges ⊆ edges') (h : Leads edges x y) :
    Leads edges' x y :=
  ReflTransGen.mono (fun _ _ hmem => hsub hmem) _ _ h

/-- A cycle starts with some edge. -/
theorem hasCycle_iff : HasCycle edges ↔ ∃ a b, (a, b) ∈ edges ∧ Leads edges b a := by
  constructor
  · rintro ⟨a, h⟩
    obtain ⟨b, hab, hba⟩ := TransGen.head'_iff.mp h
    exact ⟨a, b, hab, hba⟩
  · rintro ⟨a, b, hab, hba⟩
    exact ⟨a, TransGen.head' hab hba⟩

theorem HasCycle.mono {edges' : List Edge} (hsub : edges ⊆ edges') (h : HasCycle edges) :
    HasCycle edges' := by
  obtain ⟨a, b, hab, hba⟩ := hasCycle_iff.mp h
  exact hasCycle_iff.mpr ⟨a, b, hsub hab, hba.mono hsub⟩

theorem not_hasCycle_nil : ¬ HasCycle [] := by
  rw [hasCycle_iff]
  rintro ⟨a, b, hab, -⟩
  cases hab

/-- **The paths after a rule** are the old ones, and those that go through the rule once. -/
theorem leads_append_edges : Leads (edges ++ r.edges) x y ↔
    Leads edges x y ∨
      ∃ a ∈ r.bodyNames, ∃ c ∈ r.headNames, Leads edges x a ∧ Leads edges c y := by
  constructor
  · intro h
    induction h with
    | refl => exact .inl .refl
    | tail _ hedge ih =>
      rcases List.mem_append.mp hedge with hold | hnew
      · rcases ih with hxy | ⟨a, ha, c, hc, hxa, hcy⟩
        · exact .inl (hxy.tail hold)
        · exact .inr ⟨a, ha, c, hc, hxa, hcy.tail hold⟩
      · obtain ⟨ha', hc'⟩ := Rule.mem_edges.mp hnew
        rcases ih with hxy | ⟨a, ha, c, hc, hxa, hcy⟩
        · exact .inr ⟨_, ha', _, hc', hxy, .refl⟩
        · -- what comes between two uses of the rule is not needed
          exact .inr ⟨a, ha, _, hc', hxa, .refl⟩
  · have hsub : edges ⊆ edges ++ r.edges := List.subset_append_left _ _
    rintro (hxy | ⟨a, ha, c, hc, hxa, hcy⟩)
    · exact hxy.mono hsub
    · have hac : (a, c) ∈ edges ++ r.edges :=
        List.mem_append_right _ (Rule.mem_edges.mpr ⟨ha, hc⟩)
      exact ((hxa.mono hsub).tail hac).trans (hcy.mono hsub)

/-! ### What the table does -/

theorem mem_unionTexts {xs ys : List String} : x ∈ unionTexts xs ys ↔ x ∈ xs ∨ x ∈ ys := by
  unfold unionTexts
  induction ys generalizing xs with
  | nil => simp
  | cons y ys ih =>
    rw [List.foldl_cons, ih, List.mem_cons, ← or_assoc]
    refine or_congr_left ?_
    split
    · next hmem =>
      rw [List.contains_iff_mem] at hmem
      exact ⟨.inl, fun h => h.elim id fun hxy => hxy ▸ hmem⟩
    · rw [List.mem_append, List.mem_singleton]

namespace Ancestors

@[simp] theorem of_empty (name : String) : of {} name = [name] := rfl

/-- Entering a predicate changes no ancestors. -/
@[simp] theorem of_enter (t : Ancestors) (entered name : String) :
    (t.enter entered).of name = t.of name := by
  unfold enter
  split
  · rfl
  · unfold of
    rw [List.find?_append]
    cases t.entries.find? fun e => e.1 == name with
    | some e => rfl
    | none =>
      by_cases hname : entered = name
      · simp [hname]
      · simp [hname]

theorem of_foldl_enter (t : Ancestors) (entered : List String) (name : String) :
    (entered.foldl enter t).of name = t.of name := by
  induction entered generalizing t with
  | nil => rfl
  | cons e entered ih => rw [List.foldl_cons, ih, of_enter]

/-- A predicate that is entered is found. -/
theorem find?_enter_ne_none (t : Ancestors) (name : String) :
    ((t.enter name).entries.find? fun e => e.1 == name) ≠ none := by
  unfold enter
  split
  · next h => simpa [List.find?_eq_none] using h
  · simp [List.find?_append]

/-- Ancestors are given to the predicates whose ancestors have the one named among them. -/
theorem mem_of_inherit {inherited : List String} {head : String} :
    x ∈ (t.inherit inherited head).of y ↔
      x ∈ t.of y ∨ (x ∈ inherited ∧ head ∈ t.of y) := by
  rw [← of_enter t head y]
  unfold inherit of
  dsimp only
  rw [List.find?_map]
  have hkey : ((fun e : String × List String => e.1 == y) ∘ fun e : String × List String =>
      if e.2.contains head then (e.1, unionTexts e.2 inherited) else e) = fun e => e.1 == y := by
    funext e
    dsimp only [Function.comp_apply]
    split <;> rfl
  rw [hkey]
  cases hfind : (t.enter head).entries.find? fun e => e.1 == y with
  | none =>
    -- a predicate without an entry is not the one that has just been entered
    have hne : head ≠ y := fun h => find?_enter_ne_none t head (h ▸ hfind)
    simp [hne]
  | some e =>
    dsimp only [Option.map_some]
    by_cases hmem : head ∈ e.2
    · simp [hmem, mem_unionTexts]
    · simp [hmem]

theorem mem_of_foldl_inherit {inherited heads : List String} :
    x ∈ (heads.foldl (fun t c => t.inherit inherited c) t).of y ↔
      x ∈ t.of y ∨ (x ∈ inherited ∧ ∃ c ∈ heads, c ∈ t.of y) := by
  induction heads generalizing t with
  | nil => simp
  | cons head heads ih =>
    rw [List.foldl_cons, ih]
    simp only [mem_of_inherit, List.exists_mem_cons_iff]
    constructor
    · rintro ((hx | ⟨hx, hhead⟩) | ⟨hx, c, hc, hcy | ⟨-, hhead⟩⟩)
      · exact .inl hx
      · exact .inr ⟨hx, .inl hhead⟩
      · exact .inr ⟨hx, .inr ⟨c, hc, hcy⟩⟩
      · -- what is inherited is given already
        exact .inr ⟨hx, .inl hhead⟩
    · rintro (hx | ⟨hx, hhead | ⟨c, hc, hcy⟩⟩)
      · exact .inl (.inl hx)
      · exact .inl (.inr ⟨hx, hhead⟩)
      · exact .inr ⟨hx, c, hc, .inl hcy⟩

theorem mem_foldl_unionTexts {body acc : List String} :
    x ∈ body.foldl (fun acc a => unionTexts acc (t.of a)) acc ↔
      x ∈ acc ∨ ∃ a ∈ body, x ∈ t.of a := by
  induction body generalizing acc with
  | nil => simp
  | cons a body ih =>
    rw [List.foldl_cons, ih, mem_unionTexts, List.exists_mem_cons_iff, or_assoc]

/-- **The ancestors after a rule.** -/
theorem mem_of_extend : x ∈ (t.extend r).of y ↔
    x ∈ t.of y ∨ ∃ a ∈ r.bodyNames, ∃ c ∈ r.headNames, x ∈ t.of a ∧ c ∈ t.of y := by
  unfold extend
  dsimp only
  rw [mem_of_foldl_inherit, mem_foldl_unionTexts]
  simp only [of_foldl_enter, List.not_mem_nil, false_or]
  refine or_congr_right ⟨?_, ?_⟩
  · rintro ⟨⟨a, ha, hxa⟩, c, hc, hcy⟩
    exact ⟨a, ha, c, hc, hxa, hcy⟩
  · rintro ⟨a, ha, c, hc, hxa, hcy⟩
    exact ⟨⟨a, ha, hxa⟩, c, hc, hcy⟩

/-! ### Exact tables -/

/-- A table keeps the predicates that lead to one over some edges. -/
def Exact (t : Ancestors) (edges : List Edge) : Prop :=
  ∀ x y, x ∈ t.of y ↔ Leads edges x y

theorem exact_empty : Exact {} [] := by
  intro x y
  rw [of_empty, List.mem_singleton]
  constructor
  · rintro rfl
    exact .refl
  · intro h
    cases h with
    | refl => rfl
    | tail _ hedge => cases hedge

/-- **A rule keeps the table exact.** -/
theorem Exact.extend (h : t.Exact edges) (r : Rule α) : (t.extend r).Exact (edges ++ r.edges) := by
  intro x y
  rw [mem_of_extend, leads_append_edges, h x y]
  refine or_congr_right ?_
  simp only [h _ _]

/-- A rule is refused when its head leads to its body. -/
theorem Exact.refuses_iff (h : t.Exact edges) :
    t.refuses r = true ↔ ∃ a ∈ r.bodyNames, ∃ c ∈ r.headNames, Leads edges c a := by
  simp only [refuses, List.any_eq_true, List.contains_iff_mem, h _ _]
  refine exists_congr fun a => and_congr_right fun _ => exists_congr fun c => ?_
  exact and_comm

end Ancestors

/-- **A rule that is not refused closes no cycle.** -/
theorem not_hasCycle_append (ht : t.Exact edges) (hold : ¬ HasCycle edges)
    (hr : t.refuses r = false) : ¬ HasCycle (edges ++ r.edges) := by
  have hnot : ∀ a ∈ r.bodyNames, ∀ c ∈ r.headNames, ¬ Leads edges c a := by
    intro a ha c hc hca
    rw [ht.refuses_iff.mpr ⟨a, ha, c, hc, hca⟩] at hr
    cases hr
  rw [hasCycle_iff]
  rintro ⟨x, z, hedge, hzx⟩
  rcases List.mem_append.mp hedge with hedge | hedge
  · rcases leads_append_edges.mp hzx with hzx | ⟨a, ha, c, hc, hza, hcx⟩
    · exact hold (hasCycle_iff.mpr ⟨x, z, hedge, hzx⟩)
    · exact hnot a ha c hc ((hcx.tail hedge).trans hza)
  · obtain ⟨hx, hz⟩ := Rule.mem_edges.mp hedge
    rcases leads_append_edges.mp hzx with hzx | ⟨a, ha, c, hc, hza, hcx⟩
    · exact hnot x hx z hz hzx
    · exact hnot a ha z hz hza

end FactNet
