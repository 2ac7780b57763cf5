import FactNet.Fact.File
import FactNet.Graph
import FactNet.Proofs.Graph
import FactNet.Proofs.Json.Decode
import FactNet.Proofs.Json.Written

/-!
# Fact files that are written and read

The facts of a file are put into a graph, and the facts of the graph are written to a file again.
That file holds the facts of the graph: entities, relations and provenance are as they were, and so
are the scores that are finite numbers.  A fact file may give a fact a score beyond all others, or
one that is no number; such a score is not written, and the fact is read without it.

## Main definitions

* `Fact.kept` — what of a fact is kept in a file.
* `Fact.IsShort` — the sentence of a fact does not have too many digits to be read.

## Main results

* `readFacts_factsText` — **short facts are read as what is kept of them.**
* `isShort_of_readFacts` — the facts of a file are short.
* `readFacts_factsText_edges` — **the facts of a file are read again just if the scores that are
  held are finite.**
-/

namespace FactNet

open FactNet.Json

/-! ### What is kept -/

namespace Fact

/-- What of a fact is kept in a file: all of it, but for a score that is not finite. -/
def kept (f : Fact Float) : Fact Float := { f with score := f.score.filter Float.isFinite }

/-- The sentence of a fact does not have too many digits to be read. -/
def IsShort (f : Fact Float) : Prop :=
  ∀ p, f.provenance = some p → ∀ n, p.sentence = some n → n.natAbs < 10 ^ mostDigits

variable {f : Fact Float}

theorem kept_eq_self_iff : f.kept = f ↔ ∀ x, f.score = some x → x.isFinite = true := by
  obtain ⟨head, relation, tail, score, provenance⟩ := f
  cases score with
  | none => simp [kept]
  | some x => simp [kept, Option.filter_some]

end Fact

/-! ### Members -/

section Members

variable {β : Type} {v : Json} {name : String} {f : Json → Outcome β}

theorem needed_eq_ok_iff {b : β} :
    needed v name f = .ok b ↔ ∃ m, v.member? name = some m ∧ f m = .ok b := by
  unfold needed
  cases v.member? name <;> simp

/-- A member that may be missing is read if it is there. -/
theorem exists_of_optional_eq_ok {b : β} (h : optional v name f = .ok (some b)) :
    ∃ m, v.member? name = some m ∧ f m = .ok b := by
  unfold optional at h
  split at h
  · cases h
  · cases h
  · next m _ hm =>
    cases hf : f m with
    | error fs =>
      rw [hf] at h
      cases h
    | ok c =>
      rw [hf] at h
      cases h
      exact ⟨m, hm, hf⟩

/-- What may be missing is read as it was written. -/
theorem optional_jsonOrNull {g : β → Json} {b : Option β}
    (hm : v.member? name = some (jsonOrNull g b))
    (h : ∀ c, b = some c → g c ≠ .null ∧ f (g c) = .ok c) : optional v name f = .ok b := by
  unfold optional
  rw [hm]
  cases b with
  | none => rfl
  | some c =>
    obtain ⟨hne, hread⟩ := h c rfl
    rw [jsonOrNull]
    split
    · next heq => cases heq
    · next heq => exact absurd (Option.some.inj heq) hne
    · next heq =>
      cases heq
      rw [hread]
      rfl

end Members

/-! ### Facts as JSON -/

theorem EntityType.ofName?_name (t : EntityType) : ofName? t.name = some t := by
  cases t <;> decide +kernel

theorem entityOfJson_json (e : Entity) : entityOfJson e.json = .ok e := by
  have hname : needed e.json "name" (fun m => .ofExcept (asText m)) = .ok e.name := rfl
  have htype : needed e.json "type" (fun m => .ofExcept (entityTypeOfJson m)) = .ok e.type := by
    refine needed_eq_ok_iff.2 ⟨.text e.type.name, rfl, ?_⟩
    rw [entityTypeOfJson, EntityType.ofName?_name]
    rfl
  show ((Outcome.start Entity.mk).also (needed e.json _ _)).also (needed e.json _ _) = _
  rw [hname, htype]
  rfl

theorem provenanceOfJson_json (p : Provenance) : provenanceOfJson p.json = .ok p := by
  have hdocument : needed p.json "doc_id" (fun m => .ofExcept (asText m)) = .ok p.document := rfl
  have hsentence : optional p.json "sentence_index" (fun m => .ofExcept (asWhole m)) =
      .ok p.sentence := optional_jsonOrNull rfl fun n _ => ⟨nofun, rfl⟩
  have hofficial : truthOr p.json "is_official" = .ok p.official := rfl
  show (((Outcome.start Provenance.mk).also (needed p.json _ _)).also (optional p.json _ _)).also
    (truthOr p.json _) = _
  rw [hdocument, hsentence, hofficial]
  rfl

/-- **A fact is made of what it is written as.** -/
theorem factOfJson_json (f : Fact Float) : factOfJson f.json = .ok f := by
  have hhead : needed f.json "entity" entityOfJson = .ok f.head :=
    needed_eq_ok_iff.2 ⟨f.head.json, rfl, entityOfJson_json f.head⟩
  have hrelation : needed f.json "relation" (fun m => .ofExcept (asText m)) = .ok f.relation := rfl
  have htail : needed f.json "slot" entityOfJson = .ok f.tail :=
    needed_eq_ok_iff.2 ⟨f.tail.json, rfl, entityOfJson_json f.tail⟩
  have hscore : optional f.json "score" (fun m => .ofExcept (asNumber m)) = .ok f.score :=
    optional_jsonOrNull rfl fun x _ => ⟨nofun, rfl⟩
  have hprovenance : optional f.json "provenance" provenanceOfJson = .ok f.provenance :=
    optional_jsonOrNull rfl fun p _ => ⟨nofun, provenanceOfJson_json p⟩
  show (((((Outcome.start Fact.mk).also (needed f.json _ _)).also (needed f.json _ _)).also
    (needed f.json _ _)).also (optional f.json _ _)).also (optional f.json _ _) = _
  rw [hhead, hrelation, htail, hscore, hprovenance]
  rfl

/-! ### Writing and reading -/

namespace Fact

variable {f : Fact Float}

/-- What is kept of the JSON of a fact is the JSON of what is kept of the fact. -/
theorem kept_json (f : Fact Float) : Json.kept f.json = f.kept.json := by
  obtain ⟨head, relation, tail, score, provenance⟩ := f
  have hscore : Json.kept (jsonOrNull .number score) =
      jsonOrNull .number (score.filter Float.isFinite) := by
    cases score with
    | none => rfl
    | some x =>
      rw [jsonOrNull, Json.kept, Option.filter_some]
      split <;> rfl
  have hprovenance : Json.kept (jsonOrNull Provenance.json provenance) =
      jsonOrNull Provenance.json provenance := by
    cases provenance with
    | none => rfl
    | some p => cases p with | mk document sentence official => cases sentence <;> rfl
  show Json.object [_, _, _, ("score", Json.kept _), ("provenance", Json.kept _)] = _
  rw [hscore, hprovenance]
  rfl

/-- A short fact is within the limits of what can be read. -/
theorem IsShort.isWithin_json (h : f.IsShort) (depth : Nat) : IsWithin (depth + 2) f.json := by
  have hentity (e : Entity) : IsWithin (depth + 1) e.json := .object (by simp [IsWithin.text])
  have hscore : IsWithin (depth + 1) (jsonOrNull .number f.score) := by
    cases f.score with
    | none => exact .null _
    | some x => exact .number _ x
  have hprovenance : IsWithin (depth + 1) (jsonOrNull Provenance.json f.provenance) := by
    cases hp : f.provenance with
    | none => exact .null _
    | some p =>
      have hsentence : IsWithin depth (jsonOrNull .int p.sentence) := by
        cases hn : p.sentence with
        | none => exact .null _
        | some n => exact .int _ (h p hp n hn)
      exact .object (by simp [IsWithin.text, IsWithin.bool, hsentence])
  exact .object (by simp [hentity, IsWithin.text, hscore, hprovenance])

end Fact

theorem items_map {β : Type} {f : Json → Outcome β} {g : β → Json} (h : ∀ b, f (g b) = .ok b)
    (bs : List β) (i : Nat) : Outcome.items f i (bs.map g) = .ok bs := by
  induction bs generalizing i with
  | nil => rfl
  | cons b bs ih =>
    rw [List.map_cons, Outcome.items, h, ih]
    rfl

/-- **Short facts are read as what is kept of them.** -/
theorem readFacts_factsText {facts : List (Fact Float)} (h : ∀ f ∈ facts, f.IsShort) :
    readFacts (factsText facts) = .ok (facts.map Fact.kept) := by
  have hwithin : IsWithin deepest (.list (facts.map Fact.json)) := by
    refine .list fun v hv => ?_
    obtain ⟨f, hf, rfl⟩ := List.mem_map.1 hv
    exact (h f hf).isWithin_json 197
  have hkept : Json.kept (.list (facts.map Fact.json)) =
      .list ((facts.map Fact.kept).map Fact.json) := by
    rw [Json.kept, keptItems_eq, List.map_map, List.map_map]
    exact congrArg Json.list (List.map_congr_left fun f _ => f.kept_json)
  rw [readFacts, factsText, read?_indented hwithin, hkept]
  exact items_map factOfJson_json _ 0

/-! ### The facts of a file -/

theorem isShort_of_provenanceOfJson {depth : Nat} {v : Json} {p : Provenance}
    (hv : IsWithin depth v) (h : provenanceOfJson v = .ok p) {n : Int} (hn : p.sentence = some n) :
    n.natAbs < 10 ^ mostDigits := by
  cases v with
  | object members =>
    simp only [provenanceOfJson, Outcome.also_eq_ok_iff, Outcome.start_eq_ok_iff] at h
    obtain ⟨_, official, ⟨_, sentence, ⟨_, document, rfl, -, rfl⟩, hsentence, rfl⟩, -, rfl⟩ := h
    dsimp only at hn
    rw [hn] at hsentence
    obtain ⟨m, hm, hread⟩ := exists_of_optional_eq_ok hsentence
    obtain ⟨inner, hinner⟩ := hv.member? hm
    exact natAbs_lt_of_asWhole hinner (Outcome.ofExcept_eq_ok_iff.1 hread)
  | _ => cases h

theorem isShort_of_factOfJson {depth : Nat} {v : Json} {f : Fact Float} (hv : IsWithin depth v)
    (h : factOfJson v = .ok f) : f.IsShort := by
  cases v with
  | object members =>
    simp only [factOfJson, Outcome.also_eq_ok_iff, Outcome.start_eq_ok_iff] at h
    obtain ⟨_, provenance, ⟨_, score, ⟨_, tail, ⟨_, relation, ⟨_, head, rfl, -, rfl⟩, -, rfl⟩, -,
      rfl⟩, -, rfl⟩, hprovenance, rfl⟩ := h
    intro p hp n hn
    dsimp only at hp
    rw [hp] at hprovenance
    obtain ⟨m, hm, hread⟩ := exists_of_optional_eq_ok hprovenance
    obtain ⟨inner, hinner⟩ := hv.member? hm
    exact isShort_of_provenanceOfJson hinner hread hn
  | _ => cases h

theorem exists_of_items {β : Type} {f : Json → Outcome β} {i : Nat} {vs : List Json} {bs : List β}
    (h : Outcome.items f i vs = .ok bs) : ∀ b ∈ bs, ∃ v ∈ vs, f v = .ok b := by
  induction vs generalizing i bs with
  | nil =>
    cases h
    exact nofun
  | cons v vs ih =>
    simp only [Outcome.items, Outcome.also_eq_ok_iff, Outcome.start_eq_ok_iff,
      Outcome.within_eq_ok_iff] at h
    obtain ⟨_, rest, ⟨_, b, rfl, hb, rfl⟩, hrest, rfl⟩ := h
    intro c hc
    rcases List.mem_cons.1 hc with rfl | hc
    · exact ⟨v, List.mem_cons_self, hb⟩
    · obtain ⟨w, hw, hread⟩ := ih hrest c hc
      exact ⟨w, List.mem_cons_of_mem v hw, hread⟩

/-- The facts of a file are short. -/
theorem isShort_of_readFacts {text : String} {facts : List (Fact Float)}
    (h : readFacts text = .ok facts) : ∀ f ∈ facts, f.IsShort := by
  intro f hf
  rw [readFacts] at h
  split at h
  · cases h
  · next items hitems =>
    obtain ⟨v, hv, hread⟩ := exists_of_items h f hf
    cases isWithin_of_read? hitems with
    | list hwithin => exact isShort_of_factOfJson (hwithin v hv) hread
  · cases h

namespace FactGraph

/-- The facts of a graph are among those it is made of. -/
theorem mem_of_mem_facts_addAll {facts : List (Fact Float)} {g : FactGraph Float} {f : Fact Float}
    (h : f ∈ (g.addAll facts).facts) : f ∈ g.facts ∨ f ∈ facts := by
  induction facts generalizing g with
  | nil => exact .inl h
  | cons new facts ih =>
    rcases ih h with h | h
    · rcases mem_facts_add h with h | rfl
      · exact .inl h
      · exact .inr List.mem_cons_self
    · exact .inr (List.mem_cons_of_mem new h)

theorem mem_of_mem_edges_ofFacts {facts : List (Fact Float)} {f : Fact Float}
    (h : f ∈ (ofFacts facts).edges) : f ∈ facts := by
  have hfacts : f ∈ (ofFacts facts).facts := by
    simp only [edges, outgoing, List.mem_flatMap, mem_gathered, List.mem_filter] at h
    obtain ⟨_, _, hf, _⟩ := h
    exact hf
  exact (mem_of_mem_facts_addAll hfacts).resolve_left nofun

end FactGraph

/-- **The facts of a file are read again just if the scores that are held are finite.** -/
theorem readFacts_factsText_edges {text : String} {facts : List (Fact Float)}
    (h : readFacts text = .ok facts) :
    readFacts (factsText (FactGraph.ofFacts facts).edges) =
        .ok ((FactGraph.ofFacts facts).edges.map Fact.kept) ∧
      (readFacts (factsText (FactGraph.ofFacts facts).edges) = .ok (FactGraph.ofFacts facts).edges ↔
        ∀ f ∈ (FactGraph.ofFacts facts).edges, ∀ x, f.score = some x → x.isFinite = true) := by
  have hshort : ∀ f ∈ (FactGraph.ofFacts facts).edges, f.IsShort := fun f hf =>
    isShort_of_readFacts h f (FactGraph.mem_of_mem_edges_ofFacts hf)
  have hread := readFacts_factsText hshort
  refine ⟨hread, ?_⟩
  rw [hread, Except.ok.injEq]
  calc (FactGraph.ofFacts facts).edges.map Fact.kept = (FactGraph.ofFacts facts).edges
      ↔ (FactGraph.ofFacts facts).edges.map Fact.kept = (FactGraph.ofFacts facts).edges.map id := by
        rw [List.map_id]
    _ ↔ ∀ f ∈ (FactGraph.ofFacts facts).edges, f.kept = f := List.map_inj_left
    _ ↔ _ := forall₂_congr fun f _ => Fact.kept_eq_self_iff

/-! ### A file with a score -/

deriving instance DecidableEq for Fact

/-- Someone is born somewhere. -/
def scoredBirth (score : Float) : Fact Float :=
  ⟨⟨"Ann", .person⟩, "bornIn", ⟨"Canada", .country⟩, some score, none⟩

/-- A file that says so. -/
def scoredBirthText (score : String) : String :=
  "[\x7b\"entity\": \x7b\"name\": \"Ann\", \"type\": \"PERSON\"\x7d, \"relation\": \"bornIn\", "
    ++ "\"slot\": \x7b\"name\": \"Canada\", \"type\": \"cry\"\x7d, \"score\": " ++ score ++ "\x7d]"

theorem eq_ok_of_toOption {ε β : Type} {x : Except ε β} {b : β} (h : x.toOption = some b) :
    x = .ok b := by
  cases x with
  | ok c => exact congrArg _ (Option.some.inj h)
  | error e => cases h

/-- A fact with a score of one half is read again. -/
theorem readFacts_factsText_edges_half :
    readFacts (scoredBirthText "5e-1") = .ok [scoredBirth 0.5] ∧
      readFacts (factsText (FactGraph.ofFacts [scoredBirth 0.5]).edges) =
        .ok (FactGraph.ofFacts [scoredBirth 0.5]).edges := by
  have hread : readFacts (scoredBirthText "5e-1") = .ok [scoredBirth 0.5] :=
    eq_ok_of_toOption (by decide +kernel)
  refine ⟨hread, (readFacts_factsText_edges hread).2.2 ?_⟩
  have hedges : (FactGraph.ofFacts [scoredBirth 0.5]).edges = [scoredBirth 0.5] := by
    decide +kernel
  rw [hedges]
  intro f hf x hx
  obtain rfl := List.mem_singleton.1 hf
  cases hx
  decide +kernel

/-- A fact whose score is beyond all others is read without it. -/
theorem readFacts_factsText_edges_infinite :
    readFacts (scoredBirthText "Infinity") = .ok [scoredBirth (1.0 / 0.0)] ∧
      readFacts (factsText (FactGraph.ofFacts [scoredBirth (1.0 / 0.0)]).edges) ≠
        .ok (FactGraph.ofFacts [scoredBirth (1.0 / 0.0)]).edges := by
  have hback : readFacts (factsText (FactGraph.ofFacts [scoredBirth (1.0 / 0.0)]).edges) =
      .ok [{ scoredBirth (1.0 / 0.0) with score := none }] := eq_ok_of_toOption (by decide +kernel)
  refine ⟨eq_ok_of_toOption (by decide +kernel), fun h => ?_⟩
  exact absurd (Except.ok.inj (hback.symm.trans h)) (by decide +kernel)

end FactNet
