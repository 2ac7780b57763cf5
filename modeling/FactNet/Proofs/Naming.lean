import Mathlib
import FactNet.Naming
import FactNet.Proofs.Distinct

/-!
# What names in rule files tell apart

The constant of an entity starts with the short name of its type, in which there is no underscore,
so the type and what has become of the name can be read off it.  What has become of the name says
less than the name does: a hyphen, a blank and an underscore look the same.  A name that is made of
letters, digits and underscores stays as it is.

Relations are told apart by their letters and digits alone.  The catalogue has no two relations
with the same ones, and writing an ASCII name for a rule file changes none of them.

## Main results

* `cleanEntity_eq_iff` — **two entities share a constant just if they have the same type and their
  names look the same in a rule file.**
* `cleanName_of_word` — a name of letters, digits and underscores stays as it is.
* `KnownRelation.find?_eq_some_iff` — a spelling stands for the relation of the catalogue with its
  letters and digits.
* `foldedChars_cleanName`, `foldedChars_graphStart` — writing a name for a rule file and reading it
  back changes none of them.
-/

namespace FactNet

open FactNet.Text

/-! ### Entities -/

/-- Short names tell types apart. -/
theorem EntityType.short_injective {s t : EntityType} (h : s.short = t.short) : s = t := by
  have hall : ∀ s ∈ EntityType.all, ∀ t ∈ EntityType.all, s.short = t.short → s = t := by decide
  exact hall s s.mem_all t t.mem_all h

/-- There is no underscore in a short name. -/
theorem EntityType.underscore_notMem_short (t : EntityType) : '_' ∉ t.short.toList := by
  cases t <;> decide

/-- What stands before and after the first occurrence of an element can be told from the whole. -/
theorem append_cons_inj {β : Type} {sep : β} {as bs cs ds : List β} (has : sep ∉ as)
    (hbs : sep ∉ bs) : as ++ sep :: cs = bs ++ sep :: ds ↔ as = bs ∧ cs = ds := by
  refine ⟨fun h => ?_, by rintro ⟨rfl, rfl⟩; rfl⟩
  induction as generalizing bs with
  | nil =>
    cases bs with
    | nil => exact ⟨rfl, (List.cons.inj h).2⟩
    | cons b bs => exact absurd (List.mem_cons.2 (.inl (List.cons.inj h).1)) hbs
  | cons a as ih =>
    cases bs with
    | nil => exact absurd (List.mem_cons.2 (.inl (List.cons.inj h).1.symm)) has
    | cons b bs =>
      obtain ⟨rfl, htail⟩ := List.cons.inj h
      obtain ⟨rfl, rfl⟩ := ih (List.not_mem_of_not_mem_cons has) (List.not_mem_of_not_mem_cons hbs)
        htail
      exact ⟨rfl, rfl⟩

/-- **Two entities share a constant** just if they have the same type and their names look the same
in a rule file. -/
theorem cleanEntity_eq_iff {e e' : Entity} : cleanEntity e = cleanEntity e' ↔
    e.type = e'.type ∧ cleanName e.name = cleanName e'.name := by
  have hchars : ∀ e : Entity,
      (cleanEntity e).toList = e.type.short.toList ++ '_' :: (cleanName e.name).toList := fun e => by
    simp [cleanEntity]
  rw [← String.toList_inj, hchars, hchars, append_cons_inj (EntityType.underscore_notMem_short _)
    (EntityType.underscore_notMem_short _), String.toList_inj, String.toList_inj]
  exact and_congr_left fun _ => ⟨EntityType.short_injective, congrArg EntityType.short⟩

/-! ### Names that stay as they are -/

/-- A letter, a digit or an underscore is no blank. -/
theorem not_isBlank_of_isWordChar {c : Char} (h : isWordChar c = true) : isBlank c = false := by
  have hcode : (65 ≤ c.toNat ∧ c.toNat ≤ 90) ∨ (97 ≤ c.toNat ∧ c.toNat ≤ 122) ∨
      (48 ≤ c.toNat ∧ c.toNat ≤ 57) ∨ c.toNat = 95 := by
    simpa [isWordChar, Char.isAlphanum, Char.isAlpha, Char.isUpper, Char.isLower, Char.isDigit,
      UInt32.le_iff_toNat_le, Char.ext_iff, UInt32.ext_iff, or_assoc] using h
  simp only [isBlank, Bool.or_eq_false_iff, Bool.and_eq_false_iff, decide_eq_false_iff_not,
    beq_eq_false_iff_ne]
  omega

/-- A name is made of what goes into a rule file as it is. -/
def IsWord (s : String) : Prop :=
  ∀ c ∈ s.toList, isWordChar c = true

/-- What goes into a rule file is made of such characters. -/
theorem isWordChar_of_mem_cleanChars {cs : List Char} {after : Bool} {c : Char}
    (h : c ∈ cleanChars after cs) : isWordChar c = true := by
  have hunder : isWordChar '_' = true := by decide
  induction cs generalizing after with
  | nil => cases h
  | cons d cs ih =>
    rw [cleanChars] at h
    split at h
    · split at h
      · exact ih h
      · rcases List.mem_cons.1 h with rfl | h
        · exact hunder
        · exact ih h
    · rcases List.mem_cons.1 h with rfl | h
      · split
        · assumption
        · exact hunder
      · exact ih h

theorem cleanChars_of_word {cs : List Char} (h : ∀ c ∈ cs, isWordChar c = true) (after : Bool) :
    cleanChars after cs = cs := by
  induction cs generalizing after with
  | nil => rfl
  | cons c cs ih =>
    obtain ⟨hc, hcs⟩ := List.forall_mem_cons.1 h
    simp [cleanChars, not_isBlank_of_isWordChar hc, hc, ih hcs]

/-- A name of letters, digits and underscores stays as it is. -/
theorem cleanName_of_word {s : String} (h : IsWord s) : cleanName s = s := by
  rw [cleanName, cleanChars_of_word h, String.ofList_toList]

/-! ### What tells relations apart -/

/-- The letters and digits that tell relations apart. -/
def foldedChars (cs : List Char) : List Char :=
  (cs.flatMap smallForm).filter fun c => c.isLower || c.isDigit

theorem foldedName_eq (s : String) : foldedName s = String.ofList (foldedChars s.toList) := by
  simp [foldedName, smalls, foldedChars]

theorem foldedChars_append (cs ds : List Char) :
    foldedChars (cs ++ ds) = foldedChars cs ++ foldedChars ds := by
  simp [foldedChars]

theorem foldedChars_cons (c : Char) (cs : List Char) :
    foldedChars (c :: cs) = foldedChars [c] ++ foldedChars cs :=
  foldedChars_append [c] cs

/-- In ASCII only letters and digits tell relations apart. -/
theorem foldedChars_of_not_isWordChar {c : Char} (h : c.toNat < 128) (hword : isWordChar c = false) :
    foldedChars [c] = [] := by
  have hall : ∀ n < 128, isWordChar (Char.ofNat n) = false → foldedChars [Char.ofNat n] = [] := by
    decide +kernel
  have hc := hall c.toNat h
  rw [Char.ofNat_toNat] at hc
  exact hc hword

/-- Neither do separators. -/
theorem foldedChars_cons_of_mem {c : Char} (h : c ∈ ['_', ':']) (cs : List Char) :
    foldedChars (c :: cs) = foldedChars cs := by
  have hnone : foldedChars [c] = [] := by
    obtain rfl | rfl : c = '_' ∨ c = ':' := by simpa using h
    · decide
    · decide
  rw [foldedChars_cons, hnone, List.nil_append]

/-- An ASCII name is told apart by what goes into a rule file. -/
theorem foldedChars_cleanChars {cs : List Char} (h : ∀ c ∈ cs, c.toNat < 128) (after : Bool) :
    foldedChars (cleanChars after cs) = foldedChars cs := by
  induction cs generalizing after with
  | nil => rfl
  | cons c cs ih =>
    obtain ⟨hc, hcs⟩ := List.forall_mem_cons.1 h
    have hunder : ∀ after, foldedChars ('_' :: cleanChars after cs) = foldedChars cs := fun after => by
      rw [foldedChars_cons_of_mem (by simp), ih hcs]
    rw [foldedChars_cons c cs]
    cases hword : isWordChar c with
    | true =>
      simp only [cleanChars, not_isBlank_of_isWordChar hword, hword, Bool.false_eq_true, if_false,
        if_true]
      rw [foldedChars_cons, ih hcs]
    | false =>
      rw [foldedChars_of_not_isWordChar hc hword, List.nil_append]
      simp only [cleanChars, hword, Bool.false_eq_true, if_false]
      split
      · split
        · exact ih hcs true
        · exact hunder true
      · exact hunder false

theorem foldedChars_cleanName {s : String} (h : ∀ c ∈ s.toList, c.toNat < 128) :
    foldedChars (cleanName s).toList = foldedChars s.toList := by
  rw [cleanName, String.toList_ofList, foldedChars_cleanChars h]

/-- The colon in place of an underscore tells nothing apart. -/
theorem foldedChars_graphStart (cs : List Char) : foldedChars (graphStart cs) = foldedChars cs := by
  have hsep : ∀ a b c rest, foldedChars (a :: b :: c :: '_' :: rest) =
      foldedChars (a :: b :: c :: ':' :: rest) := fun a b c rest => by
    have hrest : foldedChars ('_' :: rest) = foldedChars (':' :: rest) := by
      rw [foldedChars_cons_of_mem (by simp), foldedChars_cons_of_mem (by simp)]
    rw [foldedChars_cons a, foldedChars_cons b, foldedChars_cons c, hrest, ← foldedChars_cons c,
      ← foldedChars_cons b, ← foldedChars_cons a]
  unfold graphStart
  split
  · exact (hsep ..).symm
  · exact (hsep ..).symm
  · rfl

/-! ### Relations of the catalogue -/

/-- No two relations of the catalogue have the same letters and digits. -/
theorem nodup_foldedName_catalogue : (catalogue.map fun r => foldedName r.name).Nodup := by
  have hchars : (catalogue.map fun r => foldedChars r.name.toList).Nodup := by decide +kernel
  have hmap : (catalogue.map fun r => foldedName r.name) =
      (catalogue.map fun r => foldedChars r.name.toList).map String.ofList := by
    rw [List.map_map]
    exact List.map_congr_left fun r _ => foldedName_eq r.name
  rw [hmap]
  exact hchars.map fun _ _ h => String.ofList_injective h

/-- A spelling stands for the relation of the catalogue with its letters and digits. -/
theorem KnownRelation.find?_eq_some_iff {s : String} {r : KnownRelation} :
    KnownRelation.find? s = some r ↔
      r ∈ catalogue ∧ foldedChars s.toList = foldedChars r.name.toList := by
  unfold find?
  rw [find?_key_eq_some_iff nodup_foldedName_catalogue, foldedName_eq, foldedName_eq,
    String.ofList_inj, eq_comm]

/-- Spellings with the same letters and digits stand for the same relation. -/
theorem KnownRelation.find?_congr {s s' : String}
    (h : foldedChars s.toList = foldedChars s'.toList) :
    KnownRelation.find? s = KnownRelation.find? s' :=
  Option.ext fun r => by rw [find?_eq_some_iff, find?_eq_some_iff, h]

end FactNet
