import FactNet.Log.Rotation
import FactNet.Proofs.Text.Trim

/-!
# Texts that spell a size

A size is spelled by digits of any script, blanks, and the letters of a unit in any case, with
blanks around them.  No letter of a unit is a digit or a blank, so that a text can be taken apart in
one way only, and what is read is the number times the bytes of the unit.

Whether a text spells a size at all is decided by letters that fold together, and there the Kelvin
sign is a `K`; which unit it is, is decided by capital letters, and there the Kelvin sign is its own
capital.  So one kind of text passes the first test and fails the second: kilobytes that are spelled
with the Kelvin sign are refused with a fault of their own.

## Main definitions

* `IsSizeText` — the digits and the letters that a text consists of, blanks aside.
* `SpellsSize` — a text with the number of bytes that it stands for.
* `SpellsKelvin` — a text with the Kelvin sign in its unit.

## Main results

* `isSome_bytesOfUnit?_unitLetter` — what passes the first test only has the Kelvin sign.
* `IsSizeText.parts` — a text is taken apart into its digits and its letters.
* `parseSize_spec` — **what a text stands for, which texts are malformed, and which are refused for
  their unit.**
* `parseSize_kelvin` — a size that is refused for its unit.
-/

namespace FactNet

open FactNet.Text

/-- A text is digits, blanks and a row of letters, with blanks around them. -/
structure IsSizeText (text : String) (digits unit : List Char) : Prop where
  /-- Nothing but blanks stands before, between and after. -/
  layout : ∃ before between after, text.toList = before ++ (digits ++ between ++ unit) ++ after ∧
    ∀ c ∈ before ++ between ++ after, isBlank c = true
  /-- There are digits. -/
  some_digit : digits ≠ []
  /-- They may be of any script. -/
  digits_isDigit : ∀ c ∈ digits, isDigit c = true

/-- A text spells a number of bytes: it is digits and a unit in letters of any case, and the number
is that many times the bytes of the unit. -/
def SpellsSize (text : String) (n : Nat) : Prop :=
  ∃ digits unit bytes, IsSizeText text digits unit ∧
    bytesOfUnit? (unit.map Char.toUpper) = some bytes ∧ n = naturalOf digits * bytes

/-- A text is digits and `KB` in letters of any case, but with the Kelvin sign for the first. -/
def SpellsKelvin (text : String) : Prop :=
  ∃ digits b, IsSizeText text digits [kelvinSign, b] ∧ b.toUpper = 'B'

/-! ### The letters of units -/

/-- The letters of the units in either case, and the Kelvin sign. -/
def unitLetters : List Char := ['B', 'b', 'K', 'k', kelvinSign, 'M', 'm', 'G', 'g']

theorem unitLetters_plain : ∀ c ∈ unitLetters, isBlank c = false ∧ isDigit c = false := by
  have hall : unitLetters.all (fun c => !isBlank c && !isDigit c) = true := by decide +kernel
  simpa using hall

theorem toUpper_kelvinSign : kelvinSign.toUpper = kelvinSign := by decide

theorem eq_of_toUpper {c u : Char} (h : c.toUpper = u) :
    c = u ∨ c = Char.ofNat (u.toNat + 32) := by
  unfold Char.toUpper at h
  split at h
  · next hc =>
    subst h
    right
    have hbounds : 97 ≤ c.val.toNat ∧ c.val.toNat ≤ 122 := by
      simpa [UInt32.le_iff_toNat_le] using hc
    have hnat : (c.val + ('A'.val - 'a'.val)).toNat + 32 = c.val.toNat := by
      simp only [UInt32.toNat_add, UInt32.toNat_sub, Char.reduceVal, UInt32.reduceToNat]
      omega
    show c = Char.ofNat ((c.val + ('A'.val - 'a'.val)).toNat + 32)
    rw [hnat]
    exact (Char.ofNat_toNat c).symm
  · exact .inl h

/-- The Kelvin sign is the only character that folds to another letter than its capital. -/
theorem unitLetter_eq_iff {c u : Char} : unitLetter c = u ↔
    c.toUpper = u ∧ c ≠ kelvinSign ∨ c = kelvinSign ∧ u = 'K' := by
  unfold unitLetter
  split
  · next hc => simp [hc, eq_comm]
  · next hc => simp [hc]

theorem mem_unitLetters {c u : Char} (hu : u ∈ ['B', 'K', 'M', 'G']) (h : unitLetter c = u) :
    c ∈ unitLetters := by
  rcases unitLetter_eq_iff.1 h with ⟨h, -⟩ | ⟨rfl, -⟩
  · simp only [List.mem_cons, List.not_mem_nil, or_false] at hu
    rcases hu with rfl | rfl | rfl | rfl <;> rcases eq_of_toUpper h with rfl | rfl <;> decide
  · decide

theorem isSome_bytesOfUnit?_iff {u : List Char} : (bytesOfUnit? u).isSome = true ↔
    u = ['B'] ∨ ∃ c ∈ ['K', 'M', 'G'], u = [c, 'B'] := by
  constructor
  · intro h
    unfold bytesOfUnit? at h
    split at h
    · exact .inl rfl
    · exact .inr ⟨'K', by simp, rfl⟩
    · exact .inr ⟨'M', by simp, rfl⟩
    · exact .inr ⟨'G', by simp, rfl⟩
    · cases h
  · rintro (rfl | ⟨c, hc, rfl⟩)
    · rfl
    · simp only [List.mem_cons, List.not_mem_nil, or_false] at hc
      rcases hc with rfl | rfl | rfl <;> rfl

/-- What folds to a unit consists of letters of units. -/
theorem forall_mem_unitLetters {unit : List Char}
    (h : (bytesOfUnit? (unit.map unitLetter)).isSome = true) :
    unit ≠ [] ∧ ∀ c ∈ unit, c ∈ unitLetters := by
  rcases isSome_bytesOfUnit?_iff.1 h with h | ⟨u, hu, h⟩
  · obtain ⟨c, rfl, hc⟩ := List.map_eq_singleton_iff.1 h
    refine ⟨by simp, fun d hd => ?_⟩
    rw [List.mem_singleton.1 hd]
    exact mem_unitLetters (by simp) hc
  · obtain ⟨c, t, rfl, hc, ht⟩ := List.map_eq_cons_iff.1 h
    obtain ⟨b, rfl, hb⟩ := List.map_eq_singleton_iff.1 ht
    refine ⟨by simp, fun d hd => ?_⟩
    have hmem : u ∈ ['B', 'K', 'M', 'G'] := List.mem_cons_of_mem _ hu
    rcases List.mem_cons.1 hd with rfl | hd
    · exact mem_unitLetters hmem hc
    · rw [List.mem_singleton.1 hd]
      exact mem_unitLetters (by simp) hb

theorem map_unitLetter {unit : List Char} (h : kelvinSign ∉ unit) :
    unit.map unitLetter = unit.map Char.toUpper := by
  refine List.map_congr_left fun c hc => ?_
  rw [unitLetter, if_neg]
  rintro rfl
  exact h hc

/-- With the Kelvin sign a unit is spelled in one way, and that is not with its capital letters. -/
theorem bytesOfUnit?_of_mem {unit : List Char} (h : kelvinSign ∈ unit) :
    bytesOfUnit? (unit.map Char.toUpper) = none ∧
      ((bytesOfUnit? (unit.map unitLetter)).isSome = true ↔
        ∃ b, unit = [kelvinSign, b] ∧ unitLetter b = 'B') := by
  constructor
  · have hmem : kelvinSign ∈ unit.map Char.toUpper :=
      List.mem_map.2 ⟨kelvinSign, h, toUpper_kelvinSign⟩
    rw [← Option.not_isSome_iff_eq_none, isSome_bytesOfUnit?_iff]
    rintro (hunit | ⟨c, hc, hunit⟩)
    · rw [hunit] at hmem
      exact absurd hmem (by decide)
    · rw [hunit] at hmem
      simp only [List.mem_cons, List.not_mem_nil, or_false] at hc
      rcases hc with rfl | rfl | rfl <;> exact absurd hmem (by decide)
  · rw [isSome_bytesOfUnit?_iff]
    constructor
    · rintro (hunit | ⟨u, -, hunit⟩)
      · obtain ⟨c, rfl, hc⟩ := List.map_eq_singleton_iff.1 hunit
        rw [← List.mem_singleton.1 h] at hc
        exact absurd hc (by decide)
      · obtain ⟨c, t, rfl, -, ht⟩ := List.map_eq_cons_iff.1 hunit
        obtain ⟨b, rfl, hb⟩ := List.map_eq_singleton_iff.1 ht
        have hne : kelvinSign ≠ b := by
          rintro rfl
          exact absurd hb (by decide)
        obtain rfl : kelvinSign = c := by simpa [hne] using h
        exact ⟨b, rfl, hb⟩
    · rintro ⟨b, rfl, hb⟩
      exact .inr ⟨'K', by simp, by simp [hb, show unitLetter kelvinSign = 'K' from rfl]⟩

/-! ### Taking a text apart -/

/-- No digit is a blank. -/
theorem not_isBlank_of_isDigit {c : Char} (h : isDigit c = true) : isBlank c = false := by
  have htable : ∀ z ∈ digitZeros, ∀ i < 10, isBlank (Char.ofNat (z + i)) = false := by
    decide +kernel
  obtain ⟨d, hd⟩ := Option.isSome_iff_exists.1 h
  obtain ⟨z, hz, -⟩ := Option.map_eq_some_iff.1 hd
  have hrange := List.find?_some hz
  simp only [Bool.and_eq_true, decide_eq_true_eq] at hrange
  have hc := htable z (List.mem_of_find?_eq_some hz) (c.toNat - z) (by omega)
  rwa [Nat.add_sub_cancel' hrange.1, Char.ofNat_toNat] at hc

/-- **A text that ends in the letters of a unit is taken apart into its digits and these letters.** -/
theorem IsSizeText.parts {text : String} {digits unit : List Char} (h : IsSizeText text digits unit)
    (hne : unit ≠ []) (hunit : ∀ c ∈ unit, c ∈ unitLetters) :
    (trim text.toList).takeWhile isDigit = digits ∧
      trimStart ((trim text.toList).dropWhile isDigit) = unit := by
  obtain ⟨⟨before, between, after, htext, hblank⟩, hdigits, hdigit⟩ := h
  simp only [List.append_assoc, List.forall_mem_append] at hblank
  obtain ⟨hbefore, hbetween, hafter⟩ := hblank
  have htrimmed : trim (digits ++ between ++ unit) = digits ++ between ++ unit := by
    rw [trim_eq_self_iff]
    constructor
    · intro c hc
      obtain ⟨d, ds, rfl⟩ := List.exists_cons_of_ne_nil hdigits
      obtain rfl : d = c := by simpa using hc
      exact not_isBlank_of_isDigit (hdigit d (by simp))
    · intro c hc
      rw [List.getLast?_append_of_ne_nil _ hne] at hc
      exact (unitLetters_plain c (hunit c (List.mem_of_getLast? hc))).1
  have htrim : trim text.toList = digits ++ (between ++ unit) := by
    rw [← List.append_assoc]
    refine trim_eq_iff.2 ⟨htrimmed, before, after, htext, ?_⟩
    exact List.forall_mem_append.2 ⟨hbefore, hafter⟩
  -- what follows the digits is no digit: it is a blank or a letter
  have hstop : ∀ c ∈ (between ++ unit).head?, isDigit c = false := by
    intro c hc
    rcases List.mem_append.1 (List.mem_of_mem_head? hc) with hc | hc
    · refine Bool.eq_false_iff.2 fun hd => ?_
      exact absurd (hbetween c hc) (by simp [not_isBlank_of_isDigit hd])
    · exact (unitLetters_plain c (hunit c hc)).2
  obtain ⟨b, bs, hbs⟩ := List.exists_cons_of_ne_nil (List.append_ne_nil_of_right_ne_nil between hne)
  have hb : isDigit b = false := hstop b (by rw [hbs]; rfl)
  constructor
  · rw [htrim, List.takeWhile_append_of_pos hdigit, hbs, List.takeWhile_cons_of_neg (by simp [hb]),
      List.append_nil]
  · rw [htrim, List.dropWhile_append_of_pos hdigit, hbs, List.dropWhile_cons_of_neg (by simp [hb]),
      ← hbs, trimStart_append_of_blanks _ hbetween, trimStart_eq_self_iff]
    exact fun c hc => (unitLetters_plain c (hunit c (List.mem_of_mem_head? hc))).1

/-- What stands between the blanks at the ends of a text is digits, blanks, and what follows. -/
theorem isSizeText_parts {text : String}
    (h : (trim text.toList).takeWhile isDigit ≠ []) :
    IsSizeText text ((trim text.toList).takeWhile isDigit)
      (trimStart ((trim text.toList).dropWhile isDigit)) := by
  obtain ⟨-, before, after, htext, hblank⟩ := trim_eq_iff.1 (rfl : trim text.toList = _)
  obtain ⟨between, hrest, hbetween⟩ := exists_trimStart ((trim text.toList).dropWhile isDigit)
  refine ⟨⟨before, between, after, ?_, ?_⟩, h, fun _ => List.mem_takeWhile_imp⟩
  · rw [List.append_assoc _ between, ← hrest, List.takeWhile_append_dropWhile]
    exact htext
  · simp only [List.forall_mem_append] at hblank ⊢
    exact ⟨⟨hblank.1, hbetween⟩, hblank.2⟩

/-! ### Reading sizes -/

/-- A text without digits in front of a unit is malformed. -/
theorem parseSize_eq_of_forall {text : String}
    (h : ∀ digits unit, IsSizeText text digits unit →
      (bytesOfUnit? (unit.map unitLetter)).isSome = false) :
    parseSize text = .error (.malformed text) := by
  unfold parseSize
  dsimp only
  rw [if_pos]
  by_cases hdigits : (trim text.toList).takeWhile isDigit = []
  · simp [hdigits]
  · have hunit := h _ _ (isSizeText_parts hdigits)
    simp only [Option.isSome_eq_false_iff] at hunit
    simp [hunit]

/-- A text with digits in front of what folds to a unit is read by the capitals of that. -/
theorem IsSizeText.parseSize_eq {text : String} {digits unit : List Char}
    (h : IsSizeText text digits unit)
    (hunit : (bytesOfUnit? (unit.map unitLetter)).isSome = true) :
    parseSize text = match bytesOfUnit? (unit.map Char.toUpper) with
      | some bytes => .ok (naturalOf digits * bytes)
      | none => .error (.unknownUnit (String.ofList (unit.map Char.toUpper))) := by
  obtain ⟨hne, hletters⟩ := forall_mem_unitLetters hunit
  obtain ⟨hdigits, hrest⟩ := h.parts hne hletters
  unfold parseSize
  dsimp only
  rw [hdigits, hrest]
  refine (if_neg ?_).trans rfl
  simp [h.some_digit, hunit, Option.isNone_iff_eq_none, ← Option.not_isSome_iff_eq_none]

theorem SpellsSize.parseSize_eq {text : String} {n : Nat} (h : SpellsSize text n) :
    parseSize text = .ok n := by
  obtain ⟨digits, unit, bytes, htext, hbytes, rfl⟩ := h
  have hk : kelvinSign ∉ unit := by
    intro hk
    rw [(bytesOfUnit?_of_mem hk).1] at hbytes
    cases hbytes
  rw [htext.parseSize_eq (by rw [map_unitLetter hk, hbytes]; rfl), hbytes]

theorem SpellsKelvin.parseSize_eq {text : String} (h : SpellsKelvin text) :
    parseSize text = .error (.unknownUnit (String.ofList [kelvinSign, 'B'])) := by
  obtain ⟨digits, b, htext, hb⟩ := h
  obtain ⟨hnone, hiff⟩ := bytesOfUnit?_of_mem (List.mem_cons_self (a := kelvinSign) (l := [b]))
  have hfold : unitLetter b = 'B' := by
    refine unitLetter_eq_iff.2 (.inl ⟨hb, ?_⟩)
    rintro rfl
    exact absurd hb (by decide)
  rw [htext.parseSize_eq (hiff.2 ⟨b, rfl, hfold⟩), hnone]
  simp only [List.map_cons, List.map_nil, toUpper_kelvinSign, hb]

/-- What folds to a unit is that unit in either case, or has the Kelvin sign in place of a `K`. -/
theorem IsSizeText.spells {text : String} {digits unit : List Char}
    (h : IsSizeText text digits unit)
    (hunit : (bytesOfUnit? (unit.map unitLetter)).isSome = true) :
    (∃ n, SpellsSize text n) ∨ SpellsKelvin text := by
  by_cases hk : kelvinSign ∈ unit
  · obtain ⟨b, rfl, hb⟩ := (bytesOfUnit?_of_mem hk).2.1 hunit
    rcases unitLetter_eq_iff.1 hb with ⟨hb, -⟩ | ⟨-, hb⟩
    · exact .inr ⟨digits, b, h, hb⟩
    · exact absurd hb (by decide)
  · rw [map_unitLetter hk] at hunit
    obtain ⟨bytes, hbytes⟩ := Option.isSome_iff_exists.1 hunit
    exact .inl ⟨_, digits, unit, bytes, h, hbytes, rfl⟩

/-- A text that spells no size in either way is malformed. -/
theorem parseSize_cases (text : String) :
    (∃ n, SpellsSize text n) ∨ SpellsKelvin text ∨ parseSize text = .error (.malformed text) := by
  by_cases h : ∃ digits unit, IsSizeText text digits unit ∧
      (bytesOfUnit? (unit.map unitLetter)).isSome = true
  · obtain ⟨digits, unit, htext, hunit⟩ := h
    exact (htext.spells hunit).imp id .inl
  · refine .inr (.inr (parseSize_eq_of_forall fun digits unit htext => ?_))
    exact Bool.eq_false_iff.2 fun hunit => h ⟨digits, unit, htext, hunit⟩

/-- **A text stands for the size that it spells with a unit in letters of any case.  It is refused
for its unit just if that is spelled with the Kelvin sign, and as malformed, with its own text, in
all other cases.** -/
theorem parseSize_spec (text : String) :
    (∀ n, parseSize text = .ok n ↔ SpellsSize text n) ∧
    (∀ name, parseSize text = .error (.unknownUnit name) ↔
      SpellsKelvin text ∧ name = String.ofList [kelvinSign, 'B']) ∧
    ∀ t, parseSize text = .error (.malformed t) ↔
      t = text ∧ (∀ n, ¬SpellsSize text n) ∧ ¬SpellsKelvin text := by
  refine ⟨fun n => ⟨fun h => ?_, SpellsSize.parseSize_eq⟩, fun name => ⟨fun h => ?_, ?_⟩,
    fun t => ⟨fun h => ⟨?_, fun n hsize => ?_, fun hkelvin => ?_⟩, ?_⟩⟩
  · rcases parseSize_cases text with ⟨m, hsize⟩ | hkelvin | hmalformed
    · rw [hsize.parseSize_eq] at h
      obtain rfl := Except.ok.inj h
      exact hsize
    · simp [hkelvin.parseSize_eq] at h
    · simp [hmalformed] at h
  · rcases parseSize_cases text with ⟨m, hsize⟩ | hkelvin | hmalformed
    · simp [hsize.parseSize_eq] at h
    · rw [hkelvin.parseSize_eq] at h
      exact ⟨hkelvin, (SizeFault.unknownUnit.inj (Except.error.inj h)).symm⟩
    · simp [hmalformed] at h
  · rintro ⟨hkelvin, rfl⟩
    exact hkelvin.parseSize_eq
  · rcases parseSize_cases text with ⟨m, hsize⟩ | hkelvin | hmalformed
    · simp [hsize.parseSize_eq] at h
    · simp [hkelvin.parseSize_eq] at h
    · rw [hmalformed] at h
      exact (SizeFault.malformed.inj (Except.error.inj h)).symm
  · simp [hsize.parseSize_eq] at h
  · simp [hkelvin.parseSize_eq] at h
  · rintro ⟨rfl, hsize, hkelvin⟩
    rcases parseSize_cases t with ⟨m, hm⟩ | hk | hmalformed
    · exact absurd hm (hsize m)
    · exact absurd hk hkelvin
    · exact hmalformed

/-- **Ten kilobytes that are spelled with the Kelvin sign are refused, and not as malformed.** -/
theorem parseSize_kelvin : parseSize "10\u212aB" = .error (.unknownUnit "\u212aB") := by
  decide +kernel

end FactNet
