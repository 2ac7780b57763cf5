import FactNet.Text.Blank
import Mathlib.Data.List.Infix
import Mathlib.Data.List.TakeWhile

/-!
# Texts without blanks at their ends

A text is trimmed when trimming leaves it as it is, which is to say that neither its first nor its
last character is a blank.

## Main results

* `trim_eq_self_iff` — the trimmed texts by their first and last characters.
* `trim_trim` — trimming leaves a trimmed text.
* `trim_isInfix` — trimming takes a piece of the text.
* `trim_eq_iff` — **what trimming leaves is the trimmed text that blanks stand around.**
-/

namespace FactNet.Text

theorem trimStart_suffix (cs : List Char) : trimStart cs <:+ cs :=
  List.dropWhile_suffix _

theorem not_isBlank_of_trimStart {cs t : List Char} {c : Char} (h : trimStart cs = c :: t) :
    isBlank c = false := by
  induction cs with
  | nil => exact absurd h (by simp)
  | cons d cs ih =>
    rw [trimStart_cons] at h
    split at h
    · exact ih h
    · next hd =>
      obtain ⟨rfl, -⟩ := List.cons.inj h
      simpa using hd

theorem trimStart_eq_self_iff {cs : List Char} :
    trimStart cs = cs ↔ ∀ c ∈ cs.head?, isBlank c = false := by
  cases cs with
  | nil => simp
  | cons c cs =>
    constructor
    · rintro h d hd
      obtain rfl : c = d := by simpa using hd
      exact not_isBlank_of_trimStart h
    · intro h
      rw [trimStart_cons, if_neg]
      simp [h c (by simp)]

theorem trimStart_append {cs : List Char} (ds : List Char) (h : trimStart cs ≠ []) :
    trimStart (cs ++ ds) = trimStart cs ++ ds := by
  induction cs with
  | nil => exact absurd rfl h
  | cons c cs ih =>
    rw [List.cons_append, trimStart_cons, trimStart_cons] at *
    split
    · next hc => rw [if_pos hc] at h; exact ih h
    · rfl

/-- In front of what trimming leaves at the start stands a blank, if anything was trimmed. -/
theorem trimStart_after_blank {c : Char} {cs t : List Char} (hc : isBlank c = true)
    (h : trimStart cs = t) (ht : t ≠ []) : ∃ b, isBlank b = true ∧ b :: t <:+ c :: cs := by
  induction cs generalizing c with
  | nil => exact absurd h.symm ht
  | cons d cs ih =>
    rw [trimStart_cons] at h
    split at h
    · next hd =>
      obtain ⟨b, hb, hsuffix⟩ := ih hd h
      exact ⟨b, hb, hsuffix.trans (List.suffix_cons c _)⟩
    · exact ⟨c, hc, by rw [h]⟩

/-! ### Both ends -/

theorem trimEnd_eq_self_iff {cs : List Char} :
    trimEnd cs = cs ↔ ∀ c ∈ cs.getLast?, isBlank c = false := by
  rw [trimEnd, List.reverse_eq_iff, trimStart_eq_self_iff, List.head?_reverse]

theorem trimEnd_prefix_self (cs : List Char) : trimEnd cs <+: cs := by
  have h := List.reverse_prefix.2 (trimStart_suffix cs.reverse)
  rwa [List.reverse_reverse] at h

/-- **A text is trimmed when neither its first nor its last character is a blank.** -/
theorem trim_eq_self_iff {cs : List Char} :
    trim cs = cs ↔
      (∀ c ∈ cs.head?, isBlank c = false) ∧ ∀ c ∈ cs.getLast?, isBlank c = false := by
  rw [← trimStart_eq_self_iff, ← trimEnd_eq_self_iff]
  constructor
  · intro h
    have hlength : (trimStart cs).length = cs.length := by
      have h₁ := (trimEnd_prefix_self (trimStart cs)).length_le
      have h₂ := length_trimStart_le cs
      have h₃ := congrArg List.length h
      rw [trim] at h₃
      omega
    have hstart : trimStart cs = cs := (trimStart_suffix cs).eq_of_length hlength
    exact ⟨hstart, by rwa [trim, hstart] at h⟩
  · rintro ⟨hstart, hend⟩
    rw [trim, hstart, hend]

theorem trim_isInfix (cs : List Char) : trim cs <:+: cs :=
  (trimEnd_prefix_self _).isInfix.trans (trimStart_suffix cs).isInfix

/-- **Trimming leaves a trimmed text.** -/
theorem trim_trim (cs : List Char) : trim (trim cs) = trim cs := by
  have hend : trimEnd (trimEnd (trimStart cs)) = trimEnd (trimStart cs) := by
    rw [trimEnd_eq_self_iff, trimEnd, List.getLast?_reverse]
    intro c hc
    cases h : trimStart (trimStart cs).reverse with
    | nil => simp [h] at hc
    | cons d ds =>
      obtain rfl : d = c := by simpa [h] using hc
      exact not_isBlank_of_trimStart h
  have hstart : trimStart (trimEnd (trimStart cs)) = trimEnd (trimStart cs) := by
    rw [trimStart_eq_self_iff]
    intro c hc
    obtain ⟨t, ht⟩ := trimEnd_prefix_self (trimStart cs)
    cases h : trimEnd (trimStart cs) with
    | nil => simp [h] at hc
    | cons d ds =>
      obtain rfl : d = c := by simpa [h] using hc
      rw [h, List.cons_append] at ht
      exact not_isBlank_of_trimStart ht.symm
  rw [trim, trim, hstart, hend]

theorem isBlank_of_trim_eq_nil {cs : List Char} (h : trim cs = []) :
    ∀ c ∈ cs, isBlank c = true := by
  have hstart : trimStart cs = [] := by
    cases hs : trimStart cs with
    | nil => rfl
    | cons c t =>
      rw [trim, hs, trimEnd, List.reverse_eq_nil_iff] at h
      have hall := List.dropWhile_eq_nil_iff.1 h
      have hc := hall c (by simp)
      rw [not_isBlank_of_trimStart hs] at hc
      exact absurd hc (by simp)
  exact List.dropWhile_eq_nil_iff.1 hstart

theorem trimStart_append_of_blanks {bs : List Char} (cs : List Char)
    (h : ∀ c ∈ bs, isBlank c = true) : trimStart (bs ++ cs) = trimStart cs :=
  List.dropWhile_append_of_pos h

theorem exists_trimStart (cs : List Char) :
    ∃ bs, cs = bs ++ trimStart cs ∧ ∀ c ∈ bs, isBlank c = true :=
  ⟨cs.takeWhile isBlank, List.takeWhile_append_dropWhile.symm, fun _ => List.mem_takeWhile_imp⟩

/-- **What trimming leaves is the trimmed text that blanks stand around.** -/
theorem trim_eq_iff {cs t : List Char} : trim cs = t ↔ trim t = t ∧
    ∃ before after, cs = before ++ t ++ after ∧ ∀ c ∈ before ++ after, isBlank c = true := by
  constructor
  · rintro rfl
    obtain ⟨before, hbefore, hblank⟩ := exists_trimStart cs
    obtain ⟨after, hafter, hblank'⟩ := exists_trimStart (trimStart cs).reverse
    refine ⟨trim_trim cs, before, after.reverse, ?_, ?_⟩
    · rw [List.append_assoc, trim, trimEnd, ← List.reverse_append, ← hafter, List.reverse_reverse]
      exact hbefore
    · intro c hc
      rcases List.mem_append.1 hc with hc | hc
      · exact hblank c hc
      · exact hblank' c (List.mem_reverse.1 hc)
  · rintro ⟨htrim, before, after, rfl, hblank⟩
    obtain ⟨hstart, hend⟩ := trim_eq_self_iff.1 htrim
    rw [← trimStart_eq_self_iff] at hstart
    rw [← trimEnd_eq_self_iff, trimEnd] at hend
    have hafter : ∀ c ∈ after.reverse, isBlank c = true := fun c hc =>
      hblank c (List.mem_append_right _ (List.mem_reverse.1 hc))
    rw [trim, List.append_assoc, trimStart_append_of_blanks _ fun c hc =>
      hblank c (List.mem_append_left _ hc)]
    rcases t with _ | ⟨c, t⟩
    · have hnil : trimStart after = [] := List.dropWhile_eq_nil_iff.2 fun c hc =>
        hblank c (List.mem_append_right _ hc)
      rw [List.nil_append, hnil]
      rfl
    · rw [trimStart_append _ (by simp [hstart]), hstart, trimEnd, List.reverse_append,
        trimStart_append_of_blanks _ hafter, hend]

/-- Trimming keeps a first character that is no blank. -/
theorem trim_cons {c : Char} (t : List Char) (hc : isBlank c = false) :
    ∃ t', trim (c :: t) = c :: t' := by
  cases h : trim (c :: t) with
  | nil => exact absurd (isBlank_of_trim_eq_nil h c (by simp)) (by simp [hc])
  | cons d t' =>
    have hstart : trimStart (c :: t) = c :: t := by rw [trimStart_cons, if_neg (by simp [hc])]
    rw [trim, hstart] at h
    obtain ⟨s, hs⟩ := trimEnd_prefix_self (c :: t)
    rw [h, List.cons_append] at hs
    exact ⟨t', by rw [(List.cons.inj hs).1]⟩

/-- Trimming keeps the part of a text from a character that is no blank, the blanks at its end
aside. -/
theorem mem_of_getLast?_trim {u w : List Char} {c d : Char} (hc : isBlank c = false)
    (hd : d ∈ (trim (u ++ c :: w)).getLast?) : d ∈ c :: w := by
  have hstart : ∃ u', trimStart (u ++ c :: w) = u' ++ c :: w := by
    clear hd
    induction u with
    | nil => exact ⟨[], by rw [List.nil_append, trimStart_cons, if_neg (by simp [hc])]⟩
    | cons e u ih =>
      rw [List.cons_append, trimStart_cons]
      split
      · exact ih
      · exact ⟨e :: u, rfl⟩
  obtain ⟨u', hu'⟩ := hstart
  rw [trim, hu', trimEnd, List.getLast?_reverse, List.reverse_append, List.reverse_cons,
    List.append_assoc] at hd
  -- the last character is that of `w` without its blanks, or `c` if nothing is left of `w`
  by_cases hw : trimStart w.reverse = []
  · have hall := List.dropWhile_eq_nil_iff.1 hw
    rw [trimStart, List.dropWhile_append_of_pos hall, List.singleton_append, List.dropWhile_cons,
      if_neg (by simp [hc])] at hd
    obtain rfl : c = d := by simpa using hd
    simp
  · rw [trimStart_append _ hw] at hd
    obtain ⟨e, t, ht⟩ := List.exists_cons_of_ne_nil hw
    obtain rfl : e = d := by simpa [ht] using hd
    have hmem : e ∈ w.reverse := (trimStart_suffix w.reverse).subset (by simp [ht])
    simp [List.mem_reverse.1 hmem]

end FactNet.Text
