import FactNet.Decimal.Shortest
import FactNet.Text.Blank

/-!
# The characters of a written double

A double is written with digits, a point, signs, the mark of an exponent, and the letters of the
words for the infinities and for no number.  None of these is a blank, a slash or a parenthesis,
so that a number can be told from what follows it.

## Main results

* `shortestText_isNumberText` — the text of a double is not empty and has no other characters.
-/

namespace FactNet.Decimal

/-- Whether a character may stand in a written number. -/
def isNumberChar (c : Char) : Bool :=
  c.isDigit || ['.', '-', '+', 'e', 'i', 'n', 'f', 'a'].contains c

theorem not_isBlank_of_isNumberChar {c : Char} (h : isNumberChar c = true) :
    Text.isBlank c = false := by
  rw [isNumberChar, Bool.or_eq_true] at h
  rcases h with h | h
  · have hdigit : 48 ≤ c.toNat ∧ c.toNat ≤ 57 := by
      simpa [Char.isDigit, UInt32.le_iff_toNat_le] using h
    simp only [Text.isBlank, Bool.or_eq_false_iff, Bool.and_eq_false_iff, decide_eq_false_iff_not,
      beq_eq_false_iff_ne]
    omega
  · have hall : ∀ c ∈ ['.', '-', '+', 'e', 'i', 'n', 'f', 'a'], Text.isBlank c = false := by
      simp [Text.isBlank]
    exact hall c (List.contains_iff_mem.1 h)

/-- A text of characters that may stand in a number. -/
structure IsNumberText (cs : List Char) : Prop where
  /-- There is at least one. -/
  ne_nil : cs ≠ []
  /-- There are no others. -/
  chars : ∀ c ∈ cs, isNumberChar c = true

theorem toString_isNumberText (n : Nat) : IsNumberText (toString n).toList := by
  rw [Nat.toString_eq_repr, Nat.toList_repr]
  refine ⟨Nat.toDigits_ne_nil, fun c hc => ?_⟩
  simp [isNumberChar, Nat.isDigit_of_mem_toDigits (by decide) (by decide) hc]

theorem replicate_zero_isNumberChar {n : Nat} {c : Char} (h : c ∈ List.replicate n '0') :
    isNumberChar c = true := by
  rw [List.eq_of_mem_replicate h]
  decide

theorem IsNumberText.append {cs ds : List Char} (h : IsNumberText cs)
    (hds : ∀ c ∈ ds, isNumberChar c = true) : IsNumberText (cs ++ ds) := by
  refine ⟨by simp [h.ne_nil], fun c hc => ?_⟩
  exact (List.mem_append.1 hc).elim (h.chars c) (hds c)

theorem exponentText_isNumberChar (width : Nat) (e : Int) :
    ∀ c ∈ (exponentText width e).toList, isNumberChar c = true := by
  intro c hc
  rw [exponentText, String.toList_append, List.mem_append] at hc
  rcases hc with hc | hc
  · split at hc <;> (simp at hc; rcases hc with rfl | rfl <;> decide)
  · rw [padded, String.toList_append, String.toList_ofList, List.mem_append] at hc
    exact hc.elim replicate_zero_isNumberChar ((toString_isNumberText _).chars c)

theorem Layout.write_isNumberText (l : Layout) (d : Significand) :
    IsNumberText (l.write d).toList := by
  have hds := toString_isNumberText d.digits
  unfold Layout.write
  generalize (toString d.digits).toList = ds at hds
  dsimp only
  split
  · split
    · -- a point and zeros stand before the digits of a number below one
      rw [String.toList_append]
      refine IsNumberText.append ⟨by decide, by simp [isNumberChar]⟩ fun c hc => ?_
      rw [String.toList_ofList] at hc
      exact (List.mem_append.1 hc).elim replicate_zero_isNumberChar (hds.chars c)
    · split
      · -- zeros stand after the digits of a whole number
        rw [String.toList_append, String.toList_ofList]
        refine (hds.append fun c hc => replicate_zero_isNumberChar hc).append fun c hc => ?_
        split at hc
        · obtain rfl | rfl : c = '.' ∨ c = '0' := by simpa using hc
          · decide
          · decide
        · simp at hc
      · -- a point stands between the digits
        rw [String.toList_ofList]
        refine ⟨by simp, fun c hc => ?_⟩
        rw [List.mem_append, List.mem_cons] at hc
        rcases hc with hc | rfl | hc
        · exact hds.chars c (List.mem_of_mem_take hc)
        · decide
        · exact hds.chars c (List.mem_of_mem_drop hc)
  · split
    · exact absurd rfl hds.ne_nil
    · rw [String.toList_append, String.toList_ofList]
      exact hds.append (exponentText_isNumberChar _ _)
    · next first rest _ =>
      rw [String.toList_append, String.toList_ofList]
      refine IsNumberText.append ⟨by simp, fun c hc => ?_⟩ (exponentText_isNumberChar _ _)
      rw [List.mem_cons, List.mem_cons] at hc
      rcases hc with rfl | rfl | hc
      · exact hds.chars c (by simp)
      · decide
      · exact hds.chars c (by simp [hc])

/-- **The text of a double is a row of characters that may stand in a number.** -/
theorem shortestText_isNumberText (x : Float) : IsNumberText (shortestText x).toList := by
  unfold shortestText Layout.text
  dsimp only
  have hsign : ∀ c ∈ (if (Parts.ofFloat x).negative then "-" else "").toList,
      isNumberChar c = true := by
    intro c hc
    split at hc
    · obtain rfl : c = '-' := by simpa using hc
      decide
    · simp at hc
  split
  · exact ⟨by decide, by simp [plain, isNumberChar]⟩
  · rw [String.toList_append]
    refine ⟨by simp [plain], fun c hc => ?_⟩
    rcases List.mem_append.1 hc with hc | hc
    · exact hsign c hc
    · have hall : ∀ c ∈ plain.infinity.toList, isNumberChar c = true := by
        simp [plain, isNumberChar]
      exact hall c hc
  · next m q _ =>
    have hwrite := plain.write_isNumberText (shortest m q)
    rw [String.toList_append]
    refine ⟨by simp [hwrite.ne_nil], fun c hc => ?_⟩
    exact (List.mem_append.1 hc).elim (hsign c) (hwrite.chars c)

end FactNet.Decimal
