import Mathlib
import FactNet.Json.Decode
import FactNet.Json.Reader
import FactNet.Proofs.Text.Numerals

/-!
# What can be read

A text holds no value that is nested too deep, and no whole number with too many digits.  Whole
numbers that are made of texts and doubles have no more digits than those that stand there
themselves.

## Main definitions

* `Json.IsWithin` — a value is not nested too deep and has no whole number that is too long.

## Main results

* `isWithin_of_read?` — **every value that is read is within the limits.**
* `natAbs_lt_of_asWhole` — a whole number that a value within the limits stands for is not too long.
-/

namespace FactNet.Json

open FactNet.Decimal FactNet.Text

/-- A value has no more than a number of brackets around anything, and no whole number in it has
too many digits. -/
inductive IsWithin : Nat → Json → Prop
  | null (depth : Nat) : IsWithin depth .null
  | bool (depth : Nat) (b : Bool) : IsWithin depth (.bool b)
  | int (depth : Nat) {n : Int} (h : n.natAbs < 10 ^ mostDigits) : IsWithin depth (.int n)
  | number (depth : Nat) (x : Float) : IsWithin depth (.number x)
  | text (depth : Nat) (s : String) : IsWithin depth (.text s)
  | list {depth : Nat} {items : List Json} (h : ∀ v ∈ items, IsWithin depth v) :
      IsWithin (depth + 1) (.list items)
  | object {depth : Nat} {members : List (String × Json)} (h : ∀ m ∈ members, IsWithin depth m.2) :
      IsWithin (depth + 1) (.object members)

/-! ### Reading single values -/

variable {fuel depth : Nat} {cs rest : List Char} {v : Json}

theorem isWithin_of_readMagnitude? {negative : Bool}
    (h : readMagnitude? negative cs = some (v, rest)) : IsWithin depth v := by
  unfold readMagnitude? at h
  split at h
  · cases h
    exact .number depth _
  · split at h
    · cases h
    · next whole rest' hwhole =>
      split at h
      · cases h
      · split at h
        · cases h
        · split at h
          · cases h
          · split at h
            · dsimp only at h
              split at h
              · next hlength =>
                cases h
                refine .int depth ?_
                have hlt := Nat.lt_of_lt_of_le (naturalOf_lt whole)
                  (Nat.pow_le_pow_right (by decide) hlength)
                cases negative
                · simpa using hlt
                · simpa using hlt
              · cases h
            · cases h
              exact .number depth _
          · cases h
            exact .number depth _

theorem isWithin_of_readNumber? (h : readNumber? cs = some (v, rest)) : IsWithin depth v := by
  unfold readNumber? at h
  split at h
  · exact isWithin_of_readMagnitude? h
  · split at h
    · cases h
      exact .number depth _
    · exact isWithin_of_readMagnitude? h

theorem isWithin_of_readWord? (h : readWord? cs = some (v, rest)) : IsWithin depth v := by
  unfold readWord? at h
  split at h
  · cases h
    exact .null depth
  · split at h
    · cases h
      exact .bool depth true
    · obtain ⟨_, _, heq⟩ := Option.map_eq_some_iff.1 h
      cases heq
      exact .bool depth false

/-! ### Reading values -/

/-- What is read with some fuel is within the limits. -/
structure ReadsWithin (fuel : Nat) : Prop where
  value {depth : Nat} {cs rest : List Char} {v : Json}
    (h : readValue? fuel depth cs = some (v, rest)) : IsWithin depth v
  items {depth : Nat} {cs rest : List Char} {vs : List Json}
    (h : readItems? fuel depth cs = some (vs, rest)) : ∀ v ∈ vs, IsWithin depth v
  members {depth : Nat} {cs rest : List Char} {ms : List (String × Json)}
    (h : readMembers? fuel depth cs = some (ms, rest)) : ∀ m ∈ ms, IsWithin depth m.2

theorem ReadsWithin.value_succ (ih : ReadsWithin fuel)
    (h : readValue? (fuel + 1) depth cs = some (v, rest)) : IsWithin depth v := by
  rw [readValue?.eq_def] at h
  dsimp only at h
  split at h
  · obtain ⟨_, _, heq⟩ := Option.map_eq_some_iff.1 h
    cases heq
    exact .text _ _
  · cases h
  · cases h
  · split at h
    · cases h
      exact .list (by simp)
    · obtain ⟨_, hitems, heq⟩ := Option.map_eq_some_iff.1 h
      cases heq
      exact .list (ih.items hitems)
  · split at h
    · cases h
      exact .object (by simp)
    · obtain ⟨_, hmembers, heq⟩ := Option.map_eq_some_iff.1 h
      cases heq
      exact .object (ih.members hmembers)
  · rw [Option.orElse_eq_orElse, Option.orElse_eq_or, Option.or_eq_some_iff] at h
    rcases h with h | ⟨-, h⟩
    · exact isWithin_of_readWord? h
    · exact isWithin_of_readNumber? h

theorem ReadsWithin.items_succ (ih : ReadsWithin fuel) {vs : List Json}
    (h : readItems? (fuel + 1) depth cs = some (vs, rest)) : ∀ v ∈ vs, IsWithin depth v := by
  rw [readItems?] at h
  split at h
  · cases h
  · next v _ hvalue =>
    have hv := ih.value hvalue
    split at h
    · obtain ⟨_, hitems, heq⟩ := Option.map_eq_some_iff.1 h
      cases heq
      exact List.forall_mem_cons.2 ⟨hv, ih.items hitems⟩
    · cases h
      exact List.forall_mem_cons.2 ⟨hv, by simp⟩
    · cases h

theorem ReadsWithin.members_succ (ih : ReadsWithin fuel) {ms : List (String × Json)}
    (h : readMembers? (fuel + 1) depth cs = some (ms, rest)) :
    ∀ m ∈ ms, IsWithin depth m.2 := by
  rw [readMembers?] at h
  split at h
  · split at h
    · cases h
    · split at h
      · split at h
        · cases h
        · next v _ hvalue =>
          have hv := ih.value hvalue
          split at h
          · obtain ⟨_, hmembers, heq⟩ := Option.map_eq_some_iff.1 h
            cases heq
            exact List.forall_mem_cons.2 ⟨hv, ih.members hmembers⟩
          · cases h
            exact List.forall_mem_cons.2 ⟨hv, by simp⟩
          · cases h
      · cases h
  · cases h

theorem readsWithin (fuel : Nat) : ReadsWithin fuel := by
  induction fuel with
  | zero => exact ⟨fun h => by simp [readValue?] at h, fun h => by simp [readItems?] at h,
      fun h => by simp [readMembers?] at h⟩
  | succ fuel ih => exact ⟨ih.value_succ, ih.items_succ, ih.members_succ⟩

/-- **Every value that is read is within the limits.** -/
theorem isWithin_of_read? {s : String} (h : read? s = some v) : IsWithin deepest v := by
  unfold read? at h
  dsimp only at h
  split at h
  · next hvalue =>
    split at h
    · cases h
      exact (readsWithin _).value hvalue
    · cases h
  · cases h

/-- The members of a value within the limits are within the limits. -/
theorem IsWithin.member? {name : String} {m : Json} (h : IsWithin depth v)
    (hm : v.member? name = some m) : ∃ inner, IsWithin inner m := by
  cases h with
  | object h =>
    obtain ⟨p, hp, rfl⟩ := Option.map_eq_some_iff.1 hm
    exact ⟨_, h p (List.mem_reverse.1 (List.mem_of_find?_eq_some hp))⟩
  | _ => cases hm

/-! ### Whole numbers -/

theorem asciiDigit?_lt {c : Char} {d : Nat} (h : asciiDigit? c = some d) : d < 10 := by
  unfold asciiDigit? at h
  split at h
  · next hc =>
    rw [← digitValue?_of_isDigit hc] at h
    exact digitValue?_lt h
  · cases h

/-- Digits that are taken off a text stand for a number with no more digits than they are, and
there are no more of them than there are characters. -/
theorem takeDigits_asciiDigit? (cs : List Char) (after : Bool) {n count : Nat}
    (hn : n < 10 ^ count) :
    (takeDigits asciiDigit? after n count cs).1 <
        10 ^ (takeDigits asciiDigit? after n count cs).2.1 ∧
      (takeDigits asciiDigit? after n count cs).2.1 ≤ count + cs.length := by
  induction cs generalizing after n count with
  | nil => exact ⟨hn, Nat.le_refl _⟩
  | cons c cs ih =>
    rw [List.length_cons, takeDigits.eq_def]
    dsimp only
    split
    · next d hd =>
      have hlt : 10 * n + d < 10 ^ (count + 1) := by
        have hdigit := asciiDigit?_lt hd
        rw [Nat.pow_succ]
        omega
      obtain ⟨hless, hle⟩ := ih true hlt
      exact ⟨hless, by omega⟩
    · split
      · split
        · obtain ⟨hless, hle⟩ := ih false hn
          exact ⟨hless, by omega⟩
        · exact ⟨hn, Nat.le_add_right _ _⟩
      · exact ⟨hn, Nat.le_add_right _ _⟩

theorem length_takeSign_le (cs : List Char) : (takeSign cs).2.length ≤ cs.length := by
  unfold takeSign
  split <;> simp

theorem length_trimMargin_le (cs : List Char) : (trimMargin cs).length ≤ cs.length := by
  unfold trimMargin
  rw [List.length_reverse]
  refine Nat.le_trans (List.dropWhile_sublist _).length_le ?_
  rw [List.length_reverse]
  exact (List.dropWhile_sublist _).length_le

/-- A written whole number has no more digits than its text has characters. -/
theorem natAbs_lt_of_readInt? {s : String} {n : Int} (h : readInt? s = some n) :
    n.natAbs < 10 ^ s.length := by
  obtain ⟨negative, cs, hsign⟩ : ∃ negative cs, takeSign (trimMargin s.toList) = (negative, cs) :=
    ⟨_, _, rfl⟩
  have hlength : cs.length ≤ s.length := by
    have hle := length_takeSign_le (trimMargin s.toList)
    rw [hsign] at hle
    exact Nat.le_trans hle (length_trimMargin_le _)
  have hnothing : 0 < 10 ^ 0 := Nat.one_pos
  obtain ⟨hlt, hcount⟩ := takeDigits_asciiDigit? cs false hnothing
  unfold readInt? at h
  rw [hsign] at h
  obtain ⟨-, heq⟩ := Option.ite_none_left_eq_some.1 h
  cases heq
  have hbound := Nat.lt_of_lt_of_le hlt (Nat.pow_le_pow_right (by decide)
    (Nat.le_trans hcount (by omega : 0 + cs.length ≤ s.length)))
  cases negative <;> simpa using hbound

/-- **A whole number that a value within the limits stands for is not too long.** -/
theorem natAbs_lt_of_asWhole {n : Int} (hv : IsWithin depth v) (h : asWhole v = .ok n) :
    n.natAbs < 10 ^ mostDigits := by
  -- what fits a word has no more digits than are allowed
  have hword : 9223372036854775808 < 10 ^ mostDigits :=
    calc 9223372036854775808 < 10 ^ 19 := by decide
      _ ≤ 10 ^ mostDigits := Nat.pow_le_pow_right (by decide) (by decide)
  cases hv with
  | int depth hn =>
    cases h
    exact hn
  | bool depth b =>
    cases h
    cases b
    · exact Nat.lt_trans (by decide) hword
    · exact Nat.lt_trans (by decide) hword
  | number depth x =>
    rw [asWhole, wholeOfFloat] at h
    split at h
    · cases h
    · split at h
      · cases h
      · split at h
        · next hfits =>
          cases h
          rw [Bool.and_eq_true, decide_eq_true_eq, decide_eq_true_eq, wordBound] at hfits
          omega
        · cases h
  | text depth s =>
    rw [asWhole] at h
    split at h
    · cases h
    · next hlength =>
      split at h
      · next hn =>
        cases h
        exact Nat.lt_of_lt_of_le (natAbs_lt_of_readInt? hn)
          (Nat.pow_le_pow_right (by decide) (Nat.le_of_not_lt hlength))
      · cases h
  | _ => cases h

end FactNet.Json
