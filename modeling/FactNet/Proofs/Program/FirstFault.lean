import FactNet.Proofs.Program.RoundTrip

/-!
# The first line that is refused

Lines are read one by one, and the first that is refused ends the reading.  Whether a line is
refused, and for what reason, does not depend on the lines before it or on its number.  So a program
is read just if every line of it can be read on its own, and otherwise the fault is that of the
first line that cannot, with the place of this line among all.

The line that a fault shows is what the refused line says: what stands before its comment, without
the blanks around it.  A comment runs to the end of the line, and a line break that ends the line
does not count.

## Main definitions

* `IsComment` — two slashes and the rest of a line.
* `Says` — what a line says.
* `Parts` — the parts of a line, only one of which can have a comment.

## Main results

* `Parts.comment` — a comment starts behind the last line break.
* `says_iff` — **what stripping and trimming leave is what a line says.**
* `readLine_number` — the number of a line counts for its fault only.
* `readLines_eq_error_iff` — the fault of some lines is that of the first that is refused.
* `readProgram_fault_first` — **reading fails at the first line that is refused, and programs are
  put together as their lines are.**
-/

namespace FactNet.Program

open FactNet.Text

/-! ### Comments -/

/-- Two slashes, and no line break after them but at the very end. -/
def IsComment (cs : List Char) : Prop := ['/', '/'] <+: cs ∧ '\n' ∉ cs.dropLast

/-- What a line says: all that stands before its first comment, without the blanks around it. -/
def Says (cs line : List Char) : Prop :=
  ∃ kept rest, cs = kept ++ rest ∧ (rest = [] ∨ IsComment rest) ∧
    (∀ before after, cs = before ++ after → IsComment after → kept.length ≤ before.length) ∧
    line = trim kept

namespace Says

variable {cs line line' : List Char}

/-- A line says one thing. -/
theorem unique (h : Says cs line) (h' : Says cs line') : line = line' := by
  obtain ⟨kept, rest, hcs, hrest, hfirst, rfl⟩ := h
  obtain ⟨kept', rest', hcs', hrest', hfirst', rfl⟩ := h'
  -- neither part that is kept is longer than the other
  have hle : kept.length ≤ kept'.length := by
    rcases hrest' with rfl | hcomment
    · rw [List.append_nil] at hcs'
      rw [← hcs', hcs, List.length_append]
      omega
    · exact hfirst kept' rest' hcs' hcomment
  have hle' : kept'.length ≤ kept.length := by
    rcases hrest with rfl | hcomment
    · rw [List.append_nil] at hcs
      rw [← hcs, hcs', List.length_append]
      omega
    · exact hfirst' kept rest hcs hcomment
  have hsame : kept = kept' :=
    (List.append_inj (hcs.symm.trans hcs') (Nat.le_antisymm hle hle')).1
  rw [hsame]

end Says

/-- The first occurrence of a piece is where a text is cut. -/
theorem length_le_of_cutAt? {piece cs b a k r : List Char} (hcut : cutAt? piece cs = some (b, a))
    (h : cs = k ++ piece ++ r) : b.length ≤ k.length := by
  induction cs generalizing b k with
  | nil =>
    have hb := cutAt?_eq_some hcut
    simp at hb
    simp [hb]
  | cons c cs ih =>
    rw [cutAt?] at hcut
    split at hcut
    · obtain ⟨rfl, -⟩ := Prod.mk.inj (Option.some.inj hcut)
      exact Nat.zero_le _
    · next hnone =>
      obtain ⟨⟨b', a'⟩, hrest, hpair⟩ := Option.map_eq_some_iff.1 hcut
      obtain ⟨rfl, rfl⟩ := Prod.mk.inj hpair
      cases k with
      | nil =>
        rw [h, List.nil_append, dropPrefix?_append] at hnone
        exact absurd hnone (by simp)
      | cons d k =>
        have htail : cs = k ++ piece ++ r := (List.cons.inj h).2
        have hle := ih hrest htail
        simpa using hle

/-- A line feed at the end of a text counts for nothing once blanks are trimmed. -/
theorem trim_append_lineFeed (cs : List Char) : trim (cs ++ ['\n']) = trim cs := by
  by_cases hstart : trimStart cs = []
  · have hall : ∀ c ∈ cs, isBlank c = true := by
      simpa [trimStart] using hstart
    have hall' : ∀ c ∈ cs ++ ['\n'], isBlank c = true := by
      intro c hc
      rcases List.mem_append.1 hc with hc | hc
      · exact hall c hc
      · rw [List.mem_singleton.1 hc]
        decide
    have hstart' : trimStart (cs ++ ['\n']) = [] := by
      simpa [trimStart] using hall'
    rw [trim, trim, hstart, hstart']
  · have hblank : isBlank '\n' = true := by decide
    rw [trim, trim, trimStart_append _ hstart, trimEnd, trimEnd, List.reverse_append,
      List.reverse_singleton, List.singleton_append, trimStart_cons, if_pos hblank]

/-- The parts of a line: what stands before its last line break, the line after it, and a line feed
that may end it.  Only the middle one can have a comment. -/
structure Parts (cs earlier last ending : List Char) : Prop where
  eq_append : cs = earlier ++ (last ++ ending)
  break_before : ∀ c ∈ earlier.getLast?, c = '\n'
  no_break : '\n' ∉ last
  ends : ending = ['\n'] ∨ ending = [] ∧ cs.getLast? ≠ some '\n'
  stripped : stripComment cs = earlier ++ before ['/', '/'] last

theorem exists_parts (cs : List Char) : ∃ earlier last ending, Parts cs earlier last ending := by
  obtain ⟨ds, ending, hcs, hending, hds⟩ : ∃ ds ending, cs = ds ++ ending ∧
      (ending = ['\n'] ∨ ending = [] ∧ cs.getLast? ≠ some '\n') ∧
      (if cs.getLast? = some '\n' then cs.dropLast else cs) = ds := by
    by_cases hlast : cs.getLast? = some '\n'
    · have hcs : cs.dropLast ++ ['\n'] = cs := List.dropLast_append_getLast? _ hlast
      exact ⟨cs.dropLast, ['\n'], hcs.symm, .inl rfl, if_pos hlast⟩
    · exact ⟨cs, [], by simp, .inr ⟨rfl, hlast⟩, if_neg hlast⟩
  refine ⟨(ds.reverse.dropWhile (· ≠ '\n')).reverse, (ds.reverse.takeWhile (· ≠ '\n')).reverse,
    ending, ?_, ?_, ?_, hending, ?_⟩
  · rw [← List.append_assoc, ← List.reverse_append, List.takeWhile_append_dropWhile,
      List.reverse_reverse, hcs]
  · intro c hc
    rw [List.getLast?_reverse] at hc
    have hstop := List.head?_dropWhile_not (fun d => decide (d ≠ '\n')) ds.reverse
    rw [Option.mem_def.1 hc] at hstop
    simpa using hstop
  · intro hmem
    have hnot := List.mem_takeWhile_imp (List.mem_reverse.1 hmem)
    simp at hnot
  · rw [stripComment, hds]

namespace Parts

variable {cs earlier last ending k r : List Char}

/-- Two slashes that stand behind the last line break stand in the last line. -/
theorem slashes (h : Parts cs earlier last ending) {m c : List Char}
    (hm : last ++ ending = m ++ (['/', '/'] ++ c)) : ∃ c, last = m ++ ['/', '/'] ++ c := by
  rcases h.ends with rfl | ⟨rfl, -⟩
  · rcases List.eq_nil_or_concat c with rfl | ⟨c, d, rfl⟩
    · have hd := congrArg List.getLast? hm
      simp at hd
    · have hm' : last ++ ['\n'] = (m ++ ['/', '/'] ++ c) ++ [d] := by simpa using hm
      exact ⟨c, (List.append_inj' hm' rfl).1⟩
  · exact ⟨c, by simpa using hm⟩

/-- What starts in front of the last line break has one before its end. -/
theorem lineFeed_mem_dropLast (h : Parts cs earlier last ending) (hk : earlier = k ++ r)
    (hr : r ≠ []) : '\n' ∈ (r ++ (last ++ ending)).dropLast := by
  have hbreak : r.getLast? = some '\n' := by
    have hlast := List.getLast?_eq_some_getLast hr
    rw [hlast, h.break_before (r.getLast hr)]
    rw [hk, List.getLast?_append, hlast]
    rfl
  have hmore : last ++ ending ≠ [] := by
    intro hnil
    rcases h.ends with rfl | ⟨-, hend⟩
    · simp at hnil
    · apply hend
      rw [h.eq_append, hnil, List.append_nil, hk, List.getLast?_append, hbreak]
      rfl
  rw [List.dropLast_append_of_ne_nil hmore]
  exact List.mem_append_left _ (List.mem_of_getLast? hbreak)

/-- **A comment starts behind the last line break.** -/
theorem comment (h : Parts cs earlier last ending) (hcs : cs = k ++ r) (hr : IsComment r) :
    ∃ m c, k = earlier ++ m ∧ last = m ++ ['/', '/'] ++ c := by
  obtain ⟨⟨c, rfl⟩, hbreak⟩ := hr
  have hsplit := hcs.symm.trans h.eq_append
  rcases List.append_eq_append_iff.1 hsplit with ⟨a, hearlier, hrest⟩ | ⟨m, hk, hrest⟩
  · by_cases ha : a = []
    · subst ha
      obtain ⟨c', hc'⟩ := h.slashes (m := []) hrest.symm
      exact ⟨[], c', by simpa using hearlier.symm, hc'⟩
    · have hmem := h.lineFeed_mem_dropLast hearlier ha
      rw [← hrest] at hmem
      exact absurd hmem hbreak
  · obtain ⟨c', hc'⟩ := h.slashes hrest
    exact ⟨m, c', hk, hc'⟩

/-- A line whose last part has no two slashes says all that stands in it. -/
theorem says_of_uncut (h : Parts cs earlier last ending) (hcut : cutAt? ['/', '/'] last = none) :
    Says cs (trim (stripComment cs)) := by
  have hnone := (cutAt?_eq_none_iff (by simp)).1 hcut
  have hstripped := h.stripped
  rw [before, hcut] at hstripped
  refine ⟨cs, [], by simp, .inl rfl, ?_, ?_⟩
  · intro k r hcs hr
    obtain ⟨m, c, -, hlast⟩ := h.comment hcs hr
    exact absurd ⟨m, c, hlast.symm⟩ hnone
  · rw [hstripped, h.eq_append, ← List.append_assoc]
    rcases h.ends with rfl | ⟨rfl, -⟩
    · rw [trim_append_lineFeed]
    · rw [List.append_nil]

/-- Any other line says what stands before the first two slashes of its last part. -/
theorem says_of_cut (h : Parts cs earlier last ending) {b a : List Char}
    (hcut : cutAt? ['/', '/'] last = some (b, a)) : Says cs (trim (stripComment cs)) := by
  have hlast := cutAt?_eq_some hcut
  have hstripped := h.stripped
  rw [before, hcut] at hstripped
  have hbreak : '\n' ∉ (['/', '/'] ++ a ++ ending).dropLast := by
    have hnot : '\n' ∉ ['/', '/'] ++ a := by
      intro hmem
      apply h.no_break
      rw [hlast, List.append_assoc]
      exact List.mem_append_right _ hmem
    rcases h.ends with rfl | ⟨rfl, -⟩
    · rwa [List.dropLast_concat]
    · rw [List.append_nil]
      intro hmem
      exact hnot (List.mem_of_mem_dropLast hmem)
  refine ⟨earlier ++ b, ['/', '/'] ++ a ++ ending, ?_, .inr ⟨⟨a ++ ending, by simp⟩, hbreak⟩, ?_,
    by rw [hstripped]⟩
  · rw [h.eq_append, hlast]
    simp
  · intro k r hcs hr
    obtain ⟨m, c, rfl, hm⟩ := h.comment hcs hr
    have hle := length_le_of_cutAt? hcut hm
    simp only [List.length_append]
    omega

end Parts

/-- **What is left of a line without its comment, trimmed, is what the line says.** -/
theorem says_iff {cs line : List Char} : Says cs line ↔ line = trim (stripComment cs) := by
  have hsays : Says cs (trim (stripComment cs)) := by
    obtain ⟨earlier, last, ending, h⟩ := exists_parts cs
    cases hcut : cutAt? ['/', '/'] last with
    | none => exact h.says_of_uncut hcut
    | some cut => exact h.says_of_cut hcut
  constructor
  · intro h
    exact h.unique hsays
  · rintro rfl
    exact hsays

/-! ### Lines -/

section Lines

variable {α : Type} [Scalar α] [Numeral α]

/-- **The number of a line counts for its fault only.** -/
theorem readLine_number (m n : Nat) (raw : String) :
    readLine (α := α) n raw =
      (readLine m raw).mapError fun fault => { fault with lineNumber := some n } := by
  unfold readLine
  cases trim (stripComment raw.toList) with
  | nil => rfl
  | cons c cs =>
    dsimp only
    cases readPredicate? (c :: cs) with
    | some p => rfl
    | none =>
      dsimp only
      cases readRule (α := α) (String.ofList (c :: cs)) with
      | ok r => rfl
      | error fault => rfl

/-- What is read of a line does not depend on its number. -/
theorem readLine_eq_ok {m : Nat} {raw : String} {l : Line α} (h : readLine m raw = .ok l)
    (n : Nat) : readLine n raw = .ok l := by
  rw [readLine_number m n, h]
  rfl

/-- The fault of a line shows its number and what it says. -/
theorem fault_of_readLine {n : Nat} {raw : String} {fault : LineFault}
    (h : readLine (α := α) n raw = .error fault) :
    fault.lineNumber = some n ∧ fault.line.toList = trim (stripComment raw.toList) := by
  unfold readLine at h
  split at h
  · cases h
  · next c cs hline =>
    split at h
    · cases h
    · dsimp only at h
      split at h
      · cases h
      · cases h
        exact ⟨rfl, by rw [hline, String.toList_ofList]⟩

theorem readLines_cons_of_error {n : Nat} {raw : String} {fault : LineFault}
    (h : readLine (α := α) n raw = .error fault) (raws : List String) :
    readLines (α := α) n (raw :: raws) = .error fault := by
  rw [readLines, h]

theorem readLines_cons_of_ok {n : Nat} {raw : String} {l : Line α} (h : readLine n raw = .ok l)
    (raws : List String) :
    readLines n (raw :: raws) = (readLines (n + 1) raws).map (l :: ·) := by
  rw [readLines, h]
  cases readLines (α := α) (n + 1) raws <;> rfl

/-- Where lines are read, the first and those after it are. -/
theorem of_readLines_cons_eq_ok {n : Nat} {raw : String} {raws : List String}
    {ls : List (Line α)} (h : readLines n (raw :: raws) = .ok ls) :
    ∃ l ls', readLine n raw = .ok l ∧ readLines (n + 1) raws = .ok ls' ∧ ls = l :: ls' := by
  cases hraw : readLine (α := α) n raw with
  | error fault =>
    rw [readLines_cons_of_error hraw] at h
    cases h
  | ok l =>
    rw [readLines_cons_of_ok hraw] at h
    cases hrest : readLines (α := α) (n + 1) raws with
    | error fault =>
      rw [hrest] at h
      cases h
    | ok ls' =>
      rw [hrest] at h
      cases h
      exact ⟨l, ls', rfl, rfl, rfl⟩

/-- What is read of lines does not depend on their numbers. -/
theorem readLines_eq_ok_of {m : Nat} {raws : List String} {ls : List (Line α)}
    (h : readLines m raws = .ok ls) (n : Nat) : readLines n raws = .ok ls := by
  induction raws generalizing m n ls with
  | nil => exact h
  | cons raw raws ih =>
    obtain ⟨l, ls', hl, hls', rfl⟩ := of_readLines_cons_eq_ok h
    rw [readLines_cons_of_ok (readLine_eq_ok hl n), ih hls' (n + 1)]
    rfl

/-- **Lines are read just if each of them is.** -/
theorem exists_readLines_iff {raws : List String} (n : Nat) :
    (∃ ls, readLines (α := α) n raws = .ok ls) ↔
      ∀ raw ∈ raws, ∃ l, readLine (α := α) 1 raw = .ok l := by
  induction raws generalizing n with
  | nil => simp [readLines]
  | cons raw raws ih =>
    rw [List.forall_mem_cons, ← ih (n + 1)]
    constructor
    · rintro ⟨ls, hls⟩
      obtain ⟨l, ls', hl, hls', -⟩ := of_readLines_cons_eq_ok hls
      exact ⟨⟨l, readLine_eq_ok hl 1⟩, ls', hls'⟩
    · rintro ⟨⟨l, hl⟩, ls, hls⟩
      refine ⟨l :: ls, ?_⟩
      rw [readLines_cons_of_ok (readLine_eq_ok hl n), hls]
      rfl

/-- **Lines after others are read with the numbers that follow.** -/
theorem readLines_append {n : Nat} {raws : List String} {ls : List (Line α)}
    (h : readLines n raws = .ok ls) (more : List String) :
    readLines n (raws ++ more) = (readLines (n + raws.length) more).map (ls ++ ·) := by
  induction raws generalizing n ls with
  | nil =>
    cases h
    cases hmore : readLines (α := α) n more <;> simp [hmore, Except.map]
  | cons raw raws ih =>
    obtain ⟨l, ls', hl, hls', rfl⟩ := of_readLines_cons_eq_ok h
    have hnumber : n + 1 + raws.length = n + (raw :: raws).length := by
      rw [List.length_cons]
      omega
    rw [List.cons_append, readLines_cons_of_ok hl, ih hls', hnumber]
    cases readLines (α := α) (n + (raw :: raws).length) more <;> rfl

/-- **The fault of some lines is that of the first line that is refused.** -/
theorem readLines_eq_error_iff {n : Nat} {raws : List String} {fault : LineFault} :
    readLines (α := α) n raws = .error fault ↔
      ∃ before raw after, raws = before ++ raw :: after ∧
        (∀ l ∈ before, ∃ line, readLine (α := α) 1 l = .ok line) ∧
        readLine (α := α) (n + before.length) raw = .error fault := by
  constructor
  · intro h
    induction raws generalizing n with
    | nil => cases h
    | cons raw raws ih =>
      cases hraw : readLine (α := α) n raw with
      | error fault' =>
        rw [readLines_cons_of_error hraw] at h
        cases h
        exact ⟨[], raw, raws, rfl, by simp, hraw⟩
      | ok l =>
        -- a line that is read leaves the fault to those after it
        have hrest : readLines (α := α) (n + 1) raws = .error fault := by
          rw [readLines_cons_of_ok hraw] at h
          cases hrest : readLines (α := α) (n + 1) raws with
          | error fault' =>
            rw [hrest] at h
            cases h
            rfl
          | ok ls =>
            rw [hrest] at h
            cases h
        obtain ⟨before, raw', after, rfl, hbefore, hfault⟩ := ih hrest
        refine ⟨raw :: before, raw', after, rfl, ?_, ?_⟩
        · rw [List.forall_mem_cons]
          exact ⟨⟨l, readLine_eq_ok hraw 1⟩, hbefore⟩
        · rwa [List.length_cons, Nat.add_comm before.length 1, ← Nat.add_assoc]
  · rintro ⟨before, raw, after, rfl, hbefore, hfault⟩
    obtain ⟨ls, hls⟩ := (exists_readLines_iff n).2 hbefore
    rw [readLines_append hls, readLines_cons_of_error hfault]
    rfl

/-! ### Programs -/

theorem exists_readProgram_iff_readLines {raws : List String} :
    (∃ p, readProgram (α := α) raws = .ok p) ↔ ∃ ls, readLines (α := α) 1 raws = .ok ls := by
  unfold readProgram
  cases readLines (α := α) 1 raws <;> simp [Except.map]

theorem readProgram_eq_error_iff {raws : List String} {fault : LineFault} :
    readProgram (α := α) raws = .error fault ↔ readLines (α := α) 1 raws = .error fault := by
  unfold readProgram
  cases readLines (α := α) 1 raws <;> simp [Except.map]

theorem readProgram_eq_ok_iff {raws : List String} {p : Program α} :
    readProgram raws = .ok p ↔ ∃ ls, readLines 1 raws = .ok ls ∧ ofLines ls = p := by
  unfold readProgram
  cases readLines (α := α) 1 raws <;> simp [Except.map]

/-- A line is read on its own just if it is read at any place. -/
theorem exists_readProgram_singleton_iff {raw : String} :
    (∃ p, readProgram (α := α) [raw] = .ok p) ↔ ∃ l, readLine (α := α) 1 raw = .ok l := by
  rw [exists_readProgram_iff_readLines, exists_readLines_iff, List.forall_mem_singleton]

theorem readProgram_singleton_eq_error_iff {raw : String} {fault : LineFault} :
    readProgram (α := α) [raw] = .error fault ↔ readLine (α := α) 1 raw = .error fault := by
  rw [readProgram_eq_error_iff]
  cases hraw : readLine (α := α) 1 raw with
  | error fault' =>
    rw [readLines_cons_of_error hraw, Except.error.injEq, Except.error.injEq]
  | ok l =>
    rw [readLines_cons_of_ok hraw]
    exact iff_of_false nofun nofun

omit [Scalar α] [Numeral α] in
/-- What some lines and others after them declare is put together from what each of them does. -/
theorem ofLines_append (ls ls' : List (Line α)) :
    (∀ d, d ∈ (ofLines (ls ++ ls')).predicates ↔
      d ∈ (ofLines ls).predicates ∨ d ∈ (ofLines ls').predicates) ∧
    (ofLines (ls ++ ls')).rules = (ofLines ls).rules ++ (ofLines ls').rules := by
  constructor
  · intro d
    simp only [ofLines, ofParts, Predicate.mem_setOf, List.filterMap_append, List.mem_append]
  · simp only [ofLines, ofParts, List.filterMap_append]

/-- **Reading fails at the first line that is refused, and at no other.**  Some lines are read as a
program just if each of them is on its own.  Otherwise the fault has the reason for which the first
line that is refused on its own is refused, the place of this line, counted from one, and what the
line says, without its comment and the blanks around it.  Where both some lines and others are read,
the one after the other they are read as the predicates of both and the rules of both in order. -/
theorem readProgram_fault_first (lines : List String) :
    ((∃ p, readProgram (α := α) lines = .ok p) ↔
      ∀ raw ∈ lines, ∃ p, readProgram (α := α) [raw] = .ok p) ∧
    (∀ fault, readProgram (α := α) lines = .error fault ↔
      ∃ before raw after alone, lines = before ++ raw :: after ∧
        (∀ l ∈ before, ∃ p, readProgram (α := α) [l] = .ok p) ∧
        readProgram (α := α) [raw] = .error alone ∧ fault.reason = alone.reason ∧
        fault.lineNumber = some (before.length + 1) ∧ Says raw.toList fault.line.toList) ∧
    ∀ lines' (p p' : Program α), readProgram lines = .ok p → readProgram lines' = .ok p' →
      ∃ q, readProgram (lines ++ lines') = .ok q ∧
        (∀ d, d ∈ q.predicates ↔ d ∈ p.predicates ∨ d ∈ p'.predicates) ∧
        q.rules = p.rules ++ p'.rules := by
  refine ⟨?_, ?_, ?_⟩
  · rw [exists_readProgram_iff_readLines, exists_readLines_iff]
    simp only [exists_readProgram_singleton_iff]
  · intro fault
    rw [readProgram_eq_error_iff, readLines_eq_error_iff]
    simp only [exists_readProgram_singleton_iff, readProgram_singleton_eq_error_iff, says_iff]
    constructor
    · rintro ⟨before, raw, after, hlines, hbefore, hfault⟩
      obtain ⟨hnumber, hline⟩ := fault_of_readLine hfault
      -- on its own the line is the first one, and nothing else of its fault changes
      refine ⟨before, raw, after, { fault with lineNumber := some 1 }, hlines, hbefore, ?_, rfl, ?_,
        hline⟩
      · rw [readLine_number (1 + before.length), hfault]
        rfl
      · rw [hnumber, Nat.add_comm]
    · rintro ⟨before, raw, after, alone, hlines, hbefore, halone, hreason, hnumber, hline⟩
      refine ⟨before, raw, after, hlines, hbefore, ?_⟩
      have hsame : alone.line = fault.line := by
        rw [← String.toList_inj, hline]
        exact (fault_of_readLine halone).2
      rw [readLine_number 1, halone]
      obtain ⟨reason, number, line⟩ := fault
      simp only at hreason hnumber hsame
      simp only [Except.mapError, hreason, hnumber, hsame, Nat.add_comm]
  · intro lines' p p' hp hp'
    obtain ⟨ls, hls, rfl⟩ := readProgram_eq_ok_iff.1 hp
    obtain ⟨ls', hls', rfl⟩ := readProgram_eq_ok_iff.1 hp'
    obtain ⟨hpredicates, hrules⟩ := ofLines_append ls ls'
    refine ⟨ofLines (ls ++ ls'), readProgram_eq_ok_iff.2 ⟨ls ++ ls', ?_, rfl⟩, hpredicates, hrules⟩
    rw [readLines_append hls, readLines_eq_ok_of hls']
    rfl

/-- The third line is refused, whatever comes after it. -/
example : readProgram (α := α) ["a(B,C)\n", " // none", "a(x,y) v b. // no\n", "c."] =
    .error ⟨.literal, some 3, "a(x,y) v b."⟩ := by
  cbv

end Lines

end FactNet.Program
