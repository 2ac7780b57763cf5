import Mathlib
import FactNet.Proofs.Decimal.Written
import FactNet.Proofs.Double
import FactNet.Proofs.Program.Clauses
import FactNet.Proofs.Program.Declarations

/-!
# Writing a program and reading it again

A program is written as its predicates, an empty line, and its rules.  Each of these lines is read
as what it was written for: it has no comment and no line break, a line of a rule is no declaration,
and only a hard rule ends with a period.  So a program that was read, and whose rules are writable,
is what its own text reads as.

A rule that is not writable can be lost: an unnamed negated atom is written as its mark in front of
a parenthesis, which reads as the name of a positive atom.

## Main results

* `readLine_predicate`, `readLine_rule` — the line of a predicate or of a rule reads as it.
* `readProgram_lines` — **a program of readable and writable lines is what they read as.**
* `readProgram_text` — **a program that was read and is writable is what its text reads as.**
-/

namespace FactNet.Program

open FactNet.Text FactNet.Decimal

/-! ### Comments -/

/-- Of one line with no line feed in it, the comment is all that is taken away. -/
theorem stripComment_eq_before {cs ds : List Char}
    (h : (if cs.getLast? = some '\n' then cs.dropLast else cs) = ds) (hds : '\n' ∉ ds) :
    stripComment cs = before ['/', '/'] ds := by
  have hall : ∀ c ∈ ds.reverse, (fun c => decide (c ≠ '\n')) c = true := by
    intro c hc
    have hne : c ≠ '\n' := fun heq => hds (heq ▸ List.mem_reverse.1 hc)
    simpa using hne
  rw [stripComment, h]
  simp only [List.takeWhile_eq_self_iff.2 hall, List.dropWhile_eq_nil_iff.2 hall,
    List.reverse_reverse, List.reverse_nil, List.nil_append]

/-- A line without a comment or a line break is all before its comment. -/
theorem stripComment_eq_self {cs : List Char} (h : Avoids linePieces cs) :
    stripComment cs = cs := by
  have hbreak : '\n' ∉ cs := fun hmem =>
    h ['\n'] (by simp [linePieces]) ((List.singleton_infix_iff _ _).2 hmem)
  have hend : cs.getLast? ≠ some '\n' := fun heq => hbreak (List.mem_of_getLast? heq)
  rw [stripComment_eq_before (if_neg hend) hbreak]
  exact before_eq_self (by simp) (h ['/', '/'] (by simp [linePieces]))

/-- What is left of a line, in which only the last character may be a line feed, has no comment and
no line break. -/
theorem avoids_stripComment {cs : List Char} (h : '\n' ∉ cs.dropLast) :
    Avoids linePieces (stripComment cs) := by
  have hline : '\n' ∉ (if cs.getLast? = some '\n' then cs.dropLast else cs) := by
    split
    · exact h
    · next hend =>
      intro hmem
      rcases List.eq_nil_or_concat cs with rfl | ⟨ds, d, rfl⟩
      · exact absurd hmem (by simp)
      · rw [List.concat_eq_append] at h hend hmem
        rcases List.mem_append.1 hmem with hmem | hmem
        · exact h (by simpa using hmem)
        · exact hend (by simpa [eq_comm] using hmem)
  rw [stripComment_eq_before rfl hline]
  intro p hp
  rcases List.mem_cons.1 hp with rfl | hp
  · exact not_isInfix_before (by simp) _
  · obtain rfl : p = ['\n'] := by simpa using hp
    exact not_isInfix_of_notMem (by simp) fun hmem => hline ((before_isInfix _ _).subset hmem)

/-! ### Lines -/

/-- A line that is read as it stands. -/
structure IsLine (cs : List Char) : Prop where
  /-- There is something in it. -/
  ne_nil : cs ≠ []
  /-- It starts and ends with no blank. -/
  trim_eq : trim cs = cs
  /-- It has no comment and no line break. -/
  avoids : Avoids linePieces cs

section Lines

variable {α : Type} [Scalar α] [Numeral α]

theorem readLine_of_isLine {raw : String} (h : IsLine raw.toList) (number : Nat) :
    readLine (α := α) number raw =
      match readPredicate? raw.toList with
      | some p => .ok (.predicate p)
      | none =>
        match readRule raw with
        | .ok r => .ok (.rule r)
        | .error fault => .error ⟨fault.reason, some number, raw⟩ := by
  obtain ⟨c, cs, hcs⟩ := List.exists_cons_of_ne_nil h.ne_nil
  rw [readLine, stripComment_eq_self h.avoids, h.trim_eq, hcs]
  have hraw : String.ofList (c :: cs) = raw := by rw [← hcs, String.ofList_toList]
  subst hraw
  rfl

/-! ### Predicates -/

/-- What reading ensures of a declared predicate. -/
structure IsDeclared (p : Predicate) : Prop where
  /-- The name starts as a name does, has no blank in it, and ends at the parenthesis. -/
  name : ∃ c n, p.name.toList = c :: n ∧ isNameStart c = true ∧ n.any isBlank = false ∧
    '(' ∉ c :: n
  /-- The first type reads as itself. -/
  type1 : IsArgument p.type1.toList
  /-- The first type ends at the comma. -/
  type1_comma : ',' ∉ p.type1.toList
  /-- The second type reads as itself. -/
  type2 : IsArgument p.type2.toList
  /-- The second type ends at the parenthesis. -/
  type2_paren : ')' ∉ p.type2.toList
  /-- The declaration has no comment and no line break. -/
  avoids : Avoids linePieces p.text.toList

theorem toList_predicate_text (p : Predicate) :
    p.text.toList = (if p.closed then ['*'] else []) ++ (p.name.toList ++
      '(' :: (p.type1.toList ++ ',' :: (p.type2.toList ++ [')']))) := by
  unfold Predicate.text
  cases p.closed <;> simp

/-- A declaration is one line when its parts are. -/
theorem avoids_predicate_text {p : Predicate} (hname : Avoids linePieces p.name.toList)
    (h₁ : Avoids linePieces p.type1.toList) (h₂ : Avoids linePieces p.type2.toList) :
    Avoids linePieces p.text.toList := by
  have hsign : ∀ d ∈ ['*', '(', ',', ')'], ∀ p ∈ linePieces, d ∉ p := by simp [linePieces]
  have hnil : Avoids linePieces [] := avoids_of_notMem (by simp [linePieces])
  rw [toList_predicate_text]
  have hopen := hname.append_cons (hsign '(' (by simp)) (h₁.append_cons (hsign ',' (by simp))
    (h₂.append_cons (hsign ')' (by simp)) hnil))
  cases p.closed with
  | false => exact hopen
  | true => exact hnil.append_cons (hsign '*' (by simp)) hopen

/-- **What was read as a declaration has parts that read back.** -/
theorem isDeclared_of_readPredicate? {cs : List Char} {p : Predicate}
    (h : Avoids linePieces cs) (hread : readPredicate? cs = some p) : IsDeclared p := by
  have hparts : ∀ {closed : Bool} {ds : List Char}, ds <:+: cs → declaration? closed ds = some p →
      IsDeclared p := by
    intro closed ds hds hdecl
    obtain ⟨c, n, rest, rfl, hn, hstart, hblank, hargs, hname, hclosed⟩ := declaration?_iff.1 hdecl
    obtain ⟨u, v, rfl, hu, hv, ha, hb⟩ := arguments?_iff.1 hargs
    obtain ⟨ha, hapart, -⟩ := argument?_spec ha
    obtain ⟨hb, hbpart, -⟩ := argument?_spec hb
    refine ⟨⟨c, n, by rw [hname, String.toList_ofList], hstart, hblank, hn⟩, ha,
      fun hmem => hu (hapart.subset hmem), hb, fun hmem => hv (hbpart.subset hmem), ?_⟩
    have hds := h.of_isInfix hds
    have hn' : Avoids linePieces p.name.toList := by
      rw [hname, String.toList_ofList]
      exact hds.of_isInfix ⟨[], _, rfl⟩
    have ha' := hds.of_isInfix (hapart.trans ⟨c :: n ++ ['('], ',' :: (v ++ [')']), by simp⟩)
    have hb' := hds.of_isInfix (hbpart.trans ⟨c :: n ++ '(' :: (u ++ [',']), [')'], by simp⟩)
    exact avoids_predicate_text hn' ha' hb'
  unfold readPredicate? at hread
  split at hread
  · exact hparts (List.suffix_cons _ _).isInfix hread
  · exact hparts List.infix_rfl hread

/-- **The text of a declared predicate is a declaration of it.** -/
theorem readPredicate?_text {p : Predicate} (h : IsDeclared p) :
    readPredicate? p.text.toList = some p := by
  obtain ⟨c, n, hname, hstart, hblank, hn⟩ := h.name
  have hargs := arguments?_append h.type1 h.type1_comma h.type2 h.type2_paren
  have hdecl : declaration? p.closed (p.name.toList ++
      '(' :: (p.type1.toList ++ ',' :: (p.type2.toList ++ [')']))) = some p := by
    refine declaration?_iff.2 ⟨c, n, _, by rw [hname], hn, hstart, hblank, hargs, ?_, rfl⟩
    rw [← hname, String.ofList_toList]
  rw [toList_predicate_text]
  cases hclosed : p.closed with
  | true =>
    rw [hclosed] at hdecl
    exact hdecl
  | false =>
    -- no name starts with the mark of a closed predicate
    rw [hclosed, hname] at hdecl
    rw [if_neg (by simp), List.nil_append, hname]
    unfold readPredicate?
    split
    · next heq =>
      obtain ⟨rfl, -⟩ := List.cons.inj heq
      exact absurd hstart (by decide)
    · exact hdecl

/-- The text of a declared predicate is one line. -/
theorem isLine_predicate_text {p : Predicate} (h : IsDeclared p) : IsLine p.text.toList := by
  obtain ⟨c, n, hname, hstart, -, -⟩ := h.name
  have hlast := getLast?_of_readPredicate? (readPredicate?_text h)
  refine ⟨fun hnil => ?_, trim_eq_self_iff.2 ⟨fun d hd => ?_, fun d hd => ?_⟩, h.avoids⟩
  · rw [hnil] at hlast
    exact absurd hlast (by simp)
  · -- it starts with the mark of a closed predicate or with the name
    rw [toList_predicate_text, hname] at hd
    cases hclosed : p.closed with
    | true =>
      obtain rfl : '*' = d := by simpa [hclosed] using hd
      decide
    | false =>
      obtain rfl : c = d := by simpa [hclosed] using hd
      simp only [isNameStart, Bool.and_eq_true, Bool.not_eq_true'] at hstart
      exact hstart.1.1.1.1.1.1
  · rw [hlast] at hd
    obtain rfl := Option.some.inj hd
    decide

/-- **The line of a predicate reads as the predicate.** -/
theorem readLine_predicate {p : Predicate} (h : IsDeclared p) (number : Nat) :
    readLine (α := α) number p.text = .ok (.predicate p) := by
  rw [readLine_of_isLine (isLine_predicate_text h), readPredicate?_text h]

end Lines

/-! ### Rules -/

/-- **What was read as a rule has literals, and they are readable.** -/
theorem isReadable_of_readRule {α : Type} [Scalar α] [Numeral α] {line : String} {r : Rule α}
    (h : Avoids linePieces line.toList) (hread : readRule line = .ok r) :
    r.literals ≠ [] ∧ ∀ l ∈ r.literals, IsReadable l := by
  unfold readRule at hread
  dsimp only at hread
  split at hread
  · exact absurd hread (by simp)
  · next weight body hparts =>
    -- the clause is a piece of the line, whichever way the weight is given
    have hbody : body <:+: line.toList := by
      split at hparts
      · cases hparts
        exact (List.dropLast_prefix _).isInfix
      · obtain ⟨w, -, heq⟩ := Option.map_eq_some_iff.1 hparts
        cases heq
        exact ((List.drop_suffix 1 _).trans (List.dropWhile_suffix _)).isInfix
    split at hread
    · exact absurd hread (by simp)
    · next c cs htrim =>
      have hclause := h.of_isInfix ((htrim ▸ trim_isInfix body).trans hbody)
      cases hlits : readLiterals (c :: cs) with
      | error e => simp [hlits, Except.map] at hread
      | ok ls =>
        obtain rfl : ⟨weight, ls⟩ = r := by simpa [hlits, Except.map] using hread
        exact isReadable_of_readLiterals hclause hlits

theorem toList_rule_text (r : Rule Float) :
    r.text.toList =
      if r.isHard then clauseText r.literals ++ ['.']
      else (shortestText r.weight).toList ++ ' ' :: clauseText r.literals := by
  unfold Rule.text
  split
  · rw [String.toList_append]
    rfl
  · rw [String.toList_append, String.toList_append, List.append_assoc]
    rfl

/-- A number in front of a clause is told from it, and from a declaration. -/
theorem notMem_shortestText (x : Float) {c : Char} (hc : isNumberChar c = false) :
    c ∉ (shortestText x).toList :=
  fun hmem => absurd ((shortestText_isNumberText x).chars c hmem) (by simp [hc])

/-- A number, a blank and more are no declaration. -/
theorem readPredicate?_number {x : Float} (body : List Char) :
    readPredicate? ((shortestText x).toList ++ ' ' :: body) = none := by
  have hnumber := shortestText_isNumberText x
  generalize hw : (shortestText x).toList = w at hnumber
  have hnone : declaration? false (w ++ ' ' :: body) = none := by
    rw [Option.eq_none_iff_forall_ne_some]
    intro p hdecl
    obtain ⟨c, n, rest, heq, hn, -, hblank, -⟩ := declaration?_iff.1 hdecl
    have hspace : ' ' ∈ n := by
      rw [List.append_eq_append_iff] at heq
      obtain ⟨a, hname, ha⟩ | ⟨a, rfl, ha⟩ := heq
      · -- the blank stands in the name, behind its first character
        obtain ⟨d, u, rfl⟩ := List.exists_cons_of_ne_nil hnumber.ne_nil
        obtain ⟨-, rfl⟩ := List.cons.inj hname
        cases a with
        | nil => exact absurd (List.cons.inj ha).1 (by decide)
        | cons e a =>
          obtain ⟨rfl, -⟩ := List.cons.inj ha
          simp
      · cases a with
        | nil => exact absurd (List.cons.inj ha).1 (by decide)
        | cons e a =>
          obtain ⟨rfl, -⟩ := List.cons.inj ha
          exact absurd (hnumber.chars '(' (by simp)) (by decide)
    have := List.any_eq_false.1 hblank ' ' hspace
    exact this (by decide)
  obtain ⟨c, t, rfl⟩ := List.exists_cons_of_ne_nil hnumber.ne_nil
  have hc : c ≠ '*' := by
    rintro rfl
    exact absurd (hnumber.chars '*' (by simp)) (by decide)
  unfold readPredicate?
  split
  · next heq => exact absurd (List.cons.inj heq).1 hc
  · exact hnone

/-- A clause with a period behind it is a line. -/
theorem isLine_clause_period {cs : List Char} (h : IsClause cs) : IsLine (cs ++ ['.']) := by
  obtain ⟨c, ds, rfl⟩ := List.exists_cons_of_ne_nil h.ne_nil
  refine ⟨by simp, trim_eq_self_iff.2 ⟨fun d hd => ?_, fun d hd => ?_⟩, ?_⟩
  · exact h.first d (by simpa using hd)
  · rw [List.getLast?_concat] at hd
    obtain rfl := Option.some.inj hd
    decide
  · have hnil : Avoids linePieces [] := avoids_of_notMem (by simp [linePieces])
    have hclause : Avoids linePieces (c :: ds) := fun p hp => h.avoids p (by simp [clausePieces, hp])
    exact hclause.append_cons (by decide) hnil

/-- A clause with a number in front of it is a line that ends in no period. -/
theorem isLine_number_clause (x : Float) {cs : List Char} (h : IsClause cs) :
    IsLine ((shortestText x).toList ++ ' ' :: cs) ∧
      ((shortestText x).toList ++ ' ' :: cs).getLast? ≠ some '.' := by
  have hnumber := shortestText_isNumberText x
  have hlast : ∀ d ∈ ((shortestText x).toList ++ ' ' :: cs).getLast?,
      isBlank d = false ∧ d ≠ '.' := by
    intro d hd
    refine h.last d ?_
    rwa [List.append_cons, List.getLast?_append_of_ne_nil _ h.ne_nil] at hd
  refine ⟨⟨by simp, trim_eq_self_iff.2 ⟨fun d hd => ?_, fun d hd => (hlast d hd).1⟩, ?_⟩,
    fun heq => (hlast '.' heq).2 rfl⟩
  · -- it starts as the number does
    obtain ⟨e, t, he⟩ := List.exists_cons_of_ne_nil hnumber.ne_nil
    obtain rfl : e = d := by simpa [he] using hd
    exact not_isBlank_of_isNumberChar (hnumber.chars e (by simp [he]))
  · -- in each piece that is avoided there is a character that no number has
    have hpieces : ∀ p ∈ linePieces, ∃ c ∈ p, isNumberChar c = false := by
      simp [linePieces, isNumberChar]
    refine Avoids.append_cons (by decide) (avoids_of_notMem fun p hp => ?_)
      fun p hp => h.avoids p (by simp [clausePieces, hp])
    obtain ⟨c, hc, hother⟩ := hpieces p hp
    exact ⟨c, hc, notMem_shortestText _ hother⟩

/-- **A hard rule is read off its clause and a period.** -/
theorem readRule_of_isHard {r : Rule Float} (h : IsRoundTrip r) (hhard : r.isHard = true) :
    readRule r.text = .ok r := by
  obtain ⟨hclause, hread⟩ := readLiterals_text h
  obtain ⟨c, cs, hcs⟩ := List.exists_cons_of_ne_nil hclause.ne_nil
  have htext : r.text.toList = clauseText r.literals ++ ['.'] := by
    rw [toList_rule_text, if_pos hhard]
  have hweight : r.weight = Scalar.top := Double.eq_top_of_beq hhard
  rw [readRule, if_pos (by rw [htext, List.getLast?_concat])]
  simp only [htext, List.dropLast_concat, hclause.trim_eq]
  simp only [hcs]
  rw [← hcs, hread, ← hweight]
  rfl

/-- **Any other rule is read off its weight and its clause.** -/
theorem readRule_of_not_isHard {r : Rule Float} (h : IsRoundTrip r) (hhard : r.isHard = false)
    (hweight : Numeral.read? (Numeral.text r.weight) = some r.weight) :
    readRule r.text = .ok r := by
  obtain ⟨hclause, hread⟩ := readLiterals_text h
  obtain ⟨c, cs, hcs⟩ := List.exists_cons_of_ne_nil hclause.ne_nil
  have htext : r.text.toList =
      (shortestText r.weight).toList ++ ' ' :: clauseText r.literals := by
    rw [toList_rule_text, if_neg (by simp [hhard])]
  -- a number has no blank, so the first one is that behind the weight
  have hblank : ' ' ∉ (shortestText r.weight).toList := notMem_shortestText _ (by decide)
  have hw : Numeral.read? (shortestText r.weight) = some r.weight := hweight
  rw [readRule, if_neg (by rw [htext]; exact (isLine_number_clause r.weight hclause).2)]
  simp only [htext, takeWhile_ne_append hblank, dropWhile_ne_append hblank, List.drop_one,
    List.tail_cons, String.ofList_toList, hw, Option.map_some]
  rw [hclause.trim_eq, hcs]
  dsimp only
  rw [← hcs, hread]
  rfl

/-- **The text of a rule is a line**, and no declaration: it ends in a period or starts with a
number. -/
theorem isLine_rule_text {r : Rule Float} (h : IsRoundTrip r) :
    IsLine r.text.toList ∧ readPredicate? r.text.toList = none := by
  obtain ⟨hclause, -⟩ := readLiterals_text h
  rw [toList_rule_text]
  split
  · refine ⟨isLine_clause_period hclause, Option.eq_none_iff_forall_ne_some.2 fun p hp => ?_⟩
    have hend := getLast?_of_readPredicate? hp
    rw [List.getLast?_concat] at hend
    exact absurd hend (by decide)
  · exact ⟨(isLine_number_clause r.weight hclause).1, readPredicate?_number _⟩

/-- **The line of a rule reads as the rule.** -/
theorem readLine_rule {r : Rule Float} (h : IsRoundTrip r)
    (hweight : Numeral.read? (Numeral.text r.weight) = some r.weight) (number : Nat) :
    readLine number r.text = .ok (.rule r) := by
  obtain ⟨hline, hnone⟩ := isLine_rule_text h
  have hread : readRule r.text = .ok r := by
    cases hhard : r.isHard with
    | true => exact readRule_of_isHard h hhard
    | false => exact readRule_of_not_isHard h hhard hweight
  rw [readLine_of_isLine hline, hnone, hread]

/-! ### Programs -/

/-- A predicate above all others goes to the end. -/
theorem insertInto_eq_concat {p : Predicate} {ps : List Predicate}
    (h : ∀ q ∈ ps, q.key < p.key) : p.insertInto ps = ps ++ [p] := by
  induction ps with
  | nil => rfl
  | cons q ps ih =>
    have ⟨hq, hps⟩ := List.forall_mem_cons.1 h
    rw [Predicate.insertInto, if_neg (List.lt_asymm hq), if_pos hq, ih hps, List.cons_append]

/-- Predicates in order are the list of their set. -/
theorem setOf_eq_self {ps : List Predicate} (h : Predicate.Ordered ps) :
    Predicate.setOf ps = ps := by
  have hfold : ∀ acc, Predicate.Ordered (acc ++ ps) →
      ps.foldl (fun acc q => q.insertInto acc) acc = acc ++ ps := by
    clear h
    induction ps with
    | nil => simp
    | cons q ps ih =>
      intro acc h
      have hbelow : ∀ p ∈ acc, p.key < q.key :=
        fun p hp => (List.pairwise_append.1 h).2.2 p hp q (by simp)
      rw [List.foldl_cons, insertInto_eq_concat hbelow, ih _ (by simpa using h)]
      simp
  exact hfold [] h

theorem readLines_eq_ok {α : Type} [Scalar α] [Numeral α] {raws : List String}
    {ls : List (Line α)} (h : List.Forall₂ (fun raw l => ∀ n, readLine n raw = .ok l) raws ls)
    (number : Nat) : readLines number raws = .ok ls := by
  induction h generalizing number with
  | nil => rfl
  | cons hline _ ih => rw [readLines, hline, ih]

theorem exists_of_readLines {α : Type} [Scalar α] [Numeral α] {raws : List String}
    {ls : List (Line α)} {number : Nat} (h : readLines number raws = .ok ls) :
    ∀ l ∈ ls, ∃ raw ∈ raws, ∃ n, readLine n raw = .ok l := by
  induction raws generalizing number ls with
  | nil =>
    obtain rfl := Except.ok.inj h
    simp
  | cons raw raws ih =>
    rw [readLines] at h
    split at h
    · exact absurd h (by simp)
    · next line hline =>
      split at h
      · exact absurd h (by simp)
      · next rest hrest =>
        obtain rfl := Except.ok.inj h
        intro l hl
        rcases List.mem_cons.1 hl with rfl | hl
        · exact ⟨raw, by simp, number, hline⟩
        · obtain ⟨raw', hmem, n, hread⟩ := ih hrest l hl
          exact ⟨raw', by simp [hmem], n, hread⟩

/-- What reading ensures of a line. -/
def IsReadableLine {α : Type} : Line α → Prop
  | .blank => True
  | .predicate p => IsDeclared p
  | .rule r => r.literals ≠ [] ∧ ∀ l ∈ r.literals, IsReadable l

/-- **What was read as a line is readable.** -/
theorem isReadableLine_of_readLine {α : Type} [Scalar α] [Numeral α] {raw : String} {number : Nat}
    {l : Line α} (hbreak : '\n' ∉ raw.toList.dropLast) (h : readLine number raw = .ok l) :
    IsReadableLine l := by
  have havoids := (avoids_stripComment hbreak).of_isInfix (trim_isInfix _)
  unfold readLine at h
  split at h
  · obtain rfl := Except.ok.inj h
    trivial
  · next c cs htrim =>
    rw [htrim] at havoids
    split at h
    · next p hread =>
      obtain rfl := Except.ok.inj h
      exact isDeclared_of_readPredicate? havoids hread
    · dsimp only at h
      split at h
      · next r hread =>
        obtain rfl := Except.ok.inj h
        exact isReadable_of_readRule (by rwa [String.toList_ofList]) hread
      · exact absurd h (by simp)

/-- **A program of declared predicates and writable rules is what its lines read as.** -/
theorem readProgram_lines {p : Program Float} (hpredicates : ∀ q ∈ p.predicates, IsDeclared q)
    (hrules : ∀ r ∈ p.rules, IsRoundTrip r)
    (hweight : ∀ r ∈ p.rules, Numeral.read? (Numeral.text r.weight) = some r.weight) :
    readProgram (pieces '\n' p.text) = .ok p := by
  have hpieces : pieces '\n' p.text = p.lines := by
    refine pieces_intercalate (by simp [lines]) fun line hline => ?_
    have hbreak : ∀ {cs : List Char}, Avoids linePieces cs → '\n' ∉ cs := fun h hmem =>
      h ['\n'] (by simp [linePieces]) ((List.singleton_infix_iff _ _).2 hmem)
    rw [lines, List.mem_append, List.mem_cons] at hline
    rcases hline with hq | rfl | hr
    · obtain ⟨q, hmem, rfl⟩ := List.mem_map.1 hq
      exact hbreak (hpredicates q hmem).avoids
    · simp
    · obtain ⟨r, hmem, rfl⟩ := List.mem_map.1 hr
      exact hbreak (isLine_rule_text (hrules r hmem)).1.avoids
  have hread : readLines 1 p.lines =
      .ok (p.predicates.map .predicate ++ .blank :: p.rules.map .rule) := by
    refine readLines_eq_ok (List.rel_append ?_ (.cons (fun _ => rfl) ?_)) 1
    · rw [List.forall₂_map_left_iff, List.forall₂_map_right_iff, List.forall₂_same]
      exact fun q hq => readLine_predicate (hpredicates q hq)
    · rw [List.forall₂_map_left_iff, List.forall₂_map_right_iff, List.forall₂_same]
      exact fun r hr => readLine_rule (hrules r hr) (hweight r hr)
  rw [hpieces, readProgram, hread]
  have hset := setOf_eq_self p.ordered
  obtain ⟨predicates, rules, ordered⟩ := p
  simp only at hset
  simp [Except.map, ofLines, ofParts, List.filterMap_map, hset]

/-- **A program that was read, and whose rules are writable, is what its own text reads as**, if its
weights are what their texts stand for.  In the lines that it was read from only the last character
may be a line feed. -/
theorem readProgram_text {lines : List String} {p : Program Float}
    (hbreak : ∀ raw ∈ lines, '\n' ∉ raw.toList.dropLast) (hread : readProgram lines = .ok p)
    (hwritable : ∀ r ∈ p.rules, r.IsWritable)
    (hweight : ∀ r ∈ p.rules, Numeral.read? (Numeral.text r.weight) = some r.weight) :
    readProgram (pieces '\n' p.text) = .ok p := by
  obtain ⟨ls, hls, rfl⟩ : ∃ ls, readLines 1 lines = .ok ls ∧ ofLines ls = p := by
    cases hls : readLines (α := Float) 1 lines with
    | error fault => simp [readProgram, hls, Except.map] at hread
    | ok ls => exact ⟨ls, rfl, by simpa [readProgram, hls, Except.map] using hread⟩
  -- every line that was read reads back when it is written
  have hspec : ∀ l ∈ ls, IsReadableLine l := by
    intro l hl
    obtain ⟨raw, hraw, n, hline⟩ := exists_of_readLines hls l hl
    exact isReadableLine_of_readLine (hbreak raw hraw) hline
  have hpredicates : ∀ q ∈ (ofLines ls).predicates, IsDeclared q := by
    intro q hq
    obtain ⟨l, hl, hmatch⟩ := List.mem_filterMap.1 (Predicate.mem_setOf.1 hq)
    cases l with
    | predicate q' =>
      obtain rfl := Option.some.inj hmatch
      exact hspec _ hl
    | blank => exact absurd hmatch (by simp)
    | rule r => exact absurd hmatch (by simp)
  have hrules : ∀ r ∈ (ofLines ls).rules, IsRoundTrip r := by
    intro r hr
    obtain ⟨l, hl, hmatch⟩ := List.mem_filterMap.1 hr
    cases l with
    | rule r' =>
      obtain rfl := Option.some.inj hmatch
      have ⟨hne, hreadable⟩ := hspec _ hl
      exact ⟨hne, hreadable, hwritable r' hr⟩
    | blank => exact absurd hmatch (by simp)
    | predicate q => exact absurd hmatch (by simp)
  exact readProgram_lines hpredicates hrules hweight

section Instances

variable {α : Type} [Scalar α] [Numeral α]

/-- Who is born somewhere lives there. -/
def residence {α : Type} [Scalar α] : Program α :=
  ofParts [⟨"livesIn", "PERSON", "COUNTRY", true⟩]
    [⟨Scalar.top, [⟨"bornIn", "x", "y", false⟩, ⟨"livesIn", "x", "y", true⟩]⟩]

/-- A program whose only literal is negated and has no name. -/
def unnamed : Program α := ofParts [] [⟨Scalar.top, [⟨"", "a", "b", false⟩]⟩]

theorem readProgram_residence :
    readProgram (α := α) ["*livesIn(PERSON,COUNTRY)\n", "!bornIn(x, y) v livesIn(x,y)."] =
      .ok residence := by
  cbv

theorem readProgram_unnamed : readProgram (α := α) ["! (a,b)."] = .ok unnamed := by
  cbv

theorem readProgram_mark : readProgram (α := α) ["", "!(a,b)."] =
    .ok (ofParts [] [⟨Scalar.top, [⟨"!", "a", "b", true⟩]⟩]) := by
  cbv

end Instances

theorem readProgram_text_residence :
    readProgram (α := Float) ["*livesIn(PERSON,COUNTRY)\n", "!bornIn(x, y) v livesIn(x,y)."] =
        .ok (residence (α := Float)) ∧
      readProgram (pieces '\n' (residence (α := Float)).text) = .ok (residence (α := Float)) := by
  refine ⟨readProgram_residence, readProgram_text ?_ readProgram_residence ?_ ?_⟩
  · decide
  · intro r hr
    obtain rfl := List.mem_singleton.1 hr
    refine ⟨fun l hl => ?_, fun l hl => ?_⟩
    · simp at hl
      rcases hl with rfl | rfl <;> decide
    · simp at hl
      subst hl
      exact fun h => absurd h.1 (by decide)
  · intro r hr
    obtain rfl := List.mem_singleton.1 hr
    rfl

/-- **A program with an unnamed negated atom is read, but its text reads as another program.** -/
theorem readProgram_text_lost :
    readProgram (α := Float) ["! (a,b)."] = .ok unnamed ∧
      readProgram (pieces '\n' (unnamed (α := Float)).text) ≠ .ok (unnamed (α := Float)) := by
  have htext : pieces '\n' (unnamed (α := Float)).text = ["", "!(a,b)."] := by decide +kernel
  refine ⟨readProgram_unnamed, ?_⟩
  rw [htext, readProgram_mark]
  intro h
  have hrules := congrArg Program.rules (Except.ok.inj h)
  have hnames := congrArg (fun rules => rules.map fun r => r.literals.map Literal.name) hrules
  exact absurd hnames (by decide)

end FactNet.Program
