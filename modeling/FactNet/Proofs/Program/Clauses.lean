import FactNet.Proofs.Program.Atoms

/-!
# The texts of literals and clauses

A line is cut at a comment, and a clause at each lone letter `v` and behind a parenthesis that a
letter `v` follows.  The text of a literal has none of these places, so a clause is cut exactly
where its literals are joined.

Three things can go wrong, and a literal is writable when none of them does.  A negated atom
without a name is written with nothing but its mark in front of the parenthesis, where the mark
counts as the name.  An atom whose name is that of the equality is written as an equality, which
cannot hold every argument of an atom.  An equality that ends with the letter `v` has a lone letter
in front of the next literal.

## Main definitions

* `Literal.IsWritable`, `Rule.IsWritable` — whether a literal or a rule can be written.
* `IsReadable` — what reading ensures of the parts of a literal.

## Main results

* `readLiteral_text_iff` — **a readable literal is what its text reads as exactly when it is
  writable.**
* `readLiterals_text` — **the text of a writable clause reads as its literals.**
* `isReadable_of_readLiterals` — what was read is readable.
-/

namespace FactNet

open FactNet.Text FactNet.Program

/-- Whether the text of a literal that was read stands for the literal: an equality has arguments
that may stand beside its sign, and an atom has a name. -/
def Literal.IsWritable (l : Literal) : Prop :=
  if l.isEquality then
    (∀ c ∈ l.arg1.toList, isLeftChar c = true) ∧ ∀ c ∈ l.arg2.toList, isRightChar c = true
  else l.name ≠ ""

instance (l : Literal) : Decidable l.IsWritable :=
  inferInstanceAs (Decidable (if l.isEquality then
    (∀ c ∈ l.arg1.toList, isLeftChar c = true) ∧ ∀ c ∈ l.arg2.toList, isRightChar c = true
    else l.name ≠ ""))

/-- Whether a literal is an equality with the letter `v`, which would be taken for the sign between
literals if one more followed. -/
def Literal.EndsWithV (l : Literal) : Prop := l.isEquality = true ∧ l.arg2 = "v"

/-- Whether the text of a rule that was read stands for the rule. -/
structure Rule.IsWritable {α : Type} (r : Rule α) : Prop where
  /-- The text of each literal stands for it. -/
  literals : ∀ l ∈ r.literals, l.IsWritable
  /-- No literal but the last one ends with a lone letter `v`. -/
  inner : ∀ l ∈ r.literals.dropLast, ¬ l.EndsWithV

namespace Program

/-! ### Where lines and clauses are cut -/

/-- The pieces that a line is cut at. -/
def linePieces : List (List Char) := [['/', '/'], ['\n']]

/-- The pieces that a clause is cut at, the lone letter `v` aside. -/
def clausePieces : List (List Char) := [')', 'v'] :: linePieces

theorem avoids_of_notMem {ps : List (List Char)} {cs : List Char}
    (h : ∀ p ∈ ps, ∃ c ∈ p, c ∉ cs) : Avoids ps cs := by
  intro p hp hpart
  obtain ⟨c, hc, hcs⟩ := h p hp
  exact hcs (hpart.subset hc)

theorem avoids_concat_paren {cs : List Char} (h : Avoids clausePieces cs) :
    Avoids clausePieces (cs ++ [')']) := by
  intro p hp hpart
  rcases List.mem_cons.1 hp with rfl | hline
  · have hne : ')' ≠ 'v' := by decide
    have hleft : [')'] ++ ['v'] <:+: cs := (isInfix_concat hne).1 hpart
    exact h _ hp hleft
  · have hparen : ∀ q ∈ linePieces, ')' ∉ q := by decide
    have hnil : Avoids linePieces [] := avoids_of_notMem (by simp [linePieces])
    exact ((isInfix_append_cons (hparen p hline)).1 hpart).elim (h p hp) (hnil p hline)

/-- A text that can be a disjunct or be joined of disjuncts: it is trimmed and not empty, it ends
with no period, and no piece is in it that a clause is cut at. -/
structure IsClause (cs : List Char) : Prop where
  /-- There is something in it. -/
  ne_nil : cs ≠ []
  /-- It starts with no blank. -/
  first : ∀ c ∈ cs.head?, isBlank c = false
  /-- It ends with no blank and no period. -/
  last : ∀ c ∈ cs.getLast?, isBlank c = false ∧ c ≠ '.'
  /-- It has no comment, no line break, and no letter `v` behind a parenthesis. -/
  avoids : Avoids clausePieces cs

theorem IsClause.trim_eq {cs : List Char} (h : IsClause cs) : trim cs = cs :=
  trim_eq_self_iff.2 ⟨h.first, fun c hc => (h.last c hc).1⟩

/-! ### Literals -/

/-- A part of a literal that was read: it has nothing in it that a clause is cut at. -/
structure IsPart (cs : List Char) : Prop where
  /-- It has no comment, no line break, and no letter `v` behind a parenthesis. -/
  avoids : Avoids clausePieces cs
  /-- It has no lone letter `v`. -/
  noLoneV : NoLoneV cs

theorem IsPart.of_isInfix {s t : List Char} (h : IsPart t) (hpart : s <:+: t) : IsPart s :=
  ⟨h.avoids.of_isInfix hpart, h.noLoneV.of_isInfix hpart⟩

theorem IsPart.append_cons {u w : List Char} {c : Char} (hu : IsPart u) (hw : IsPart w)
    (hc : c ∈ ['(', ',', '!']) : IsPart (u ++ c :: w) := by
  have hpieces : ∀ c ∈ ['(', ',', '!'], ∀ p ∈ clausePieces, c ∉ p := by
    simp [clausePieces, linePieces]
  have hblank : ∀ c ∈ ['(', ',', '!'], isBlank c = false ∧ c ≠ 'v' := by simp [isBlank]
  exact ⟨hu.avoids.append_cons (hpieces c hc) hw.avoids,
    hu.noLoneV.append_cons (hblank c hc).1 (hblank c hc).2 hw.noLoneV⟩

/-- No clause is cut in the name of the equality. -/
theorem isPart_equalsName : IsPart equalsName.toList :=
  ⟨avoids_of_notMem (by simp [clausePieces, linePieces, equalsName]),
    noLoneV_of_length (by decide)⟩

/-- **What reading ensures of a literal**: its parts read back as an atom or as an equality, and a
clause is not cut in any of them. -/
structure IsReadable (l : Literal) : Prop where
  /-- The literal was read in one of two ways. -/
  kind : IsAtom l ∨ IsEquation l
  /-- The name. -/
  name : IsPart l.name.toList
  /-- The first argument. -/
  arg1 : IsPart l.arg1.toList
  /-- The second argument. -/
  arg2 : IsPart l.arg2.toList

theorem IsArgument.ne_nil {cs : List Char} (h : IsArgument cs) : cs ≠ [] :=
  (argument?_spec h).2.2

/-- A writable equality has the parts of one, in whatever way it was read. -/
theorem isEquation_of_isWritable {l : Literal} (h : IsReadable l) (hw : l.IsWritable)
    (heq : l.isEquality = true) : IsEquation l := by
  rw [Literal.IsWritable, if_pos heq] at hw
  rcases h.kind with hatom | hequation
  · exact ⟨by simpa [Literal.isEquality] using heq, hatom.arg1.ne_nil, hw.1, hatom.arg2.ne_nil,
      hw.2⟩
  · exact hequation

/-- A writable literal that is no equality is an atom with a name. -/
theorem isAtom_of_isWritable {l : Literal} (h : IsReadable l) (hw : l.IsWritable)
    (heq : l.isEquality = false) : IsAtom l ∧ l.name.toList ≠ [] := by
  rw [Literal.IsWritable, if_neg (by simp [heq])] at hw
  rcases h.kind with hatom | hequation
  · exact ⟨hatom, by simpa using hw⟩
  · exact absurd heq (by simp [Literal.isEquality, hequation.name])

theorem toList_text (l : Literal) :
    l.text.toList = if l.isEquality then equationText l else atomText l := by
  unfold Literal.text
  cases l.isEquality <;> cases htruth : l.truth <;> simp [equationText, atomText, htruth]

theorem atomText_isPart {l : Literal} (h : IsReadable l) : IsPart (atomText l) ∧
    NoLoneV (atomText l ++ [' ']) := by
  have hfront : IsPart ((if l.truth then [] else ['!']) ++ l.name.toList) := by
    cases l.truth with
    | true => exact h.name
    | false =>
      exact IsPart.append_cons (u := [])
        ⟨avoids_of_notMem (by simp [clausePieces, linePieces]), noLoneV_of_length (by simp)⟩
        h.name (by decide)
  have hback : IsPart (l.arg2.toList ++ [')']) :=
    ⟨avoids_concat_paren h.arg2.avoids, h.arg2.noLoneV.append_cons (by decide) (by decide)
      (noLoneV_of_length (by simp))⟩
  refine ⟨hfront.append_cons (h.arg1.append_cons hback (by decide)) (by decide), ?_⟩
  -- the parenthesis at the end keeps the blank behind it from closing in a lone letter
  have htext : atomText l ++ [' '] = (if l.truth then [] else ['!']) ++ l.name.toList ++
      '(' :: (l.arg1.toList ++ ',' :: (l.arg2.toList ++ ')' :: [' '])) := by
    simp [atomText]
  rw [htext]
  exact hfront.noLoneV.append_cons (by decide) (by decide)
    (h.arg1.noLoneV.append_cons (by decide) (by decide)
      (h.arg2.noLoneV.append_cons (by decide) (by decide) (noLoneV_of_length (by simp))))

theorem equationText_isPart {l : Literal} (h : IsReadable l) (heq : IsEquation l) :
    IsPart (equationText l) ∧ (l.arg2 ≠ "v" → NoLoneV (equationText l ++ [' '])) := by
  have hleft : ∀ c ∈ l.arg1.toList, isBlank c = false :=
    fun c hc => not_isBlank_of_isLeftChar (heq.left c hc)
  have hright : ∀ c ∈ l.arg2.toList, isBlank c = false :=
    fun c hc => not_isBlank_of_isRightChar (heq.right c hc)
  have hblank : ∀ p ∈ clausePieces, ' ' ∉ p := by decide
  -- the sign stands between two parts that have one blank each
  have hsign : ∀ w, NoLoneV (' ' :: w) →
      NoLoneV (l.arg1.toList ++ ' ' :: ((if l.truth then ['='] else ['!', '=']) ++ ' ' :: w)) := by
    intro w hw
    have hfront := noLoneV_concat_blank hleft ' '
    cases l.truth with
    | true => simpa using hfront.append_cons (c := '=') (by decide) (by decide) hw
    | false =>
      have hequals := NoLoneV.append_cons (u := []) (c := '=') (by decide) (by decide)
        (noLoneV_of_length (by simp)) hw
      simpa using hfront.append_cons (c := '!') (by decide) (by decide) hequals
  refine ⟨⟨?_, hsign _ (noLoneV_cons_blank hright ' ')⟩, fun hv => ?_⟩
  · refine h.arg1.avoids.append_cons hblank (Avoids.append_cons hblank ?_ h.arg2.avoids)
    cases l.truth <;> exact avoids_of_notMem (by simp [clausePieces, linePieces])
  · have hend : NoLoneV (' ' :: (l.arg2.toList ++ [' '])) := by
      refine (noLoneV_concat_blank hright ' ').cons fun e t ht _ => ?_
      -- the letter would be the whole argument
      cases harg : l.arg2.toList with
      | nil => exact absurd harg heq.right_ne
      | cons c u =>
        rw [harg, List.cons_append] at ht
        obtain ⟨rfl, htail⟩ := List.cons.inj ht
        cases u with
        | nil => exact absurd (String.toList_inj.1 (harg.trans (by rfl))) hv
        | cons d u =>
          rw [List.cons_append] at htail
          obtain ⟨rfl, -⟩ := List.cons.inj htail
          exact hright d (by simp [harg])
    have := hsign _ hend
    simpa [equationText] using this

theorem head?_atomText {l : Literal} (h : IsAtom l) (hname : l.name.toList ≠ []) :
    ∀ c ∈ (atomText l).head?, isBlank c = false := by
  intro c hc
  cases htruth : l.truth with
  | false =>
    obtain rfl : '!' = c := by simpa [atomText, htruth] using hc
    decide
  | true =>
    obtain ⟨d, t, hl⟩ := List.exists_cons_of_ne_nil hname
    obtain rfl : d = c := by simpa [atomText, htruth, hl] using hc
    exact (trim_eq_self_iff.1 h.name_trim).1 d (by simp [hl])

theorem atomText_isClause {l : Literal} (h : IsReadable l) (hatom : IsAtom l)
    (hname : l.name.toList ≠ []) : IsClause (atomText l) := by
  refine ⟨by simp [atomText], head?_atomText hatom hname, fun c hc => ?_,
    (atomText_isPart h).1.avoids⟩
  obtain ⟨u, hu⟩ : ∃ u, atomText l = u ++ [')'] :=
    ⟨(if l.truth then [] else ['!']) ++ l.name.toList ++
      '(' :: (l.arg1.toList ++ ',' :: l.arg2.toList), by simp [atomText]⟩
  obtain rfl : ')' = c := by simpa [hu] using hc
  decide

theorem equationText_isClause {l : Literal} (h : IsReadable l) (heq : IsEquation l) :
    IsClause (equationText l) := by
  obtain ⟨d, t, hl⟩ := List.exists_cons_of_ne_nil heq.left_ne
  refine ⟨by simp [equationText], fun c hc => ?_, fun c hc => ?_,
    (equationText_isPart h heq).1.avoids⟩
  · obtain rfl : d = c := by simpa [equationText, hl] using hc
    exact not_isBlank_of_isLeftChar (heq.left d (by simp [hl]))
  · obtain ⟨u, hu⟩ : ∃ u, equationText l = u ++ l.arg2.toList :=
      ⟨l.arg1.toList ++ ' ' :: ((if l.truth then ['='] else ['!', '=']) ++ [' ']),
        by simp [equationText]⟩
    rw [hu, List.getLast?_append_of_ne_nil _ heq.right_ne] at hc
    have hright := heq.right c (List.mem_of_getLast? hc)
    refine ⟨not_isBlank_of_isRightChar hright, ?_⟩
    rintro rfl
    exact absurd hright (by decide)

/-- **The text of a writable literal is a disjunct that reads as the literal**, and another one may
follow unless it ends with a lone letter `v`. -/
theorem text_spec {l : Literal} (h : IsReadable l) (hw : l.IsWritable) :
    IsClause l.text.toList ∧ NoLoneV l.text.toList ∧
      (¬ l.EndsWithV → NoLoneV (l.text.toList ++ [' '])) ∧ readLiteral l.text = .ok l := by
  rw [readLiteral, toList_text]
  cases heq : l.isEquality with
  | true =>
    have hequation := isEquation_of_isWritable h hw heq
    have hclause := equationText_isClause h hequation
    have ⟨hpart, hfollow⟩ := equationText_isPart h hequation
    have ⟨hatom, hread⟩ := equality?_equationText hequation
    rw [if_pos rfl, hclause.trim_eq, hatom, hread]
    exact ⟨hclause, hpart.noLoneV, fun hv => hfollow fun h => hv ⟨heq, h⟩, rfl⟩
  | false =>
    obtain ⟨hatom, hname⟩ := isAtom_of_isWritable h hw heq
    have hclause := atomText_isClause h hatom hname
    have ⟨hpart, hfollow⟩ := atomText_isPart h
    rw [if_neg (by simp), hclause.trim_eq, signedAtom?_atomText hatom hname]
    exact ⟨hclause, hpart.noLoneV, fun _ => hfollow, rfl⟩

/-- An atom ends with a parenthesis. -/
theorem getLast?_of_signedAtom? {cs : List Char} {l : Literal} (h : signedAtom? cs = some l) :
    cs.getLast? = some ')' := by
  have hend : ∀ {ds : List Char} {x}, atom? ds = some x → ∃ u, ds = u ++ [')'] := by
    intro ds x hatom
    obtain ⟨n, rest, rfl, -, -, -, hargs⟩ := atom?_iff.1 hatom
    obtain ⟨u, v, rfl, -⟩ := arguments?_iff.1 hargs
    exact ⟨n ++ '(' :: (u ++ ',' :: v), by simp⟩
  unfold signedAtom? at h
  split at h
  · next rest =>
    cases hatom : atom? rest with
    | some x =>
      obtain ⟨u, rfl⟩ := hend hatom
      rw [← List.cons_append, List.getLast?_concat]
    | none =>
      rw [hatom] at h
      obtain ⟨x, hx, -⟩ := Option.map_eq_some_iff.1 h
      obtain ⟨u, hu⟩ := hend hx
      rw [hu, List.getLast?_concat]
  · obtain ⟨x, hx, -⟩ := Option.map_eq_some_iff.1 h
    obtain ⟨u, rfl⟩ := hend hx
    rw [List.getLast?_concat]

/-- An equality whose arguments may not stand beside its sign does not read as itself. -/
theorem readLiteral_text_ne_of_equality {l : Literal} (h : IsReadable l)
    (heq : l.isEquality = true) (hw : ¬ l.IsWritable) : readLiteral l.text ≠ .ok l := by
  intro hread
  rw [Literal.IsWritable, if_pos heq] at hw
  rcases h.kind with hatom | hequation
  · rw [readLiteral, toList_text, if_pos heq] at hread
    cases hsigned : signedAtom? (trim (equationText l)) with
    | some l' =>
      -- what comes behind the sign has no parenthesis, with which an atom ends
      have hlast := getLast?_of_signedAtom? hsigned
      have htext : ∃ u, equationText l = u ++ '=' :: ' ' :: l.arg2.toList := by
        cases htruth : l.truth with
        | true => exact ⟨l.arg1.toList ++ [' '], by simp [equationText, htruth]⟩
        | false => exact ⟨l.arg1.toList ++ [' ', '!'], by simp [equationText, htruth]⟩
      obtain ⟨u, hu⟩ := htext
      rw [hu] at hlast
      have hmem := mem_of_getLast?_trim (by decide) hlast
      exact absurd hmem (by simp [hatom.arg2_paren])
    | none =>
      cases hequality : equality? (trim (equationText l)) with
      | none => simp [hsigned, hequality] at hread
      | some l' =>
        obtain rfl : l' = l := by simpa [hsigned, hequality] using hread
        have hparts := (isEquation_of_equality? hequality).1
        exact hw ⟨hparts.left, hparts.right⟩
  · exact hw ⟨hequation.left, hequation.right⟩

/-- **A negated atom without a name reads as the atom that is named by the mark.** -/
theorem readLiteral_text_unnamed {l : Literal} (h : IsReadable l) (hname : l.name = "") :
    readLiteral l.text = .ok ⟨"!", l.arg1, l.arg2, true⟩ := by
  have heq : l.isEquality = false := by simp [Literal.isEquality, hname, equalsName]
  have hatom : IsAtom l := h.kind.resolve_right fun hequation =>
    absurd heq (by simp [Literal.isEquality, hequation.name])
  have hfalse : l.truth = false :=
    Bool.eq_false_iff.2 fun htrue => hatom.name_ne htrue (by rw [hname]; rfl)
  -- the atom that the mark names has the same text
  generalize hm : (⟨"!", l.arg1, l.arg2, true⟩ : Literal) = m
  have hmname : m.name.toList = ['!'] := by
    have hmark : "!".toList = ['!'] := by decide
    rw [← hm]
    exact hmark
  have hmatom : IsAtom m := by
    refine ⟨by rw [hmname]; decide, by rw [hmname]; decide, fun _ => by rw [hmname]; simp,
      fun _ rest hrest => ?_, ?_, ?_, ?_, ?_⟩
    · rw [hmname] at hrest
      exact (List.cons.inj hrest).2.symm
    · rw [← hm]; exact hatom.arg1
    · rw [← hm]; exact hatom.arg1_comma
    · rw [← hm]; exact hatom.arg2
    · rw [← hm]; exact hatom.arg2_paren
  have hreadable : IsReadable m := by
    refine ⟨.inl hmatom, ?_, by rw [← hm]; exact h.arg1, by rw [← hm]; exact h.arg2⟩
    rw [hmname]
    exact ⟨avoids_of_notMem (by simp [clausePieces, linePieces]), noLoneV_of_length (by decide)⟩
  have htext : l.text = m.text := by
    rw [← hm, Literal.text, Literal.text, heq, hname, hfalse]
    rfl
  have hwritable : m.IsWritable := by
    rw [← hm]
    simp [Literal.IsWritable, Literal.isEquality, equalsName]
  rw [htext]
  exact (text_spec hreadable hwritable).2.2.2

/-- **The text of a readable literal reads as the literal exactly when it is writable.** -/
theorem readLiteral_text_iff {l : Literal} (h : IsReadable l) :
    readLiteral l.text = .ok l ↔ l.IsWritable := by
  refine ⟨fun hread => ?_, fun hw => (text_spec h hw).2.2.2⟩
  by_contra hw
  cases heq : l.isEquality with
  | true => exact readLiteral_text_ne_of_equality h heq hw hread
  | false =>
    have hname : l.name = "" := by simpa [Literal.IsWritable, heq] using hw
    rw [readLiteral_text_unnamed h hname] at hread
    have hmark : "!" = l.name := congrArg Literal.name (Except.ok.inj hread)
    rw [hname] at hmark
    exact absurd hmark (by decide)

/-! ### Clauses -/

/-- **Joined disjuncts are a clause that is cut into them.** -/
theorem intercalate_spec {ts : List String} (hne : ts ≠ [])
    (h : ∀ t ∈ ts, IsClause t.toList ∧ NoLoneV t.toList)
    (hinner : ∀ t ∈ ts.dropLast, NoLoneV (t.toList ++ [' '])) :
    IsClause (" v ".intercalate ts).toList ∧
      splitDisjuncts (" v ".intercalate ts).toList = ts.map String.toList := by
  induction ts with
  | nil => exact absurd rfl hne
  | cons t ts ih =>
    have ⟨hclause, hlone⟩ := h t (by simp)
    cases ts with
    | nil =>
      rw [String.intercalate_singleton]
      exact ⟨hclause, splitDisjuncts_single hlone⟩
    | cons t' ts =>
      obtain ⟨hrest, hsplit⟩ := ih (by simp) (fun u hu => h u (by simp [hu]))
        (fun u hu => hinner u (by rw [List.dropLast_cons_of_ne_nil (by simp)]; simp [hu]))
      have htext : (" v ".intercalate (t :: t' :: ts)).toList =
          t.toList ++ ' ' :: 'v' :: ' ' :: (" v ".intercalate (t' :: ts)).toList := by
        rw [String.intercalate_cons_cons, String.toList_append, String.toList_append,
          List.append_assoc]
        rfl
      rw [htext]
      have hstart : trimStart (" v ".intercalate (t' :: ts)).toList =
          (" v ".intercalate (t' :: ts)).toList := trimStart_eq_self_iff.2 hrest.first
      have hblank : ∀ p ∈ clausePieces, ' ' ∉ p := by decide
      -- the first character is that of the first disjunct, the last one that of the rest
      refine ⟨⟨by simp, fun c hc => ?_, fun c hc => ?_, ?_⟩, ?_⟩
      · refine hclause.first c ?_
        obtain ⟨d, u, hd⟩ := List.exists_cons_of_ne_nil hclause.ne_nil
        simpa [hd] using hc
      · refine hrest.last c ?_
        have hend : t.toList ++ ' ' :: 'v' :: ' ' :: (" v ".intercalate (t' :: ts)).toList =
            t.toList ++ [' ', 'v', ' '] ++ (" v ".intercalate (t' :: ts)).toList := by simp
        rwa [hend, List.getLast?_append_of_ne_nil _ hrest.ne_nil] at hc
      · refine hclause.avoids.append_cons hblank ?_
        have hv : Avoids clausePieces ['v'] :=
          avoids_of_notMem (by simp [clausePieces, linePieces])
        exact hv.append_cons hblank hrest.avoids
      · rw [splitDisjuncts_join (hinner t (by simp)) (fun c hc => (hclause.last c hc).1) hstart,
          hsplit, List.map_cons, List.map_cons, List.map_cons]

/-- The texts of literals in a clause. -/
def clauseText (ls : List Literal) : List Char :=
  (" v ".intercalate (ls.map Literal.text)).toList

/-- What a rule needs to be read back: it has literals, they are readable, and they are writable. -/
structure IsRoundTrip {α : Type} (r : Rule α) : Prop where
  /-- There are literals. -/
  ne_nil : r.literals ≠ []
  /-- The literals are as reading gives them. -/
  readable : ∀ l ∈ r.literals, IsReadable l
  /-- The rule is writable. -/
  writable : r.IsWritable

/-- **The text of a writable clause reads as its literals.** -/
theorem readLiterals_text {α : Type} {r : Rule α} (h : IsRoundTrip r) :
    IsClause (clauseText r.literals) ∧
      readLiterals (clauseText r.literals) = .ok r.literals := by
  have hspec := fun l hl => text_spec (h.readable l hl) (h.writable.literals l hl)
  have htexts : r.literals.map Literal.text ≠ [] := by simpa using h.ne_nil
  obtain ⟨hclause, hsplit⟩ := intercalate_spec htexts
    (fun t ht => by
      obtain ⟨l, hl, rfl⟩ := List.mem_map.1 ht
      exact ⟨(hspec l hl).1, (hspec l hl).2.1⟩)
    (fun t ht => by
      rw [← List.map_dropLast] at ht
      obtain ⟨l, hl, rfl⟩ := List.mem_map.1 ht
      exact (hspec l (List.dropLast_subset _ hl)).2.2.1 (h.writable.inner l hl))
  refine ⟨hclause, ?_⟩
  rw [clauseText, readLiterals, disjuncts,
    replace_eq_self (hclause.avoids [')', 'v'] (by simp [clausePieces])), hsplit]
  have hall : ∀ ls ⊆ r.literals,
      ((ls.map Literal.text).map String.toList).mapM (fun cs => readLiteral (String.ofList cs)) =
        .ok ls := by
    intro ls
    induction ls with
    | nil => exact fun _ => rfl
    | cons l ls ih =>
      intro hls
      have ⟨hl, hls⟩ := List.cons_subset.1 hls
      rw [List.map_cons, List.map_cons, List.mapM_cons, String.ofList_toList, (hspec l hl).2.2.2,
        ih hls]
      rfl
  exact hall r.literals (List.Subset.refl _)

/-! ### What was read -/

theorem mapM_except_ok {α β ε : Type} {f : α → Except ε β} {xs : List α} {ys : List β}
    (h : xs.mapM f = .ok ys) :
    (xs ≠ [] → ys ≠ []) ∧ ∀ y ∈ ys, ∃ x ∈ xs, f x = .ok y := by
  induction xs generalizing ys with
  | nil =>
    obtain rfl : [] = ys := by simpa [pure, Except.pure] using h
    simp
  | cons x xs ih =>
    rw [List.mapM_cons] at h
    cases hx : f x with
    | error e => simp [hx, bind, Except.bind] at h
    | ok y =>
      cases hxs : xs.mapM f with
      | error e => simp [hx, hxs, bind, Except.bind] at h
      | ok zs =>
        obtain rfl : y :: zs = ys := by simpa [hx, hxs, bind, Except.bind, pure, Except.pure] using h
        refine ⟨by simp, fun z hz => ?_⟩
        rcases List.mem_cons.1 hz with rfl | hz
        · exact ⟨x, by simp, hx⟩
        · obtain ⟨w, hw, hwz⟩ := (ih hxs).2 z hz
          exact ⟨w, by simp [hw], hwz⟩

/-- Every disjunct of a clause that is one line is a part. -/
theorem isPart_of_mem_disjuncts {body cs : List Char} (h : Avoids linePieces body)
    (hcs : cs ∈ disjuncts body) : IsPart cs := by
  have hsplit := areDisjuncts_splitDisjuncts (replace [')', 'v'] [')', ' ', ' ', 'v', ' ', ' '] body)
  refine ⟨Avoids.of_isInfix ?_ (hsplit.isInfix cs hcs), hsplit.noLoneV cs hcs⟩
  have hblank : ∀ p ∈ clausePieces, ' ' ∉ p := by decide
  have hrest : ∀ b, b <:+: body → ¬ [')', 'v'] <:+: b → Avoids clausePieces b := by
    intro b hb hnone p hp
    rcases List.mem_cons.1 hp with rfl | hp
    · exact hnone
    · exact (h.of_isInfix hb) p hp
  -- the exchange leaves no parenthesis with a letter behind it, and joins nothing else
  refine replace_induction (by simp) hrest fun b a hb hnone ha => ?_
  have hnil : Avoids clausePieces [] := avoids_of_notMem (by simp [clausePieces, linePieces])
  have hv : Avoids clausePieces ['v'] := avoids_of_notMem (by simp [clausePieces, linePieces])
  have hjoin := (avoids_concat_paren (hrest b hb hnone)).append_cons hblank
    (hnil.append_cons hblank (hv.append_cons hblank (hnil.append_cons hblank ha)))
  simpa using hjoin

theorem disjuncts_ne_nil (body : List Char) : disjuncts body ≠ [] := by
  obtain ⟨first, others, hsplit, -⟩ :=
    (areDisjuncts_splitDisjuncts (replace [')', 'v'] [')', ' ', ' ', 'v', ' ', ' '] body)).first
  rw [disjuncts, hsplit]
  simp

/-- A literal that was read from a part is readable. -/
theorem isReadable_of_readLiteral {cs : List Char} {l : Literal} (h : IsPart cs)
    (hread : readLiteral (String.ofList cs) = .ok l) : IsReadable l := by
  rw [readLiteral, String.toList_ofList] at hread
  have hstart := (trim_eq_self_iff.1 (trim_trim cs)).1
  have htrim : IsPart (trim cs) := h.of_isInfix (trim_isInfix cs)
  cases hatom : signedAtom? (trim cs) with
  | some l' =>
    obtain rfl : l' = l := by simpa [hatom] using hread
    obtain ⟨hparts, hn, h₁, h₂⟩ := isAtom_of_signedAtom? hstart hatom
    exact ⟨.inl hparts, htrim.of_isInfix hn, htrim.of_isInfix h₁, htrim.of_isInfix h₂⟩
  | none =>
    cases hequation : equality? (trim cs) with
    | none => simp [hatom, hequation] at hread
    | some l' =>
      obtain rfl : l' = l := by simpa [hatom, hequation] using hread
      obtain ⟨hparts, h₁, h₂⟩ := isEquation_of_equality? hequation
      exact ⟨.inr hparts, hparts.name ▸ isPart_equalsName, htrim.of_isInfix h₁,
        htrim.of_isInfix h₂⟩

/-- **What was read is readable.** -/
theorem isReadable_of_readLiterals {body : List Char} {ls : List Literal}
    (h : Avoids linePieces body) (hread : readLiterals body = .ok ls) :
    ls ≠ [] ∧ ∀ l ∈ ls, IsReadable l := by
  have ⟨hne, hall⟩ := mapM_except_ok hread
  refine ⟨hne (disjuncts_ne_nil body), fun l hl => ?_⟩
  obtain ⟨cs, hcs, hlit⟩ := hall l hl
  exact isReadable_of_readLiteral (isPart_of_mem_disjuncts h hcs) hlit

end Program

end FactNet
