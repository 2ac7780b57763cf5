import FactNet.Program.Reader
import FactNet.Proofs.Text.Pieces

/-!
# What reading an atom or an equality means

The readers of arguments, atoms and declarations cut a text at its first comma, its first opening
parenthesis and its last closing one.  Each of them is the same as a way to put the text together
from parts that do not have the characters it is cut at.

A literal that was read has parts that read back: its arguments and its name are trimmed and lack
the characters that end them.  `IsAtom` and `IsEquation` say so for the two kinds of literals, and
a literal of either kind is what its own text reads as.

## Main results

* `argument?_spec`, `arguments?_iff`, `atom?_iff`, `declaration?_iff` — the readers as ways to put
  a text together.
* `isAtom_of_signedAtom?`, `isEquation_of_equality?` — what was read has parts that read back.
* `signedAtom?_atomText`, `equality?_equationText` — **the text of such parts reads as them.**
-/

namespace FactNet.Program

open FactNet.Text

/-! ### Cutting at a character -/

theorem takeWhile_ne_append {c : Char} {u w : List Char} (hu : c ∉ u) :
    (u ++ c :: w).takeWhile (· ≠ c) = u := by
  induction u with
  | nil => simp
  | cons d u ih =>
    have ⟨hd, hu⟩ := not_or.1 (mt List.mem_cons.2 hu)
    rw [List.cons_append, List.takeWhile_cons, if_pos (by simpa using Ne.symm hd), ih hu]

theorem dropWhile_ne_append {c : Char} {u w : List Char} (hu : c ∉ u) :
    (u ++ c :: w).dropWhile (· ≠ c) = c :: w := by
  induction u with
  | nil => simp
  | cons d u ih =>
    have ⟨hd, hu⟩ := not_or.1 (mt List.mem_cons.2 hu)
    rw [List.cons_append, List.dropWhile_cons, if_pos (by simpa using Ne.symm hd), ih hu]

theorem notMem_takeWhile_ne (c : Char) (cs : List Char) : c ∉ cs.takeWhile (· ≠ c) :=
  fun h => by simpa using List.mem_takeWhile_imp h

/-- A text is what stands in front of the first occurrence of a character, and the rest. -/
theorem eq_append_of_dropWhile_ne {c d : Char} {cs rest : List Char}
    (h : cs.dropWhile (· ≠ c) = d :: rest) : cs = cs.takeWhile (· ≠ c) ++ c :: rest := by
  induction cs with
  | nil => exact absurd h (by simp)
  | cons e cs ih =>
    rw [List.dropWhile_cons] at h
    rw [List.takeWhile_cons]
    split at h
    · next he => rw [if_pos he, List.cons_append, ← ih h]
    · next he =>
      obtain ⟨-, rfl⟩ := List.cons.inj h
      obtain rfl : e = c := by simpa using he
      rw [if_neg he, List.nil_append]

/-! ### Arguments -/

/-- A text that is an argument as it is. -/
def IsArgument (cs : List Char) : Prop := argument? cs = some cs

/-- **An argument that was read** is a piece of the text that reads as itself. -/
theorem argument?_spec {cs a : List Char} (h : argument? cs = some a) :
    IsArgument a ∧ a <:+: cs ∧ a ≠ [] := by
  unfold argument? at h
  split at h
  · next htrim =>
    obtain ⟨c, hlast, rfl⟩ := Option.map_eq_some_iff.1 h
    have hc : isBlank c = true := isBlank_of_trim_eq_nil htrim c (List.mem_of_getLast? hlast)
    refine ⟨?_, ?_, by simp⟩
    · have : trim [c] = [] := by simp [trim, trimEnd, trimStart_cons, hc]
      simp [IsArgument, argument?, this]
    · exact (List.singleton_infix_iff _ _).2 (List.mem_of_getLast? hlast)
  · next c rest htrim =>
    obtain rfl := Option.some.inj h
    refine ⟨?_, htrim ▸ trim_isInfix cs, by simp⟩
    have := trim_trim cs
    rw [htrim] at this
    simp [IsArgument, argument?, this]

theorem arguments?_iff {cs : List Char} {a b : String} :
    arguments? cs = some (a, b) ↔
      ∃ u v, cs = u ++ ',' :: (v ++ [')']) ∧ ',' ∉ u ∧ ')' ∉ v ∧
        argument? u = some a.toList ∧ argument? v = some b.toList := by
  constructor
  · intro h
    unfold arguments? at h
    split at h
    · next d rest hdrop =>
      split at h
      · next hclose =>
        split at h
        · next x y hx hy =>
          obtain ⟨rfl, rfl⟩ : String.ofList x = a ∧ String.ofList y = b := by simpa using h
          refine ⟨cs.takeWhile (· ≠ ','), rest.takeWhile (· ≠ ')'), ?_,
            notMem_takeWhile_ne ',' cs, notMem_takeWhile_ne ')' rest, by simpa using hx,
            by simpa using hy⟩
          rw [← eq_append_of_dropWhile_ne hclose]
          exact eq_append_of_dropWhile_ne hdrop
        · exact absurd h (by simp)
      · exact absurd h (by simp)
    · exact absurd h (by simp)
  · rintro ⟨u, v, rfl, hu, hv, ha, hb⟩
    rw [arguments?, dropWhile_ne_append hu, takeWhile_ne_append hu]
    simp only [dropWhile_ne_append hv, takeWhile_ne_append hv, ha, hb, if_true,
      String.ofList_toList]

/-- A text without a comma has no arguments. -/
theorem arguments?_eq_none {cs : List Char} (h : ',' ∉ cs) : arguments? cs = none := by
  rw [Option.eq_none_iff_forall_ne_some]
  rintro ⟨a, b⟩ hsome
  obtain ⟨u, v, rfl, -⟩ := arguments?_iff.1 hsome
  exact h (by simp)

/-! ### Atoms -/

theorem atom?_iff {cs : List Char} {name a b : String} :
    atom? cs = some (name, a, b) ↔
      ∃ n rest, cs = n ++ '(' :: rest ∧ n ≠ [] ∧ '(' ∉ n ∧ name = String.ofList (trim n) ∧
        arguments? rest = some (a, b) := by
  constructor
  · intro h
    unfold atom? at h
    split at h
    · next c n d rest htake hdrop =>
      obtain ⟨⟨x, y⟩, hargs, heq⟩ := Option.map_eq_some_iff.1 h
      obtain ⟨hname, rfl, rfl⟩ : String.ofList (trim (c :: n)) = name ∧ x = a ∧ y = b := by
        simpa using heq
      refine ⟨c :: n, rest, ?_, by simp, ?_, hname.symm, hargs⟩
      · rw [← htake]
        exact eq_append_of_dropWhile_ne hdrop
      · rw [← htake]
        exact notMem_takeWhile_ne '(' cs
    · exact absurd h (by simp)
  · rintro ⟨n, rest, rfl, hne, hn, rfl, hargs⟩
    obtain ⟨c, n, rfl⟩ := List.exists_cons_of_ne_nil hne
    rw [atom?, takeWhile_ne_append hn, dropWhile_ne_append hn]
    simp [hargs]

theorem atom?_eq_none {cs : List Char} (h : ',' ∉ cs) : atom? cs = none := by
  rw [Option.eq_none_iff_forall_ne_some]
  rintro ⟨name, a, b⟩ hsome
  obtain ⟨n, rest, rfl, -, -, -, hargs⟩ := atom?_iff.1 hsome
  rw [arguments?_eq_none fun hmem => h (by simp [hmem])] at hargs
  exact absurd hargs (by simp)

/-- The parts of a literal that was read as an atom. -/
structure IsAtom (l : Literal) : Prop where
  /-- The name is trimmed. -/
  name_trim : trim l.name.toList = l.name.toList
  /-- The name ends at the parenthesis. -/
  name_paren : '(' ∉ l.name.toList
  /-- A positive atom has a name. -/
  name_ne : l.truth = true → l.name.toList ≠ []
  /-- The name of a positive atom starts with no mark of negation, unless the mark is the name. -/
  name_sign : l.truth = true → ∀ rest, l.name.toList = '!' :: rest → rest = []
  /-- The first argument reads as itself. -/
  arg1 : IsArgument l.arg1.toList
  /-- The first argument ends at the comma. -/
  arg1_comma : ',' ∉ l.arg1.toList
  /-- The second argument reads as itself. -/
  arg2 : IsArgument l.arg2.toList
  /-- The second argument ends at the parenthesis. -/
  arg2_paren : ')' ∉ l.arg2.toList

/-- An atom as it is written, whatever its name. -/
def atomText (l : Literal) : List Char :=
  (if l.truth then [] else ['!']) ++ l.name.toList ++
    '(' :: (l.arg1.toList ++ ',' :: (l.arg2.toList ++ [')']))

theorem arguments?_append {a b : String} (ha : IsArgument a.toList) (hac : ',' ∉ a.toList)
    (hb : IsArgument b.toList) (hbp : ')' ∉ b.toList) :
    arguments? (a.toList ++ ',' :: (b.toList ++ [')'])) = some (a, b) :=
  arguments?_iff.2 ⟨_, _, rfl, hac, hbp, ha, hb⟩

/-- **The text of an atom that has a name reads as the atom.** -/
theorem signedAtom?_atomText {l : Literal} (h : IsAtom l) (hname : l.name.toList ≠ []) :
    signedAtom? (atomText l) = some l := by
  have hargs := arguments?_append h.arg1 h.arg1_comma h.arg2 h.arg2_paren
  have hatom := atom?_iff.2 ⟨l.name.toList, _, rfl, hname, h.name_paren,
    by rw [h.name_trim, String.ofList_toList], hargs⟩
  cases htruth : l.truth with
  | false =>
    rw [atomText, htruth, if_neg (by simp), List.append_assoc, List.singleton_append,
      signedAtom?, hatom]
    simp [← htruth]
  | true =>
    rw [atomText, htruth, if_pos rfl, List.nil_append]
    unfold signedAtom?
    split
    · next rest heq =>
      -- the mark is the whole name, so that nothing can be negated by it
      have hmark : ∃ t, l.name.toList = '!' :: t := by
        cases hl : l.name.toList with
        | nil => exact absurd hl hname
        | cons c t => rw [hl, List.cons_append] at heq; exact ⟨t, by rw [(List.cons.inj heq).1]⟩
      obtain ⟨t, ht⟩ := hmark
      obtain rfl := h.name_sign htruth t ht
      rw [ht, List.singleton_append] at heq
      obtain ⟨-, rfl⟩ := List.cons.inj heq
      have hnone : atom? ('(' :: (l.arg1.toList ++ ',' :: (l.arg2.toList ++ [')']))) = none := by
        simp [atom?]
      rw [hnone, hatom]
      simp [← htruth]
    · rw [hatom]
      simp [← htruth]

/-- **The parts of an atom** are pieces of its text that read as themselves. -/
theorem parts_of_atom? {cs : List Char} {name a b : String} (h : atom? cs = some (name, a, b)) :
    (trim name.toList = name.toList ∧ '(' ∉ name.toList ∧ IsArgument a.toList ∧ ',' ∉ a.toList ∧
      IsArgument b.toList ∧ ')' ∉ b.toList) ∧
    name.toList <:+: cs ∧ a.toList <:+: cs ∧ b.toList <:+: cs := by
  obtain ⟨n, rest, rfl, -, hn, rfl, hargs⟩ := atom?_iff.1 h
  obtain ⟨u, v, rfl, hu, hv, ha, hb⟩ := arguments?_iff.1 hargs
  obtain ⟨hasame, hapart, -⟩ := argument?_spec ha
  obtain ⟨hbsame, hbpart, -⟩ := argument?_spec hb
  rw [String.toList_ofList]
  refine ⟨⟨trim_trim n, fun hmem => hn ((trim_isInfix n).subset hmem), hasame,
    fun hmem => hu (hapart.subset hmem), hbsame, fun hmem => hv (hbpart.subset hmem)⟩, ?_, ?_, ?_⟩
  · exact (trim_isInfix n).trans ⟨[], _, rfl⟩
  · exact hapart.trans ⟨n ++ ['('], ',' :: (v ++ [')']), by simp⟩
  · exact hbpart.trans ⟨n ++ '(' :: (u ++ [',']), [')'], by simp⟩

/-- **What was read as an atom has parts that read back.** -/
theorem isAtom_of_signedAtom? {cs : List Char} {l : Literal}
    (hstart : ∀ c ∈ cs.head?, isBlank c = false) (h : signedAtom? cs = some l) :
    IsAtom l ∧ l.name.toList <:+: cs ∧ l.arg1.toList <:+: cs ∧ l.arg2.toList <:+: cs := by
  -- the name of a positive atom starts where the text does
  have hpositive : (∀ rest, cs = '!' :: rest → atom? rest = none) →
      (atom? cs).map (fun p => (⟨p.1, p.2.1, p.2.2, true⟩ : Literal)) = some l →
      IsAtom l ∧ l.name.toList <:+: cs ∧ l.arg1.toList <:+: cs ∧ l.arg2.toList <:+: cs := by
    intro hmark hmap
    obtain ⟨⟨name, a, b⟩, hatom, rfl⟩ := Option.map_eq_some_iff.1 hmap
    obtain ⟨⟨hname, hparen, ha, hac, hb, hbp⟩, hpart⟩ := parts_of_atom? hatom
    obtain ⟨n, rest, rfl, hne, hn, rfl, hargs⟩ := atom?_iff.1 hatom
    obtain ⟨c, t, rfl⟩ := List.exists_cons_of_ne_nil hne
    obtain ⟨t', ht'⟩ := trim_cons t (hstart c (by simp))
    refine ⟨⟨hname, hparen, fun _ => by simp [ht'], fun _ r hr => ?_, ha, hac, hb, hbp⟩, hpart⟩
    rw [String.toList_ofList, ht'] at hr
    obtain ⟨rfl, rfl⟩ := List.cons.inj hr
    have htail : t = [] := by
      by_contra ht
      have hread := atom?_iff.2 ⟨t, rest, rfl, ht, fun hmem => hn (by simp [hmem]), rfl, hargs⟩
      exact absurd ((hmark _ rfl).symm.trans hread) (by simp)
    have hmark : trim ['!'] = ['!'] := by decide
    rw [htail, hmark] at ht'
    exact (List.cons.inj ht').2.symm
  unfold signedAtom? at h
  split at h
  · next rest =>
    split at h
    · next name a b hatom =>
      obtain rfl := Option.some.inj h
      obtain ⟨⟨hname, hparen, ha, hac, hb, hbp⟩, hn, h₁, h₂⟩ := parts_of_atom? hatom
      have htail : rest <:+: '!' :: rest := (List.suffix_cons '!' rest).isInfix
      exact ⟨⟨hname, hparen, fun htrue => absurd htrue (by simp),
        fun htrue => absurd htrue (by simp), ha, hac, hb, hbp⟩,
        hn.trans htail, h₁.trans htail, h₂.trans htail⟩
    · next hnone =>
      exact hpositive (fun r hr => by rw [← (List.cons.inj hr).2]; exact hnone) h
  · next hother => exact hpositive (fun r hr => absurd hr (hother r)) h

/-! ### Declarations -/

theorem declaration?_iff {closed : Bool} {cs : List Char} {p : Predicate} :
    declaration? closed cs = some p ↔
      ∃ c n rest, cs = c :: n ++ '(' :: rest ∧ '(' ∉ c :: n ∧ isNameStart c = true ∧
        n.any isBlank = false ∧ arguments? rest = some (p.type1, p.type2) ∧
        p.name = String.ofList (c :: n) ∧ p.closed = closed := by
  constructor
  · intro h
    unfold declaration? at h
    split at h
    · next c n d rest htake hdrop =>
      split at h
      · next hname =>
        obtain ⟨⟨a, b⟩, hargs, rfl⟩ := Option.map_eq_some_iff.1 h
        simp only [Bool.and_eq_true, Bool.not_eq_true'] at hname
        refine ⟨c, n, rest, ?_, ?_, hname.1, hname.2, hargs, rfl, rfl⟩
        · rw [← htake]
          exact eq_append_of_dropWhile_ne hdrop
        · rw [← htake]
          exact notMem_takeWhile_ne '(' cs
      · exact absurd h (by simp)
    · exact absurd h (by simp)
  · rintro ⟨c, n, rest, rfl, hn, hstart, hblank, hargs, hname, hclosed⟩
    rw [declaration?, takeWhile_ne_append hn, dropWhile_ne_append hn]
    simp [hstart, hblank, hargs, ← hname, ← hclosed]

/-- A declaration ends with a parenthesis. -/
theorem getLast?_of_readPredicate? {cs : List Char} {p : Predicate}
    (h : readPredicate? cs = some p) : cs.getLast? = some ')' := by
  have hend : ∀ {closed : Bool} {ds : List Char}, declaration? closed ds = some p →
      ∃ u, ds = u ++ [')'] := by
    intro closed ds hdecl
    obtain ⟨c, n, rest, rfl, -, -, -, hargs, -⟩ := declaration?_iff.1 hdecl
    obtain ⟨u, v, rfl, -⟩ := arguments?_iff.1 hargs
    exact ⟨c :: n ++ '(' :: (u ++ ',' :: v), by simp⟩
  unfold readPredicate? at h
  split at h
  · obtain ⟨u, rfl⟩ := hend h
    rw [← List.cons_append, List.getLast?_concat]
  · obtain ⟨u, rfl⟩ := hend h
    rw [List.getLast?_concat]

/-! ### Equalities -/

/-- The parts of a literal that was read as an equality. -/
structure IsEquation (l : Literal) : Prop where
  /-- The name is that of the equality. -/
  name : l.name = equalsName
  /-- There is something on the left. -/
  left_ne : l.arg1.toList ≠ []
  /-- The left has none of the characters that end it. -/
  left : ∀ c ∈ l.arg1.toList, isLeftChar c = true
  /-- There is something on the right. -/
  right_ne : l.arg2.toList ≠ []
  /-- The right has none of the characters that may not stand in it. -/
  right : ∀ c ∈ l.arg2.toList, isRightChar c = true

/-- An equality as it is written. -/
def equationText (l : Literal) : List Char :=
  l.arg1.toList ++ ' ' :: ((if l.truth then ['='] else ['!', '=']) ++ ' ' :: l.arg2.toList)

theorem not_isBlank_of_isRightChar {c : Char} (h : isRightChar c = true) : isBlank c = false := by
  simp only [isRightChar, Bool.and_eq_true, Bool.not_eq_true'] at h
  exact h.1.1

theorem not_isBlank_of_isLeftChar {c : Char} (h : isLeftChar c = true) : isBlank c = false := by
  simp only [isLeftChar, Bool.and_eq_true, Bool.not_eq_true'] at h
  exact h.1.1.1

theorem takeWhile_append_of_forall {p : Char → Bool} {u w : List Char} {c : Char}
    (hu : ∀ d ∈ u, p d = true) (hc : p c = false) :
    (u ++ c :: w).takeWhile p = u ∧ (u ++ c :: w).dropWhile p = c :: w := by
  rw [List.takeWhile_append_of_pos hu, List.dropWhile_append_of_pos hu]
  simp [hc]

/-- **The text of an equality reads as the equality**, and not as an atom. -/
theorem equality?_equationText {l : Literal} (h : IsEquation l) :
    signedAtom? (equationText l) = none ∧ equality? (equationText l) = some l := by
  constructor
  · -- a text without a comma is no atom
    have hcomma : ',' ∉ equationText l := by
      have hleft : ',' ∉ l.arg1.toList := fun hmem => absurd (h.left _ hmem) (by decide)
      have hright : ',' ∉ l.arg2.toList := fun hmem => absurd (h.right _ hmem) (by decide)
      unfold equationText
      split <;> simp [hleft, hright]
    unfold signedAtom?
    split
    · next rest heq =>
      have hrest : ',' ∉ rest := fun hmem => hcomma (by rw [heq]; simp [hmem])
      rw [atom?_eq_none hrest, atom?_eq_none hcomma]
      rfl
    · rw [atom?_eq_none hcomma]
      rfl
  · -- the left side ends at the blank before the sign, the right one starts behind it
    have hright : trimStart (' ' :: l.arg2.toList) = l.arg2.toList := by
      rw [trimStart_cons, if_pos (by decide), trimStart_eq_self_iff]
      exact fun c hc => not_isBlank_of_isRightChar (h.right c (List.mem_of_mem_head? hc))
    have hcut := fun w =>
      takeWhile_append_of_forall (w := w) h.left (show isLeftChar ' ' = false by decide)
    have hall : l.arg2.toList.all isRightChar = true := List.all_eq_true.2 h.right
    have hsides : (l.arg1.toList.isEmpty || l.arg2.toList.isEmpty) = false := by
      rw [List.isEmpty_eq_false_iff.2 h.left_ne, List.isEmpty_eq_false_iff.2 h.right_ne]
      rfl
    unfold equationText
    rw [equality?, (hcut _).1, (hcut _).2, trimStart_cons, if_pos (by decide)]
    cases htruth : l.truth with
    | true =>
      rw [if_pos rfl, List.singleton_append, trimStart_cons, if_neg (by decide), equalitySign?]
      simp only [hright, hall, hsides, String.ofList_toList]
      rw [if_neg (by decide), ← h.name, ← htruth]
    | false =>
      rw [if_neg (by simp), List.cons_append, trimStart_cons, if_neg (by decide),
        List.singleton_append, equalitySign?]
      simp only [hright, hall, hsides, String.ofList_toList]
      rw [if_neg (by decide), ← h.name, ← htruth]

/-- **What was read as an equality has parts that read back.** -/
theorem isEquation_of_equality? {cs : List Char} {l : Literal} (h : equality? cs = some l) :
    IsEquation l ∧ l.arg1.toList <:+: cs ∧ l.arg2.toList <:+: cs := by
  unfold equality? at h
  dsimp only at h
  split at h
  · next truth rest hsign =>
    split at h
    · exact absurd h (by simp)
    · next hparts =>
      obtain rfl := Option.some.inj h
      simp only [Bool.or_eq_true, List.isEmpty_iff, Bool.not_eq_true', not_or,
        Bool.not_eq_false] at hparts
      obtain ⟨⟨hleft, hright⟩, hall⟩ := hparts
      refine ⟨⟨rfl, by simpa using hleft, ?_, by simpa using hright, ?_⟩, ?_, ?_⟩
      · intro c hc
        rw [String.toList_ofList] at hc
        exact List.mem_takeWhile_imp hc
      · intro c hc
        rw [String.toList_ofList] at hc
        exact List.all_eq_true.1 hall c hc
      · rw [String.toList_ofList]
        exact (List.takeWhile_prefix _).isInfix
      · -- the right side is what is left of the text after the sign
        rw [String.toList_ofList]
        have hrest : rest <:+ trimStart (cs.dropWhile isLeftChar) := by
          unfold equalitySign? at hsign
          split at hsign
          · next heq => cases hsign; exact heq ▸ ⟨['!', '='], rfl⟩
          · next heq => cases hsign; exact heq ▸ ⟨['='], rfl⟩
          · exact absurd hsign (by simp)
        refine ((trimStart_suffix rest).trans (hrest.trans ?_)).isInfix
        exact (trimStart_suffix _).trans (List.dropWhile_suffix _)
  · exact absurd h (by simp)

end FactNet.Program
