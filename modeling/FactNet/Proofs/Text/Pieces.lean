import FactNet.Text.Split
import FactNet.Proofs.Text.Trim

/-!
# Pieces that a text does not have

A piece occurs across a character that it does not itself contain only if it occurs on one side of
it.  With that, what a cut or an exchange of pieces leaves is known: the text before the first
occurrence has none, and an exchange leaves a text that has no occurrence.

A clause is cut at each lone letter `v`.  A text without one is a single disjunct, and texts
without one are the disjuncts of the clause that joins them.

## Main results

* `isInfix_append_cons` — where a piece occurs.
* `cutAt?_eq_some_iff` — a text is cut at the first occurrence.
* `not_isInfix_before`, `before_eq_self`, `before_append_piece` — the text before the first
  occurrence.
* `replace_eq_self` — an exchange leaves a text without the piece.
* `splitDisjuncts_join` — the disjuncts of joined texts.
* `areDisjuncts_splitDisjuncts` — the disjuncts of any text have no lone letter `v`.
* `pieces_intercalate` — the pieces of joined lines.
* `pieces_intercalate_flatMap` — **the pieces of what a character joins are those of its parts.**
-/

namespace FactNet.Text

/-! ### Occurrences -/

/-- **A piece occurs across a character it does not contain only on one side of it.** -/
theorem isInfix_append_cons {α : Type} {piece u w : List α} {c : α} (hc : c ∉ piece) :
    piece <:+: u ++ c :: w ↔ piece <:+: u ∨ piece <:+: w := by
  constructor
  · rintro ⟨s, e, h⟩
    rw [List.append_assoc, List.append_eq_append_iff] at h
    obtain ⟨a, rfl, h⟩ | ⟨a, rfl, h⟩ := h
    · -- the piece starts in front of the character
      rw [List.append_eq_append_iff] at h
      obtain ⟨b, rfl, -⟩ | ⟨b, rfl, h⟩ := h
      · exact .inl ⟨s, b, by simp⟩
      · cases b with
        | nil => exact .inl ⟨s, [], by simp⟩
        | cons d b =>
          obtain ⟨rfl, -⟩ := List.cons.inj h
          exact absurd (by simp) hc
    · cases a with
      | nil =>
        cases piece with
        | nil => exact .inr (List.nil_infix)
        | cons d piece =>
          obtain ⟨rfl, -⟩ := List.cons.inj h
          exact absurd (by simp) hc
      | cons d a =>
        obtain ⟨-, rfl⟩ := List.cons.inj h
        exact .inr ⟨a, e, by simp⟩
  · rintro (h | h)
    · exact h.trans ⟨[], c :: w, by simp⟩
    · exact h.trans ⟨u ++ [c], [], by simp⟩

/-- A piece does not occur at the end of a text that ends otherwise. -/
theorem isInfix_concat {α : Type} {piece u : List α} {c d : α} (hc : c ≠ d) :
    piece ++ [d] <:+: u ++ [c] ↔ piece ++ [d] <:+: u := by
  constructor
  · rintro ⟨s, e, h⟩
    rcases List.eq_nil_or_concat e with rfl | ⟨e, x, rfl⟩
    · have := congrArg List.getLast? h
      simp at this
      exact absurd this.symm hc
    · rw [List.concat_eq_append, ← List.append_assoc] at h
      obtain ⟨rfl, -⟩ := List.append_inj' h rfl
      exact ⟨s, e, rfl⟩
  · intro h
    exact h.trans ⟨[], [c], by simp⟩

theorem not_isInfix_of_notMem {α : Type} {piece cs : List α} {c : α} (hc : c ∈ piece)
    (h : c ∉ cs) : ¬ piece <:+: cs :=
  fun hpart => h (hpart.subset hc)

theorem isInfix_of_concat {α : Type} {piece u : List α} {c d : α}
    (h : piece ++ [d] <:+: u ++ [c]) : piece <:+: u := by
  obtain ⟨s, e, h⟩ := h
  rcases List.eq_nil_or_concat e with rfl | ⟨e, x, rfl⟩
  · rw [List.append_nil, ← List.append_assoc] at h
    exact ⟨s, [], by rw [List.append_nil]; exact (List.append_inj' h rfl).1⟩
  · rw [List.concat_eq_append, ← List.append_assoc] at h
    obtain ⟨rfl, -⟩ := List.append_inj' h rfl
    exact ⟨s, [d] ++ e, by simp⟩

/-! ### Texts without some pieces -/

/-- None of some pieces occurs in a text. -/
def Avoids (ps : List (List Char)) (cs : List Char) : Prop := ∀ p ∈ ps, ¬ p <:+: cs

theorem Avoids.of_isInfix {ps : List (List Char)} {s t : List Char} (h : Avoids ps t)
    (hpart : s <:+: t) : Avoids ps s :=
  fun p hp hs => h p hp (hs.trans hpart)

theorem Avoids.append_cons {ps : List (List Char)} {u w : List Char} {c : Char}
    (hc : ∀ p ∈ ps, c ∉ p) (hu : Avoids ps u) (hw : Avoids ps w) : Avoids ps (u ++ c :: w) :=
  fun p hp h => ((isInfix_append_cons (hc p hp)).1 h).elim (hu p hp) (hw p hp)

/-! ### The first occurrence -/

theorem dropPrefix?_append (piece rest : List Char) :
    dropPrefix? piece (piece ++ rest) = some rest := by
  induction piece with
  | nil => rfl
  | cons c piece ih => simp [dropPrefix?, ih]

theorem cutAt?_eq_some {piece cs b a : List Char} (h : cutAt? piece cs = some (b, a)) :
    cs = b ++ piece ++ a := by
  induction cs generalizing b with
  | nil =>
    rw [cutAt?] at h
    split at h
    · next hp => cases h; simp [List.isEmpty_iff.1 hp]
    · exact absurd h (by simp)
  | cons c cs ih =>
    rw [cutAt?] at h
    split at h
    · next rest hrest =>
      cases h
      simpa using dropPrefix?_eq_some hrest
    · obtain ⟨⟨b', a'⟩, hcut, hpair⟩ := Option.map_eq_some_iff.1 h
      cases hpair
      simp [ih hcut]

theorem dropPrefix?_eq_none {piece cs : List Char} (h : dropPrefix? piece cs = none) :
    ¬ piece <+: cs := by
  rintro ⟨rest, rfl⟩
  rw [dropPrefix?_append] at h
  cases h

theorem cutAt?_eq_none_iff {piece cs : List Char} (hp : piece ≠ []) :
    cutAt? piece cs = none ↔ ¬ piece <:+: cs := by
  induction cs with
  | nil => simp [cutAt?, hp]
  | cons c cs ih =>
    rw [cutAt?, List.infix_cons_iff, not_or, ← ih]
    cases hdrop : dropPrefix? piece (c :: cs) with
    | none =>
      rw [Option.map_eq_none_iff]
      exact ⟨fun h => ⟨dropPrefix?_eq_none hdrop, h⟩, fun h => h.2⟩
    | some rest =>
      have hstart : piece <+: c :: cs := ⟨rest, (dropPrefix?_eq_some hdrop).symm⟩
      simp [hstart]

/-- No occurrence of a piece starts before the first one. -/
theorem not_isInfix_append_dropLast {piece cs b a : List Char}
    (h : cutAt? piece cs = some (b, a)) (hp : piece ≠ []) :
    ¬ piece <:+: b ++ piece.dropLast := by
  induction cs generalizing b with
  | nil =>
    rw [cutAt?, if_neg (by simp [hp])] at h
    cases h
  | cons c cs ih =>
    rw [cutAt?] at h
    split at h
    · cases h
      intro hpart
      have hlength := hpart.length_le
      have hpos := List.length_pos_iff.2 hp
      simp only [List.nil_append, List.length_dropLast] at hlength
      omega
    · next hnone =>
      obtain ⟨⟨b', a'⟩, hcut, hpair⟩ := Option.map_eq_some_iff.1 h
      cases hpair
      rw [List.cons_append, List.infix_cons_iff]
      rintro (hstart | hpart)
      · -- an occurrence at the start would have been cut at once
        refine dropPrefix?_eq_none hnone (hstart.trans ?_)
        rw [cutAt?_eq_some hcut, List.append_assoc, List.cons_prefix_cons,
          List.prefix_append_right_inj]
        exact ⟨rfl, (List.dropLast_prefix piece).trans (List.prefix_append piece a)⟩
      · exact ih hcut hpart

theorem not_isInfix_of_cutAt? {piece cs b a : List Char} (h : cutAt? piece cs = some (b, a))
    (hp : piece ≠ []) : ¬ piece <:+: b :=
  fun hpart => not_isInfix_append_dropLast h hp (hpart.trans (List.prefix_append ..).isInfix)

/-- A text is cut at a piece that is put after it if the text has none and none runs over into the
piece. -/
theorem cutAt?_append {piece cs : List Char} (hp : piece ≠ [])
    (h : ¬ piece <:+: cs ++ piece.dropLast) (rest : List Char) :
    cutAt? piece (cs ++ (piece ++ rest)) = some (cs, rest) := by
  induction cs with
  | nil =>
    obtain ⟨p, ps, rfl⟩ := List.exists_cons_of_ne_nil hp
    have hdrop := dropPrefix?_append (p :: ps) rest
    rw [List.cons_append] at hdrop
    rw [List.nil_append, List.cons_append, cutAt?, hdrop]
  | cons c cs ih =>
    have hnone : dropPrefix? piece (c :: (cs ++ (piece ++ rest))) = none := by
      refine Option.eq_none_iff_forall_ne_some.2 fun tail hdrop => h ?_
      have hstart : piece <+: c :: (cs ++ (piece ++ rest)) :=
        ⟨tail, (dropPrefix?_eq_some hdrop).symm⟩
      have hpart : c :: cs ++ piece.dropLast <+: c :: (cs ++ (piece ++ rest)) := by
        rw [List.cons_append, List.cons_prefix_cons, List.prefix_append_right_inj]
        exact ⟨rfl, (List.dropLast_prefix piece).trans (List.prefix_append piece rest)⟩
      -- an occurrence at the start ends in front of the last character of the piece
      refine (List.prefix_of_prefix_length_le hstart hpart ?_).isInfix
      simp only [List.length_append, List.length_cons, List.length_dropLast]
      omega
    rw [List.cons_append, cutAt?, hnone, ih fun hpart => h (List.infix_cons hpart)]
    rfl

/-- **A text is cut at the first occurrence of a piece**: none starts before it. -/
theorem cutAt?_eq_some_iff {piece cs b a : List Char} (hp : piece ≠ []) :
    cutAt? piece cs = some (b, a) ↔
      cs = b ++ (piece ++ a) ∧ ¬ piece <:+: b ++ piece.dropLast := by
  constructor
  · intro h
    exact ⟨by rw [cutAt?_eq_some h, List.append_assoc], not_isInfix_append_dropLast h hp⟩
  · rintro ⟨rfl, h⟩
    exact cutAt?_append hp h a

/-- **The text before the first occurrence of a piece has no occurrence of it.** -/
theorem not_isInfix_before {piece : List Char} (hp : piece ≠ []) (cs : List Char) :
    ¬ piece <:+: before piece cs := by
  unfold before
  split
  · next hcut => exact not_isInfix_of_cutAt? hcut hp
  · next hcut => exact (cutAt?_eq_none_iff hp).1 hcut

theorem before_eq_self {piece cs : List Char} (hp : piece ≠ []) (h : ¬ piece <:+: cs) :
    before piece cs = cs := by
  rw [before, (cutAt?_eq_none_iff hp).2 h]

/-- The text before a piece that is put after it. -/
theorem before_append_piece {piece cs : List Char} (hp : piece ≠ [])
    (h : ¬ piece <:+: cs ++ piece.dropLast) (rest : List Char) :
    before piece (cs ++ (piece ++ rest)) = cs := by
  rw [before, cutAt?_append hp h]

/-- What comes after an occurrence does not change where the first one is. -/
theorem before_append {piece cs : List Char} (hp : piece ≠ []) (h : piece <:+: cs)
    (rest : List Char) : before piece (cs ++ rest) = before piece cs := by
  cases hcut : cutAt? piece cs with
  | none => exact absurd h ((cutAt?_eq_none_iff hp).1 hcut)
  | some parts =>
    obtain ⟨b, a⟩ := parts
    obtain ⟨rfl, hfirst⟩ := (cutAt?_eq_some_iff hp).1 hcut
    rw [before_append_piece hp hfirst, List.append_assoc, List.append_assoc,
      before_append_piece hp hfirst]

theorem before_isInfix (piece cs : List Char) : before piece cs <:+: cs := by
  unfold before
  split
  · next b a hcut => exact ⟨[], piece ++ a, by simp [cutAt?_eq_some hcut]⟩
  · exact List.infix_rfl

/-! ### Exchanges -/

/-- **An exchange leaves a text without the piece.** -/
theorem replace_eq_self {piece other cs : List Char} (h : ¬ piece <:+: cs) :
    replace piece other cs = cs := by
  unfold replace
  split
  · rfl
  · next hp =>
    have hcut := (cutAt?_eq_none_iff (by simpa using hp)).2 h
    cases cs with
    | nil => rfl
    | cons c cs => rw [List.length_cons, replaceFuel, hcut]

/-- An exchange puts together parts of the text that do not have the piece, with the new piece
between them. -/
theorem replace_induction {piece other cs : List Char} {P : List Char → Prop} (hp : piece ≠ [])
    (hpart : ∀ b, b <:+: cs → ¬ piece <:+: b → P b)
    (hjoin : ∀ b a, b <:+: cs → ¬ piece <:+: b → P a → P (b ++ other ++ a)) :
    P (replace piece other cs) := by
  -- every cut leaves a shorter rest, so the fuel is enough
  have hrun : ∀ fuel ds, ds <:+: cs → ds.length ≤ fuel → P (replaceFuel piece other fuel ds) := by
    intro fuel
    induction fuel with
    | zero =>
      intro ds hds hlength
      obtain rfl : ds = [] := List.eq_nil_of_length_eq_zero (by omega)
      exact hpart [] hds (by simpa using hp)
    | succ fuel ih =>
      intro ds hds hlength
      rw [replaceFuel]
      cases hcut : cutAt? piece ds with
      | none => exact hpart ds hds ((cutAt?_eq_none_iff hp).1 hcut)
      | some parts =>
        obtain ⟨b, a⟩ := parts
        have heq := cutAt?_eq_some hcut
        have hb : b <:+: ds := ⟨[], piece ++ a, by simp [heq]⟩
        have ha : a <:+: ds := ⟨b ++ piece, [], by simp [heq]⟩
        refine hjoin b _ (hb.trans hds) (not_isInfix_of_cutAt? hcut hp) (ih a (ha.trans hds) ?_)
        have hpos := List.length_pos_iff.2 hp
        have := congrArg List.length heq
        simp only [List.length_append] at this
        omega
  rw [replace, if_neg (by simpa using hp)]
  exact hrun _ _ List.infix_rfl (Nat.le_refl _)

/-! ### Disjuncts -/

/-- A lone letter `v` occurs nowhere between two blanks of the text. -/
def NoLoneV (cs : List Char) : Prop :=
  ∀ b c, isBlank b = true → isBlank c = true → ¬ [b, 'v', c] <:+: cs

theorem NoLoneV.of_isInfix {s t : List Char} (h : NoLoneV t) (hpart : s <:+: t) : NoLoneV s :=
  fun b c hb hc hs => h b c hb hc (hs.trans hpart)

theorem NoLoneV.append_cons {u w : List Char} {c : Char} (hc : isBlank c = false) (hv : c ≠ 'v')
    (hu : NoLoneV u) (hw : NoLoneV w) : NoLoneV (u ++ c :: w) := by
  intro b e hb he h
  have hmem : c ∉ [b, 'v', e] := by
    rintro (_ | ⟨_, _ | ⟨_, _ | ⟨_, hnil⟩⟩⟩)
    · exact absurd hb (by simp [hc])
    · exact hv rfl
    · exact absurd he (by simp [hc])
    · cases hnil
  exact ((isInfix_append_cons hmem).1 h).elim (hu b e hb he) (hw b e hb he)

theorem NoLoneV.cons {c : Char} {cs : List Char} (h : NoLoneV cs)
    (hstart : ∀ e t, cs = 'v' :: e :: t → isBlank c = true → isBlank e = false) :
    NoLoneV (c :: cs) := by
  intro b e hb he hpart
  rcases List.infix_cons_iff.1 hpart with ⟨t, ht⟩ | hpart
  · obtain ⟨rfl, rfl⟩ := List.cons.inj ht
    exact absurd he (by simp [hstart e t rfl hb])
  · exact h b e hb he hpart

theorem noLoneV_of_length {cs : List Char} (h : cs.length < 3) : NoLoneV cs :=
  fun _ _ _ _ hpart => absurd hpart.length_le (by simpa using h)

/-- A text without blanks has no lone letter `v`, even with one blank at an end. -/
theorem noLoneV_concat_blank {cs : List Char} (h : ∀ c ∈ cs, isBlank c = false) (b : Char) :
    NoLoneV (cs ++ [b]) := by
  intro c e hc _ hpart
  have hstart : [c, 'v'] <:+: cs := isInfix_of_concat (d := e) hpart
  exact absurd hc (by simp [h c (hstart.subset (by simp))])

theorem noLoneV_cons_blank {cs : List Char} (h : ∀ c ∈ cs, isBlank c = false) (b : Char) :
    NoLoneV (b :: cs) := by
  intro c e _ he hpart
  have hend : e ∈ cs := by
    rcases List.infix_cons_iff.1 hpart with ⟨t, ht⟩ | hpart
    · rw [← (List.cons.inj ht).2]
      simp
    · exact hpart.subset (by simp)
  exact absurd he (by simp [h e hend])

/-! ### Where cuts start -/

theorem splitDisjuncts_blank {c : Char} {cs : List Char} (hc : isBlank c = true) :
    splitDisjuncts (c :: cs) =
      match afterLoneV? (trimStart cs) with
      | some after => [] :: splitDisjuncts after
      | none => consFirst c (splitDisjuncts cs) := by
  rw [splitDisjuncts, if_pos hc]
  split
  · next h => simp only [h]
  · next h => simp only [h]

theorem splitDisjuncts_cons {c : Char} {cs : List Char} (hc : isBlank c = false) :
    splitDisjuncts (c :: cs) = consFirst c (splitDisjuncts cs) := by
  rw [splitDisjuncts, if_neg (by simp [hc])]

theorem afterLoneV?_eq_none {d e : Char} {cs : List Char} (h : d = 'v' → isBlank e = false) :
    afterLoneV? (d :: e :: cs) = none := by
  unfold afterLoneV?
  split
  · next heq =>
    cases heq
    rw [if_neg (by simp [h rfl])]
  · rfl

/-- No cut starts at a blank of a text without a lone letter `v`, whatever follows the text after
one more blank. -/
theorem afterLoneV?_append {b c : Char} {cs : List Char} (hb : isBlank b = true)
    (h : NoLoneV (b :: cs ++ [c])) (rest : List Char) (hcs : trimStart cs ≠ []) :
    afterLoneV? (trimStart (cs ++ c :: rest)) = none := by
  rw [trimStart_append _ hcs]
  obtain ⟨d, t, hstart⟩ := List.exists_cons_of_ne_nil hcs
  obtain ⟨b', hb', hsuffix⟩ := trimStart_after_blank hb hstart (by simp)
  rw [hstart]
  -- the character that follows the first one that is no blank
  obtain ⟨e, u, htail⟩ : ∃ e u, t ++ [c] = e :: u := List.exists_cons_of_ne_nil (by simp)
  have hfollow : ∃ w, d :: t ++ c :: rest = d :: e :: w := by
    refine ⟨u ++ rest, ?_⟩
    have : t ++ c :: rest = t ++ [c] ++ rest := by simp
    rw [List.cons_append, this, htail, List.cons_append]
  obtain ⟨w, hw⟩ := hfollow
  rw [hw]
  have hpart : [b', d, e] <:+: b :: cs ++ [c] := by
    obtain ⟨s, hs⟩ := hsuffix
    refine ⟨s, u, ?_⟩
    rw [← hs]
    simp [htail]
  refine afterLoneV?_eq_none fun hd => Bool.eq_false_iff.2 fun he => h b' e hb' he ?_
  rwa [hd] at hpart

/-- **A text is the first disjunct of what it is joined to** when it has no lone letter `v`, not
even with a blank after it. -/
theorem splitDisjuncts_join {cs rest : List Char} (h : NoLoneV (cs ++ [' ']))
    (hend : ∀ c ∈ cs.getLast?, isBlank c = false) (hrest : trimStart rest = rest) :
    splitDisjuncts (cs ++ ' ' :: 'v' :: ' ' :: rest) = cs :: splitDisjuncts rest := by
  induction cs with
  | nil =>
    have hafter : afterLoneV? (trimStart ('v' :: ' ' :: rest)) = some rest := by
      rw [trimStart_cons, if_neg (by decide)]
      simp [afterLoneV?, hrest, show isBlank ' ' = true by decide]
    rw [List.nil_append, splitDisjuncts_blank (by decide), hafter]
  | cons c cs ih =>
    have htail : NoLoneV (cs ++ [' ']) := h.of_isInfix (List.suffix_cons c _).isInfix
    have hlast : ∀ c ∈ cs.getLast?, isBlank c = false := by
      intro d hd
      refine hend d ?_
      cases cs with
      | nil => simp at hd
      | cons e cs => simpa [List.getLast?_cons_cons] using hd
    have hstep := ih htail hlast
    cases hc : isBlank c with
    | false => rw [List.cons_append, splitDisjuncts_cons hc, hstep, consFirst]
    | true =>
      -- the text does not end in blanks, so this is not the blank before the letter
      have hcs : trimStart cs ≠ [] := by
        intro hnil
        have hall := List.dropWhile_eq_nil_iff.1 hnil
        rcases List.eq_nil_or_concat cs with rfl | ⟨ds, d, rfl⟩
        · exact absurd hc (by simp [hend c (by simp)])
        · exact absurd (hall d (by simp)) (by simp [hlast d (by simp)])
      rw [List.cons_append, splitDisjuncts_blank hc, afterLoneV?_append hc h _ hcs]
      simp only [hstep, consFirst]

/-- **A text without a lone letter `v` is a single disjunct.** -/
theorem splitDisjuncts_single {cs : List Char} (h : NoLoneV cs) : splitDisjuncts cs = [cs] := by
  induction cs with
  | nil => rw [splitDisjuncts]
  | cons c cs ih =>
    have hstep := ih (h.of_isInfix (List.suffix_cons c _).isInfix)
    cases hc : isBlank c with
    | false => rw [splitDisjuncts_cons hc, hstep, consFirst]
    | true =>
      have hnone : afterLoneV? (trimStart cs) = none := by
        cases hstart : trimStart cs with
        | nil => rfl
        | cons d t =>
          obtain ⟨b, hb, hsuffix⟩ := trimStart_after_blank hc hstart (by simp)
          cases t with
          | nil => simp [afterLoneV?]
          | cons e u =>
            refine afterLoneV?_eq_none fun hd => Bool.eq_false_iff.2 fun he => h b e hb he ?_
            rw [← hd]
            exact (List.prefix_append [b, d, e] u).isInfix.trans hsuffix.isInfix
      rw [splitDisjuncts_blank hc, hnone]
      simp only [hstep, consFirst]

theorem afterLoneV?_suffix {cs after : List Char} (h : afterLoneV? cs = some after) :
    after <:+ cs := by
  unfold afterLoneV? at h
  split at h
  · next c cs =>
    split at h
    · cases h
      exact (trimStart_suffix cs).trans ((List.suffix_cons c cs).trans (List.suffix_cons 'v' _))
    · exact absurd h (by simp)
  · exact absurd h (by simp)

/-- What is known of the disjuncts of a text: the first one starts it, and each is a piece of it
without a lone letter `v`. -/
structure AreDisjuncts (cs : List Char) (parts : List (List Char)) : Prop where
  /-- There is a first one, and it starts the text. -/
  first : ∃ s others, parts = s :: others ∧ s <+: cs
  /-- Each of them is a piece of the text. -/
  isInfix : ∀ s ∈ parts, s <:+: cs
  /-- None of them has a lone letter `v`. -/
  noLoneV : ∀ s ∈ parts, NoLoneV s

/-- A character at which no cut starts goes to the first disjunct. -/
theorem AreDisjuncts.consFirst {c : Char} {cs : List Char} {parts : List (List Char)}
    (h : AreDisjuncts cs parts)
    (hc : ∀ e t, cs = 'v' :: e :: t → isBlank c = true → isBlank e = false) :
    AreDisjuncts (c :: cs) (consFirst c parts) := by
  obtain ⟨first, others, rfl, hprefix⟩ := h.first
  have hprefix' : c :: first <+: c :: cs := List.cons_prefix_cons.2 ⟨rfl, hprefix⟩
  refine ⟨⟨c :: first, others, rfl, hprefix'⟩, fun s hs => ?_, fun s hs => ?_⟩
  · rcases List.mem_cons.1 hs with rfl | hs
    · exact hprefix'.isInfix
    · exact (h.isInfix s (by simp [hs])).trans (List.suffix_cons c cs).isInfix
  · rcases List.mem_cons.1 hs with rfl | hs
    · refine (h.noLoneV first (by simp)).cons fun e t heq => ?_
      obtain ⟨u, hu⟩ := hprefix
      exact hc e (t ++ u) (by rw [← hu, heq]; rfl)
    · exact h.noLoneV s (by simp [hs])

/-- **Every disjunct of a text is a piece of it without a lone letter `v`.** -/
theorem areDisjuncts_splitDisjuncts (cs : List Char) : AreDisjuncts cs (splitDisjuncts cs) := by
  induction cs using splitDisjuncts.induct with
  | case1 =>
    rw [splitDisjuncts]
    refine ⟨⟨[], [], rfl, List.prefix_rfl⟩, fun s hs => ?_, fun s hs => ?_⟩
    · exact List.mem_singleton.1 hs ▸ List.infix_rfl
    · exact List.mem_singleton.1 hs ▸ noLoneV_of_length (by simp)
  | case2 c rest hc after hafter _ ih =>
    -- a cut: what follows it is cut further
    have hsuffix : after <:+ c :: rest := by
      refine (afterLoneV?_suffix hafter).trans ?_
      exact (trimStart_suffix rest).trans (List.suffix_cons c rest)
    rw [splitDisjuncts_blank hc, hafter]
    refine ⟨⟨[], _, rfl, List.nil_prefix⟩, fun s hs => ?_, fun s hs => ?_⟩
    · rcases List.mem_cons.1 hs with rfl | hs
      · exact List.nil_infix
      · exact (ih.isInfix s hs).trans hsuffix.isInfix
    · rcases List.mem_cons.1 hs with rfl | hs
      · exact noLoneV_of_length (by simp)
      · exact ih.noLoneV s hs
  | case3 c rest hc hafter ih =>
    -- no letter `v` with a blank behind it follows the blank
    rw [splitDisjuncts_blank hc, hafter]
    refine ih.consFirst fun e t heq _ => Bool.eq_false_iff.2 fun he => ?_
    rw [heq, trimStart_cons, if_neg (by decide)] at hafter
    simp [afterLoneV?, he] at hafter
  | case4 c rest hc ih =>
    have hc : isBlank c = false := Bool.not_eq_true _ ▸ hc
    rw [splitDisjuncts_cons hc]
    exact ih.consFirst fun _ _ _ h => absurd h (by simp [hc])

/-! ### Pieces between a character -/

theorem splitAtChar_of_notMem {sep : Char} {cs : List Char} (h : sep ∉ cs) :
    splitAtChar sep cs = [cs] := by
  induction cs with
  | nil => rfl
  | cons c cs ih =>
    have ⟨hc, hcs⟩ := not_or.1 (mt List.mem_cons.2 h)
    rw [splitAtChar, if_neg (Ne.symm hc), ih hcs]

theorem splitAtChar_append {sep : Char} {cs : List Char} (h : sep ∉ cs) (rest : List Char) :
    splitAtChar sep (cs ++ sep :: rest) = cs :: splitAtChar sep rest := by
  induction cs with
  | nil => rw [List.nil_append, splitAtChar, if_pos rfl]
  | cons c cs ih =>
    have ⟨hc, hcs⟩ := not_or.1 (mt List.mem_cons.2 h)
    rw [List.cons_append, splitAtChar, if_neg (Ne.symm hc), ih hcs]

/-- **Lines without a character are the pieces of what the character joins.** -/
theorem pieces_intercalate {sep : Char} {ps : List String} (hps : ps ≠ [])
    (h : ∀ p ∈ ps, sep ∉ p.toList) : pieces sep ((String.singleton sep).intercalate ps) = ps := by
  induction ps with
  | nil => exact absurd rfl hps
  | cons p ps ih =>
    have ⟨hp, hrest⟩ := List.forall_mem_cons.1 h
    cases ps with
    | nil => rw [String.intercalate_singleton, pieces, splitAtChar_of_notMem hp]; simp
    | cons q qs =>
      have ih := ih (by simp) hrest
      rw [pieces] at ih
      rw [String.intercalate_cons_cons, pieces, String.toList_append, String.toList_append,
        String.toList_singleton, List.append_assoc, List.singleton_append,
        splitAtChar_append hp, List.map_cons, ih, String.ofList_toList]

theorem splitAtChar_ne_nil (sep : Char) (cs : List Char) : splitAtChar sep cs ≠ [] := by
  cases cs with
  | nil => simp [splitAtChar]
  | cons c cs =>
    rw [splitAtChar]
    split
    · simp
    · split <;> simp

/-- A text is cut at a character wherever it stands, and the parts are cut further. -/
theorem splitAtChar_append_cons (sep : Char) (cs rest : List Char) :
    splitAtChar sep (cs ++ sep :: rest) = splitAtChar sep cs ++ splitAtChar sep rest := by
  induction cs with
  | nil => simp [splitAtChar]
  | cons c cs ih =>
    rw [List.cons_append, splitAtChar, splitAtChar, ih]
    split
    · rfl
    · obtain ⟨piece, more, h⟩ := List.exists_cons_of_ne_nil (splitAtChar_ne_nil sep cs)
      simp [h]

/-- **The pieces of what a character joins are those of its parts.** -/
theorem pieces_intercalate_flatMap {sep : Char} {ps : List String} (hps : ps ≠ []) :
    pieces sep ((String.singleton sep).intercalate ps) = ps.flatMap (pieces sep) := by
  induction ps with
  | nil => exact absurd rfl hps
  | cons p ps ih =>
    cases ps with
    | nil => simp
    | cons q qs =>
      rw [String.intercalate_cons_cons, pieces, String.toList_append, String.toList_append,
        String.toList_singleton, List.append_assoc, List.singleton_append,
        splitAtChar_append_cons, List.map_append, List.flatMap_cons, ← ih (by simp)]
      rfl

theorem notMem_of_mem_splitAtChar {sep : Char} {cs piece : List Char}
    (h : piece ∈ splitAtChar sep cs) : sep ∉ piece := by
  induction cs generalizing piece with
  | nil =>
    rw [splitAtChar, List.mem_singleton] at h
    simp [h]
  | cons c cs ih =>
    rw [splitAtChar] at h
    split at h
    · rcases List.mem_cons.1 h with rfl | h
      · simp
      · exact ih h
    · next hc =>
      obtain ⟨first, more, hsplit⟩ := List.exists_cons_of_ne_nil (splitAtChar_ne_nil sep cs)
      rw [hsplit] at h ih
      rcases List.mem_cons.1 h with rfl | h
      · exact List.not_mem_cons_of_ne_of_not_mem (Ne.symm hc) (ih (by simp))
      · exact ih (List.mem_cons_of_mem _ h)

end FactNet.Text
