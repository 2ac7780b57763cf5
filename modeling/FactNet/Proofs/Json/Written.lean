import FactNet.Json.Writer
import FactNet.Proofs.Json.Limits
import FactNet.Proofs.Json.Number

/-!
# Values that are written and read

A written value is read as it was, but for the numbers that JSON cannot write: nothing stands in
their place.

The text of a value is read after any blanks and before anything that does not go on with a number.
Each bracket uses up one step of depth, and each character pays for the two calls that read it.

## Main definitions

* `Json.kept` — what of a value is kept when it is written.
* `ReadsBack` — the text of a value is read as what is kept of it.

## Main results

* `readText?_escapeChar` — **a text in quotes is read as it was.**
* `readsBack` — every value within the limits is read back wherever its text stands.
* `read?_indented` — **a written value within the limits is read as what is kept of it.**
* `read?_indented_of_read?` — **what has been read is read again once it is written.**
-/

namespace FactNet.Json

open FactNet.Decimal FactNet.Text

/-! ### What is kept -/

mutual

/-- What of a value is kept when it is written: nothing stands for numbers that are not finite. -/
def kept : Json → Json
  | .null => .null
  | .bool b => .bool b
  | .int n => .int n
  | .number x => if x.isFinite then .number x else .null
  | .text s => .text s
  | .list items => .list (keptItems items)
  | .object members => .object (keptMembers members)

/-- What is kept of the items of a list. -/
def keptItems : List Json → List Json
  | [] => []
  | v :: vs => kept v :: keptItems vs

/-- What is kept of the members of an object. -/
def keptMembers : List (String × Json) → List (String × Json)
  | [] => []
  | (name, v) :: ms => (name, kept v) :: keptMembers ms

end

/-! ### Texts -/

theorem hexValue?_hexDigit : ∀ d, d < 16 → hexValue? (hexDigit d) = some d := by decide

/-- Four hexadecimal digits stand for the number they are made of. -/
theorem unit?_hexDigit {n : Nat} (hn : n < 0x10000) :
    unit? (hexDigit (n / 16 / 16 / 16 % 16)) (hexDigit (n / 16 / 16 % 16))
      (hexDigit (n / 16 % 16)) (hexDigit (n % 16)) = some n := by
  have hvalue (k : Nat) : hexValue? (hexDigit (k % 16)) = some (k % 16) :=
    hexValue?_hexDigit _ (Nat.mod_lt _ (by decide))
  rw [unit?, hvalue, hvalue, hvalue, hvalue]
  dsimp only
  rw [Option.some.injEq]
  omega

/-- A character between quotes is read as it was. -/
theorem readChars?_escapeChar (c : Char) (acc rest : List Char) :
    readChars? acc (escapeChar c ++ rest) = readChars? (c :: acc) rest := by
  unfold escapeChar
  split
  · rfl
  · rfl
  · rfl
  · rfl
  · rfl
  · next hquote hslash _ _ _ =>
    split
    · next hsmall =>
      -- a control character is written by its number, which is no half of a pair
      have hhigh : isHighHalf c.toNat = false := by simp [isHighHalf]; omega
      have hlow : isLowHalf c.toNat = false := by simp [isLowHalf]; omega
      show readChars? acc ('\\' :: 'u' :: hexDigit _ :: hexDigit _ :: hexDigit _ :: hexDigit _ ::
        rest) = _
      rw [readChars?, unit?_hexDigit (by omega)]
      dsimp only
      rw [hhigh, hlow, Char.ofNat_toNat]
      rfl
    · next hlarge =>
      rw [List.singleton_append, readChars?.eq_def]
      split
      · next heq =>
        rw [List.cons.injEq] at heq
        exact absurd heq.1 hquote
      · next heq =>
        rw [List.cons.injEq] at heq
        exact absurd heq.1 hslash
      · next heq =>
        rw [List.cons.injEq] at heq
        exact absurd heq.1 hslash
      · next heq =>
        obtain ⟨rfl, rfl⟩ := List.cons.inj heq
        rw [if_neg hlarge]
      · next heq => cases heq

theorem readChars?_flatMap_escapeChar (cs acc rest : List Char) :
    readChars? acc (cs.flatMap escapeChar ++ '"' :: rest) = some (cs.reverse ++ acc, rest) := by
  induction cs generalizing acc with
  | nil => rfl
  | cons c cs ih =>
    rw [List.flatMap_cons, List.append_assoc, readChars?_escapeChar, ih, List.reverse_cons,
      List.append_assoc, List.singleton_append]

/-- **A text in quotes is read as it was.** -/
theorem readText?_escapeChar (s : String) (rest : List Char) :
    readText? (s.toList.flatMap escapeChar ++ '"' :: rest) = some (s, rest) := by
  rw [readText?, readChars?_flatMap_escapeChar, Option.map_some]
  dsimp only
  rw [List.append_nil, List.reverse_reverse, String.ofList_toList]

theorem toList_quoted (s : String) (rest : List Char) :
    (quoted s).toList ++ rest = '"' :: (s.toList.flatMap escapeChar ++ '"' :: rest) := by
  rw [quoted, String.toList_ofList, List.cons_append, List.cons_append, List.append_assoc,
    List.singleton_append]

/-! ### Blanks -/

/-- The characters that blanks are made of, and those that end a list or an object. -/
def stops : List Char := [' ', '\t', '\n', '\r', ']', '\x7d']

variable {c : Char} {cs tail rest : List Char}

/-- A text begins with something that blanks are skipped up to and that ends no brackets. -/
def Starts (cs : List Char) : Prop := ∃ c tail, cs = c :: tail ∧ c ∉ stops

theorem Starts.skipSpace_append (h : Starts cs) (rest : List Char) :
    skipSpace (cs ++ rest) = cs ++ rest := by
  obtain ⟨c, tail, rfl, hc⟩ := h
  refine List.dropWhile_cons_of_neg fun h => hc ?_
  simp only [Bool.or_eq_true, beq_iff_eq] at h
  simp only [stops, List.mem_cons]
  tauto

theorem toList_lineStart (indent : Nat) :
    (lineStart indent).toList = '\n' :: List.replicate (2 * indent) ' ' := by
  rw [lineStart, String.toList_append, String.toList_ofList (l := List.replicate _ _)]
  rfl

/-- The start of a line is nothing but blanks. -/
theorem skipSpace_lineStart (indent : Nat) (cs : List Char) :
    skipSpace ((lineStart indent).toList ++ cs) = skipSpace cs := by
  refine List.dropWhile_append_of_pos fun c hc => ?_
  rw [toList_lineStart, List.mem_cons] at hc
  rcases hc with rfl | hc
  · rfl
  · rw [List.eq_of_mem_replicate hc]
    rfl

theorem endsNumber_comma (cs : List Char) : EndsNumber (',' :: cs) :=
  ⟨endsDigits_cons (by decide), by simp, by simp⟩

theorem endsNumber_lineStart (indent : Nat) (cs : List Char) :
    EndsNumber ((lineStart indent).toList ++ cs) := by
  rw [toList_lineStart]
  exact ⟨endsDigits_cons (by decide), by simp, by simp⟩

theorem endsNumber_nil : EndsNumber [] := ⟨by simp [EndsDigits], by simp, by simp⟩

/-! ### Single values -/

/-- The text of a value, which blanks may stand before, is read as what is kept of it. -/
structure ReadsBack (indent depth : Nat) (v : Json) : Prop where
  start : Starts (indented indent v).toList
  read {fuel : Nat} {cs rest : List Char} (hcs : skipSpace cs = (indented indent v).toList ++ rest)
    (hrest : EndsNumber rest) (hfuel : 2 * (indented indent v).toList.length ≤ fuel) :
    readValue? fuel depth cs = some (kept v, rest)

variable {fuel depth indent : Nat} {v : Json}

/-- A text that is not empty leaves fuel for what is read after its first character. -/
theorem readsBack_of_cons (htext : (indented indent v).toList = c :: tail) (hc : c ∉ stops)
    (h : ∀ fuel cs rest, skipSpace cs = c :: (tail ++ rest) → EndsNumber rest →
      2 * tail.length < fuel → readValue? (fuel + 1) depth cs = some (kept v, rest)) :
    ReadsBack indent depth v := by
  refine ⟨⟨c, tail, htext, hc⟩, fun {fuel cs rest} hcs hrest hfuel => ?_⟩
  rw [htext, List.cons_append] at hcs
  rw [htext, List.length_cons] at hfuel
  obtain ⟨fuel, rfl⟩ : ∃ k, fuel = k + 1 := ⟨fuel - 1, by omega⟩
  exact h fuel cs rest hcs hrest (by omega)

/-- A value that is neither a text nor in brackets is a word or a number. -/
theorem readValue?_single (hcs : skipSpace cs = c :: tail) (hc : c ∉ ['"', '[', '\x7b']) :
    readValue? (fuel + 1) depth cs = (readWord? (c :: tail) <|> readNumber? (c :: tail)) := by
  rw [List.mem_cons, List.mem_cons, List.mem_singleton, not_or, not_or] at hc
  rw [readValue?.eq_def]
  dsimp only
  rw [hcs]
  split
  · next heq => exact absurd (List.cons.inj heq).1 hc.1
  · next heq => exact absurd (List.cons.inj heq).1 hc.2.1
  · next heq => exact absurd (List.cons.inj heq).1 hc.2.2
  · next heq => exact absurd (List.cons.inj heq).1 hc.2.1
  · next heq => exact absurd (List.cons.inj heq).1 hc.2.2
  · rfl

/-- A word is read wherever its text stands. -/
theorem readsBack_of_readWord? (htext : (indented indent v).toList = c :: tail)
    (hc : c ∉ stops) (hsingle : c ∉ ['"', '[', '\x7b'])
    (h : ∀ rest, readWord? (c :: (tail ++ rest)) = some (kept v, rest)) :
    ReadsBack indent depth v := by
  refine readsBack_of_cons htext hc fun fuel cs rest hcs _ _ => ?_
  rw [readValue?_single hcs hsingle, h]
  rfl

/-- A number is read wherever its text stands. -/
theorem readsBack_of_spells (h : Spells (indented indent v).toList (kept v)) :
    ReadsBack indent depth v := by
  obtain ⟨⟨c, tail, htext, hstart⟩, hread⟩ := h
  have hne (d : Char) (hd : (d.isDigit || d == '-') = false) : c ≠ d := by
    rintro rfl
    simp only [Bool.or_eq_false_iff, beq_eq_false_iff_ne] at hd
    rcases hstart with hdigit | hminus
    · simp [hd.1] at hdigit
    · exact hd.2 hminus
  have hall (ds : List Char) (hds : ds.all (fun d => !(d.isDigit || d == '-')) = true) : c ∉ ds := by
    intro hmem
    have hd := List.all_eq_true.1 hds c hmem
    rw [Bool.not_eq_true'] at hd
    exact hne c hd rfl
  refine readsBack_of_cons htext (hall stops (by decide)) fun fuel cs rest hcs hrest _ => ?_
  have hnumber := hread rest hrest
  rw [htext, List.cons_append] at hnumber
  have hword : readWord? (c :: (tail ++ rest)) = none := by
    rw [readWord?, dropPrefix?_of_ne (hne 'n' (by decide)).symm,
      dropPrefix?_of_ne (hne 't' (by decide)).symm, dropPrefix?_of_ne (hne 'f' (by decide)).symm]
    rfl
  rw [readValue?_single hcs (hall _ (by decide)), hword, hnumber]
  rfl

theorem readsBack_null : ReadsBack indent depth .null := by
  have htext : (indented indent .null).toList = ['n', 'u', 'l', 'l'] := by rw [indented]; rfl
  refine readsBack_of_readWord? htext (by decide) (by decide) fun rest => ?_
  rw [kept]
  rfl

theorem readsBack_bool (b : Bool) : ReadsBack indent depth (.bool b) := by
  cases b with
  | true =>
    have htext : (indented indent (.bool true)).toList = ['t', 'r', 'u', 'e'] := by
      rw [indented]; rfl
    refine readsBack_of_readWord? htext (by decide) (by decide) fun rest => ?_
    rw [kept]
    rfl
  | false =>
    have htext : (indented indent (.bool false)).toList = ['f', 'a', 'l', 's', 'e'] := by
      rw [indented]; rfl
    refine readsBack_of_readWord? htext (by decide) (by decide) fun rest => ?_
    rw [kept]
    rfl

theorem readsBack_int {n : ℤ} (hn : n.natAbs < 10 ^ mostDigits) :
    ReadsBack indent depth (.int n) := by
  refine readsBack_of_spells ?_
  rw [indented, kept]
  exact spells_toString hn

/-- A double is read as it was if it is finite, and as nothing if not. -/
theorem readsBack_number (x : Float) : ReadsBack indent depth (.number x) := by
  by_cases hx : x.isFinite = true
  · refine readsBack_of_spells ?_
    rw [indented, kept, numberText, if_pos hx, if_pos hx]
    exact spells_shortestText hx
  · have hsame : indented indent (.number x) = indented indent .null := by
      rw [indented, indented, numberText, if_neg hx]
    have hkept : kept (.number x) = kept .null := by rw [kept, kept, if_neg hx]
    obtain ⟨hstart, hread⟩ : ReadsBack indent depth .null := readsBack_null
    refine ⟨hsame ▸ hstart, ?_⟩
    rw [hsame, hkept]
    exact hread

theorem readsBack_text (s : String) : ReadsBack indent depth (.text s) := by
  have htext : (indented indent (.text s)).toList =
      '"' :: (s.toList.flatMap escapeChar ++ ['"']) := by
    rw [indented, ← List.append_nil (quoted s).toList, toList_quoted]
  refine readsBack_of_cons htext (by decide) fun fuel cs rest hcs _ _ => ?_
  rw [List.append_assoc, List.singleton_append] at hcs
  rw [readValue?.eq_def]
  dsimp only
  rw [hcs, kept]
  show (readText? _).map _ = _
  rw [readText?_escapeChar]
  rfl

/-! ### Values in brackets -/

theorem indentedItems_eq (indent : Nat) (vs : List Json) :
    indentedItems indent vs = vs.map (indented indent) := by
  induction vs with
  | nil => rw [indentedItems]; rfl
  | cons v vs ih => rw [indentedItems, ih]; rfl

theorem indentedMembers_eq (indent : Nat) (ms : List (String × Json)) :
    indentedMembers indent ms = ms.map fun m => quoted m.1 ++ ": " ++ indented indent m.2 := by
  induction ms with
  | nil => rw [indentedMembers]; rfl
  | cons m ms ih => rw [indentedMembers, ih]; rfl

theorem keptItems_eq (vs : List Json) : keptItems vs = vs.map kept := by
  induction vs with
  | nil => rw [keptItems]; rfl
  | cons v vs ih => rw [keptItems, ih]; rfl

/-- Pieces with a comma and the start of a line between them. -/
def joined (indent : Nat) (pieces : List String) : List Char :=
  (("," ++ lineStart indent).intercalate pieces).toList

theorem joined_singleton (indent : Nat) (p : String) : joined indent [p] = p.toList := by
  rw [joined, String.toList_intercalate]
  simp

theorem joined_cons (indent : Nat) (p : String) {ps : List String} (hne : ps ≠ []) :
    joined indent (p :: ps) = p.toList ++ ',' :: ((lineStart indent).toList ++ joined indent ps) := by
  obtain ⟨q, ps, rfl⟩ := List.exists_cons_of_ne_nil hne
  rw [joined, String.intercalate_cons_cons, String.toList_append, String.toList_append,
    String.toList_append, List.append_assoc, List.append_assoc]
  rfl

theorem toList_block (opening closing : String) (indent : Nat) {pieces : List String}
    (hne : pieces ≠ []) : (block opening closing indent pieces).toList =
      opening.toList ++ ((lineStart (indent + 1)).toList ++
        (joined (indent + 1) pieces ++ ((lineStart indent).toList ++ closing.toList))) := by
  rw [block, if_neg (by simpa using hne)]
  dsimp only
  rw [String.toList_append, String.toList_append, String.toList_append, String.toList_append,
    List.append_assoc, List.append_assoc, List.append_assoc]
  rfl

theorem toList_block_nil (opening closing : String) (indent : Nat) :
    (block opening closing indent []).toList = opening.toList ++ closing.toList := by
  rw [block, if_pos List.isEmpty_nil, String.toList_append]

/-- Pieces begin as the first of them does. -/
theorem starts_joined {pieces : List String} (hne : pieces ≠ [])
    (h : ∀ p ∈ pieces, Starts p.toList) : Starts (joined indent pieces) := by
  obtain ⟨p, ps, rfl⟩ := List.exists_cons_of_ne_nil hne
  obtain ⟨c, tail, hp, hc⟩ := h p List.mem_cons_self
  cases ps with
  | nil => exact ⟨c, tail, (joined_singleton indent p).trans hp, hc⟩
  | cons q ps => exact ⟨c, _, by rw [joined_cons indent p (by simp), hp, List.cons_append], hc⟩

section Block

variable {opening closing : String} {pieces : List String} {d : Char}
  (hopening : opening.toList = [c]) (hclosing : closing.toList = [d]) (hc : c ∉ stops)
include hopening hclosing hc

/-- Brackets with nothing in them are read wherever they stand. -/
theorem readsBack_of_block_nil (htext : indented indent v = block opening closing indent [])
    (h : ∀ fuel cs rest, skipSpace cs = c :: d :: rest →
      readValue? (fuel + 1) depth cs = some (kept v, rest)) : ReadsBack indent depth v := by
  have hchars : (indented indent v).toList = [c, d] := by
    rw [htext, toList_block_nil, hopening, hclosing, List.singleton_append]
  exact readsBack_of_cons hchars hc fun fuel cs rest hcs _ _ => h fuel cs rest hcs

/-- Brackets with pieces in them are read wherever they stand. -/
theorem readsBack_of_block (htext : indented indent v = block opening closing indent pieces)
    (hne : pieces ≠ []) (hstarts : Starts (joined (indent + 1) pieces))
    (h : ∀ fuel cs tail rest, skipSpace cs = c :: tail →
      skipSpace tail = joined (indent + 1) pieces ++ ((lineStart indent).toList ++ d :: rest) →
      2 * (joined (indent + 1) pieces).length < fuel →
      readValue? (fuel + 1) depth cs = some (kept v, rest)) : ReadsBack indent depth v := by
  have hchars : (indented indent v).toList = c :: ((lineStart (indent + 1)).toList ++
      (joined (indent + 1) pieces ++ ((lineStart indent).toList ++ [d]))) := by
    rw [htext, toList_block _ _ _ hne, hopening, hclosing, List.singleton_append]
  refine readsBack_of_cons hchars hc fun fuel cs rest hcs _ hfuel => ?_
  rw [List.append_assoc, List.append_assoc, List.append_assoc, List.singleton_append] at hcs
  rw [List.length_append, List.length_append] at hfuel
  exact h fuel cs _ rest hcs ((skipSpace_lineStart _ _).trans (hstarts.skipSpace_append _))
    (by omega)

end Block

/-! ### Lists -/

theorem indentedItems_ne_nil {vs : List Json} (h : vs ≠ []) : indentedItems indent vs ≠ [] := by
  rw [indentedItems_eq]
  simpa using h

theorem starts_indentedItems {vs : List Json} (hne : vs ≠ [])
    (h : ∀ v ∈ vs, ReadsBack indent depth v) :
    Starts (joined indent (indentedItems indent vs)) := by
  refine starts_joined (indentedItems_ne_nil hne) ?_
  rw [indentedItems_eq]
  intro p hp
  obtain ⟨v, hv, rfl⟩ := List.mem_map.1 hp
  exact (h v hv).start

/-- A list whose bracket is not closed at once has items. -/
theorem readValue?_list {text : List Char} (hcs : skipSpace cs = '[' :: tail)
    (htail : skipSpace tail = text ++ rest) (h : Starts text) :
    readValue? (fuel + 1) (depth + 1) cs =
      (readItems? fuel depth (text ++ rest)).map fun r => (.list r.1, r.2) := by
  obtain ⟨c, inner, rfl, hc⟩ := h
  rw [readValue?.eq_def]
  dsimp only
  rw [hcs]
  split
  · next heq => exact absurd (List.cons.inj heq).1 (by decide)
  · next hdepth => cases hdepth
  · next hdepth => cases hdepth
  · next heq hdepth =>
    cases heq
    cases hdepth
    rw [htail]
    split
    · next heq => exact absurd (List.cons.inj heq).1 fun h => hc (by simp [h, stops])
    · rfl
  · next heq _ => exact absurd (List.cons.inj heq).1 (by decide)
  · next hlist _ => exact (hlist _ _ rfl rfl).elim

/-- The items of a list are read up to the bracket that ends it. -/
theorem readItems?_joined {vs : List Json} (hne : vs ≠ [])
    (h : ∀ v ∈ vs, ReadsBack (indent + 1) depth v) {fuel : Nat} {cs rest : List Char}
    (hcs : skipSpace cs = joined (indent + 1) (indentedItems (indent + 1) vs) ++
      ((lineStart indent).toList ++ ']' :: rest))
    (hfuel : 2 * (joined (indent + 1) (indentedItems (indent + 1) vs)).length < fuel) :
    readItems? fuel depth cs = some (keptItems vs, rest) := by
  induction vs generalizing fuel cs with
  | nil => exact absurd rfl hne
  | cons v vs ih =>
    have hv := h v List.mem_cons_self
    obtain ⟨fuel, rfl⟩ : ∃ k, fuel = k + 1 := ⟨fuel - 1, by omega⟩
    rw [readItems?.eq_def]
    dsimp only
    cases vs with
    | nil =>
      rw [indentedItems, indentedItems, joined_singleton] at hcs hfuel
      rw [hv.read hcs (endsNumber_lineStart _ _) (by omega)]
      dsimp only
      rw [skipSpace_lineStart, keptItems, keptItems]
      rfl
    | cons w vs =>
      have hvs (u : Json) (hu : u ∈ w :: vs) := h u (List.mem_cons_of_mem v hu)
      have hstarts := starts_indentedItems (List.cons_ne_nil w vs) hvs
      rw [indentedItems.eq_2, joined_cons _ _ (indentedItems_ne_nil (List.cons_ne_nil w vs))]
        at hcs hfuel
      rw [List.append_assoc, List.cons_append, List.append_assoc] at hcs
      rw [List.length_append, List.length_cons, List.length_append] at hfuel
      rw [hv.read hcs (endsNumber_comma _) (by omega)]
      show (readItems? _ _ _).map _ = _
      rw [ih (List.cons_ne_nil w vs) hvs
        ((skipSpace_lineStart _ _).trans (hstarts.skipSpace_append _)) (by omega), keptItems.eq_2 v]
      rfl

/-- A list is read wherever its text stands. -/
theorem readsBack_list {vs : List Json} (h : ∀ v ∈ vs, ReadsBack (indent + 1) depth v) :
    ReadsBack indent (depth + 1) (.list vs) := by
  have htext : indented indent (.list vs) = block "[" "]" indent (indentedItems (indent + 1) vs) := by
    rw [indented]
  rcases eq_or_ne vs [] with rfl | hne
  · rw [indentedItems] at htext
    refine readsBack_of_block_nil (c := '[') (d := ']') rfl rfl (by decide) htext
      fun fuel cs rest hcs => ?_
    rw [readValue?.eq_def]
    dsimp only
    rw [hcs, kept, keptItems]
    rfl
  · have hstarts := starts_indentedItems hne h
    refine readsBack_of_block (c := '[') (d := ']') rfl rfl (by decide) htext
      (indentedItems_ne_nil hne) hstarts fun fuel cs tail rest hcs htail hfuel => ?_
    rw [readValue?_list hcs htail hstarts,
      readItems?_joined hne h (hstarts.skipSpace_append _) hfuel, kept]
    rfl

/-! ### Objects -/

theorem indentedMembers_ne_nil {ms : List (String × Json)} (h : ms ≠ []) :
    indentedMembers indent ms ≠ [] := by
  rw [indentedMembers_eq]
  simpa using h

theorem starts_indentedMembers (indent : Nat) {ms : List (String × Json)} (hne : ms ≠ []) :
    Starts (joined indent (indentedMembers indent ms)) := by
  refine starts_joined (indentedMembers_ne_nil hne) ?_
  rw [indentedMembers_eq]
  intro p hp
  obtain ⟨m, hm, rfl⟩ := List.mem_map.1 hp
  rw [String.toList_append, String.toList_append, List.append_assoc, toList_quoted]
  exact ⟨'"', _, rfl, by decide⟩

/-- An object whose brace is not closed at once has members. -/
theorem readValue?_object {text : List Char} (hcs : skipSpace cs = '\x7b' :: tail)
    (htail : skipSpace tail = text ++ rest) (h : Starts text) :
    readValue? (fuel + 1) (depth + 1) cs =
      (readMembers? fuel depth (text ++ rest)).map fun r => (.object r.1, r.2) := by
  obtain ⟨c, inner, rfl, hc⟩ := h
  rw [readValue?.eq_def]
  dsimp only
  rw [hcs]
  split
  · next heq => exact absurd (List.cons.inj heq).1 (by decide)
  · next hdepth => cases hdepth
  · next hdepth => cases hdepth
  · next heq _ => exact absurd (List.cons.inj heq).1 (by decide)
  · next heq hdepth =>
    cases heq
    cases hdepth
    rw [htail]
    split
    · next heq => exact absurd (List.cons.inj heq).1 fun h => hc (by simp [h, stops])
    · rfl
  · next hobject => exact (hobject _ _ rfl rfl).elim

/-- A member is its name, a colon and its value. -/
theorem toList_member (indent : Nat) (name : String) (v : Json) (rest : List Char) :
    (quoted name ++ ": " ++ indented indent v).toList ++ rest =
      '"' :: (name.toList.flatMap escapeChar ++
        '"' :: ':' :: ' ' :: ((indented indent v).toList ++ rest)) := by
  rw [String.toList_append, String.toList_append, List.append_assoc, List.append_assoc,
    toList_quoted]
  rfl

section Member

variable {name : String} {rest' : List Char}
  (hcs : skipSpace cs = '"' :: (name.toList.flatMap escapeChar ++ '"' :: ':' :: tail))
  (hvalue : readValue? fuel depth tail = some (v, rest))
include hcs hvalue

/-- After the last member comes a brace. -/
theorem readMembers?_brace (hrest : skipSpace rest = '\x7d' :: rest') :
    readMembers? (fuel + 1) depth cs = some ([(name, v)], rest') := by
  have hcolon : skipSpace (':' :: tail) = ':' :: tail := rfl
  rw [readMembers?.eq_def]
  dsimp only
  rw [hcs]
  simp only [readText?_escapeChar, hcolon, hvalue, hrest]

/-- After any other member comes a comma. -/
theorem readMembers?_comma (hrest : skipSpace rest = ',' :: rest') :
    readMembers? (fuel + 1) depth cs =
      (readMembers? fuel depth rest').map fun r => ((name, v) :: r.1, r.2) := by
  have hcolon : skipSpace (':' :: tail) = ':' :: tail := rfl
  rw [readMembers?.eq_def]
  dsimp only
  rw [hcs]
  simp only [readText?_escapeChar, hcolon, hvalue, hrest]

end Member

/-- The members of an object are read up to the brace that ends it. -/
theorem readMembers?_joined {ms : List (String × Json)} (hne : ms ≠ [])
    (h : ∀ m ∈ ms, ReadsBack (indent + 1) depth m.2) {fuel : Nat} {cs rest : List Char}
    (hcs : skipSpace cs = joined (indent + 1) (indentedMembers (indent + 1) ms) ++
      ((lineStart indent).toList ++ '\x7d' :: rest))
    (hfuel : 2 * (joined (indent + 1) (indentedMembers (indent + 1) ms)).length < fuel) :
    readMembers? fuel depth cs = some (keptMembers ms, rest) := by
  induction ms generalizing fuel cs with
  | nil => exact absurd rfl hne
  | cons m ms ih =>
    obtain ⟨name, v⟩ := m
    have hv : ReadsBack (indent + 1) depth v := h _ List.mem_cons_self
    have hlength : (indented (indent + 1) v).toList.length ≤
        (quoted name ++ ": " ++ indented (indent + 1) v).toList.length := by
      rw [String.toList_append, List.length_append]
      exact Nat.le_add_left _ _
    obtain ⟨fuel, rfl⟩ : ∃ k, fuel = k + 1 := ⟨fuel - 1, by omega⟩
    -- a blank stands between the colon and the value
    have hvalue (hle : 2 * (indented (indent + 1) v).toList.length ≤ fuel) {rest : List Char}
        (hrest : EndsNumber rest) : readValue? fuel depth
          (' ' :: ((indented (indent + 1) v).toList ++ rest)) = some (kept v, rest) :=
      hv.read (hv.start.skipSpace_append rest) hrest hle
    cases ms with
    | nil =>
      rw [indentedMembers, indentedMembers, joined_singleton] at hcs hfuel
      rw [toList_member] at hcs
      have hbrace : skipSpace ((lineStart indent).toList ++ '\x7d' :: rest) = '\x7d' :: rest :=
        skipSpace_lineStart _ _
      rw [readMembers?_brace hcs (hvalue (by omega) (endsNumber_lineStart _ _)) hbrace, keptMembers,
        keptMembers]
    | cons w ms =>
      have hstarts := starts_indentedMembers (indent + 1) (List.cons_ne_nil w ms)
      rw [indentedMembers.eq_2, joined_cons _ _ (indentedMembers_ne_nil (List.cons_ne_nil w ms))]
        at hcs hfuel
      rw [List.append_assoc, List.cons_append, List.append_assoc, toList_member] at hcs
      rw [List.length_append, List.length_cons, List.length_append] at hfuel
      rw [readMembers?_comma hcs (hvalue (by omega) (endsNumber_comma _)) rfl,
        ih (List.cons_ne_nil w ms) (fun u hu => h u (List.mem_cons_of_mem _ hu))
          ((skipSpace_lineStart _ _).trans (hstarts.skipSpace_append _)) (by omega),
        keptMembers.eq_2 name]
      rfl

/-- An object is read wherever its text stands. -/
theorem readsBack_object {ms : List (String × Json)}
    (h : ∀ m ∈ ms, ReadsBack (indent + 1) depth m.2) :
    ReadsBack indent (depth + 1) (.object ms) := by
  have htext : indented indent (.object ms) =
      block "\x7b" "\x7d" indent (indentedMembers (indent + 1) ms) := by
    rw [indented]
  rcases eq_or_ne ms [] with rfl | hne
  · rw [indentedMembers] at htext
    refine readsBack_of_block_nil (c := '\x7b') (d := '\x7d') rfl rfl (by decide) htext
      fun fuel cs rest hcs => ?_
    rw [readValue?.eq_def]
    dsimp only
    rw [hcs, kept, keptMembers]
    rfl
  · have hstarts := starts_indentedMembers (indent + 1) hne
    refine readsBack_of_block (c := '\x7b') (d := '\x7d') rfl rfl (by decide) htext
      (indentedMembers_ne_nil hne) hstarts fun fuel cs tail rest hcs htail hfuel => ?_
    rw [readValue?_object hcs htail hstarts,
      readMembers?_joined hne h (hstarts.skipSpace_append _) hfuel, kept]
    rfl

/-! ### All values -/

/-- **Every value within the limits is read back wherever its text stands.** -/
theorem readsBack (h : IsWithin depth v) (indent : Nat) : ReadsBack indent depth v := by
  induction h generalizing indent with
  | null => exact readsBack_null
  | bool _ b => exact readsBack_bool b
  | int _ hn => exact readsBack_int hn
  | number _ x => exact readsBack_number x
  | text _ s => exact readsBack_text s
  | list _ ih => exact readsBack_list fun v hv => ih v hv (indent + 1)
  | object _ ih => exact readsBack_object fun m hm => ih m hm (indent + 1)

/-- **A written value within the limits is read as what is kept of it.** -/
theorem read?_indented (h : IsWithin deepest v) : read? (indented 0 v) = some (kept v) := by
  obtain ⟨hstart, hread⟩ := readsBack h 0
  have hskip := hstart.skipSpace_append []
  rw [List.append_nil] at hskip
  have hvalue := hread (hskip.trans (List.append_nil _).symm) endsNumber_nil
    (by omega : _ ≤ 2 * (indented 0 v).toList.length + 2)
  rw [read?, hvalue]
  rfl

/-- **What has been read is read again once it is written.** -/
theorem read?_indented_of_read? {s : String} (h : read? s = some v) :
    read? (indented 0 v) = some (kept v) := read?_indented (isWithin_of_read? h)

end FactNet.Json
