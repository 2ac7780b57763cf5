import FactNet.Text.Blank

/-!
# Cutting text

Rule bodies are cut at a lone `v` between blanks, comma lists at their commas, and pieces of
text are found and replaced.  All of it is recursion on the list of characters.

## Main definitions

* `splitAtChar` — the pieces between the occurrences of a character.
* `dropPrefix?` — what follows a given start.
* `cutAt?` — the text before and after the first occurrence of a piece.
* `replace` — every occurrence of a piece exchanged for another.
* `splitDisjuncts` — the pieces between lone letters `v`.
-/

namespace FactNet.Text

/-- The pieces between the occurrences of a character; there is always at least one. -/
def splitAtChar (sep : Char) : List Char → List (List Char)
  | [] => [[]]
  | c :: cs =>
    if c = sep then [] :: splitAtChar sep cs
    else
      match splitAtChar sep cs with
      | [] => [[c]]
      | piece :: pieces => (c :: piece) :: pieces

/-- `splitAtChar` on strings. -/
def pieces (sep : Char) (s : String) : List String :=
  (splitAtChar sep s.toList).map String.ofList

/-- What follows `start` in a text that starts with it. -/
def dropPrefix? : List Char → List Char → Option (List Char)
  | [], cs => some cs
  | _ :: _, [] => none
  | p :: ps, c :: cs => if p = c then dropPrefix? ps cs else none

theorem dropPrefix?_eq_some {p cs rest : List Char} (h : dropPrefix? p cs = some rest) :
    cs = p ++ rest := by
  induction p generalizing cs with
  | nil => simpa [dropPrefix?] using h
  | cons a p ih =>
    cases cs with
    | nil => simp [dropPrefix?] at h
    | cons c cs =>
      simp only [dropPrefix?] at h
      split at h
      · rename_i hac
        rw [hac, ih h, List.cons_append]
      · exact absurd h (by simp)

/-- The text before and after the first occurrence of a piece. -/
def cutAt? (piece : List Char) : List Char → Option (List Char × List Char)
  | [] => if piece.isEmpty then some ([], []) else none
  | c :: cs =>
    match dropPrefix? piece (c :: cs) with
    | some rest => some ([], rest)
    | none => (cutAt? piece cs).map fun (before, after) => (c :: before, after)

/-- The text before the first occurrence of a piece, or all of it. -/
def before (piece cs : List Char) : List Char :=
  match cutAt? piece cs with
  | some (first, _) => first
  | none => cs

/-- Every occurrence of `piece`, read from the left, exchanged for `other`.  The fuel is the length
of the text: each occurrence of a piece that is not empty uses some of it up. -/
def replaceFuel (piece other : List Char) : Nat → List Char → List Char
  | 0, cs => cs
  | fuel + 1, cs =>
    match cutAt? piece cs with
    | some (before, after) => before ++ other ++ replaceFuel piece other fuel after
    | none => cs

/-- Every occurrence of `piece`, read from the left, exchanged for `other`. -/
def replace (piece other cs : List Char) : List Char :=
  if piece.isEmpty then cs else replaceFuel piece other cs.length cs

/-- Reads the rest of a lone `v` after blanks: the letter, and the blanks after it, which must be
there.  The answer is what follows those blanks. -/
def afterLoneV? : List Char → Option (List Char)
  | 'v' :: c :: cs => if isBlank c then some (trimStart cs) else none
  | _ => none

theorem afterLoneV?_length {cs rest : List Char} (h : afterLoneV? cs = some rest) :
    rest.length < cs.length := by
  unfold afterLoneV? at h
  split at h
  · rename_i c cs
    split at h
    · cases h
      have := length_trimStart_le cs
      simp
      omega
    · exact absurd h (by simp)
  · exact absurd h (by simp)

/-- Puts a character in front of the first piece. -/
def consFirst (c : Char) : List (List Char) → List (List Char)
  | [] => [[c]]
  | piece :: pieces => (c :: piece) :: pieces

/-- The pieces of a clause: it is cut at every `v` that has blanks on both sides, the blanks going
with the cut.  Blanks used up by one cut do not serve the next. -/
def splitDisjuncts (cs : List Char) : List (List Char) :=
  match cs with
  | [] => [[]]
  | c :: rest =>
    if isBlank c then
      match h : afterLoneV? (trimStart rest) with
      | some after =>
        have : after.length < rest.length + 1 := by
          have h1 := afterLoneV?_length h
          have h2 := length_trimStart_le rest
          omega
        [] :: splitDisjuncts after
      | none => consFirst c (splitDisjuncts rest)
    else consFirst c (splitDisjuncts rest)
  termination_by cs.length

end FactNet.Text
