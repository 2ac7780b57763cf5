/-!
# Blanks

Rule lines, numbers and size texts are cut and trimmed at blanks.  A blank is any
character that Unicode classes as white space, and the four separators `U+001C` to
`U+001F`; the zero-width space `U+200B` is none.

Text is handled as a list of characters, so that cutting it is recursion on the list.

## Main definitions

* `isBlank` — whether a character is a blank.
* `trimStart`, `trimEnd`, `trim` — a text without the blanks at its ends.
-/

namespace FactNet.Text

/-- Whether a character is a blank. -/
def isBlank (c : Char) : Bool :=
  let n := c.toNat
  (9 ≤ n && n ≤ 13) || (0x1c ≤ n && n ≤ 0x20) || n == 0x85 || n == 0xa0 || n == 0x1680
    || (0x2000 ≤ n && n ≤ 0x200a) || n == 0x2028 || n == 0x2029 || n == 0x202f || n == 0x205f
    || n == 0x3000

/-- The text from its first character that is no blank. -/
def trimStart (cs : List Char) : List Char :=
  cs.dropWhile isBlank

/-- The text up to its last character that is no blank. -/
def trimEnd (cs : List Char) : List Char :=
  (trimStart cs.reverse).reverse

/-- The text without the blanks at either end. -/
def trim (cs : List Char) : List Char :=
  trimEnd (trimStart cs)

/-- `trim` on strings. -/
def trimText (s : String) : String :=
  String.ofList (trim s.toList)

@[simp] theorem trimStart_nil : trimStart [] = [] := rfl

theorem trimStart_cons (c : Char) (cs : List Char) :
    trimStart (c :: cs) = if isBlank c then trimStart cs else c :: cs := by
  simp [trimStart, List.dropWhile_cons]

theorem length_trimStart_le (cs : List Char) : (trimStart cs).length ≤ cs.length := by
  induction cs with
  | nil => simp
  | cons c cs ih =>
    rw [trimStart_cons]
    split
    · exact Nat.le_succ_of_le ih
    · exact Nat.le_refl _

end FactNet.Text
