import FactNet.Text.Split

/-!
# Lines of files

Files end their lines in any of three ways: with a line feed, a carriage return, or both.

## Main definitions

* `plainLineEnds` — a text whose lines end with line feeds.
* `fileLines` — the lines of a file.
-/

namespace FactNet.Text

/-- The text with every line ended by a line feed alone. -/
def plainLineEnds : List Char → List Char
  | '\r' :: '\n' :: cs => '\n' :: plainLineEnds cs
  | '\r' :: cs => '\n' :: plainLineEnds cs
  | c :: cs => c :: plainLineEnds cs
  | [] => []

/-- The lines of a file; nothing follows the end of the last one. -/
def fileLines (s : String) : List String :=
  let ls := (splitAtChar '\n' (plainLineEnds s.toList)).map String.ofList
  if ls.getLast? = some "" then ls.dropLast else ls

end FactNet.Text
