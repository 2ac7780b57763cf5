import FactNet.Text.Split

/-!
# Paths

The parts of a path are separated by slashes.  Empty parts and single dots do not count, and a
path without parts is the current directory.

## Main definitions

* `Path.normal` — a path without the parts that do not count.
* `Path.ancestors` — the directories that a path goes through.
-/

namespace FactNet.Path

open FactNet.Text

/-- What an absolute path starts with: one slash, or exactly two. -/
def root (cs : List Char) : String :=
  match cs with
  | '/' :: '/' :: '/' :: _ => "/"
  | '/' :: '/' :: _ => "//"
  | '/' :: _ => "/"
  | _ => ""

/-- The parts of a path that count. -/
def parts (s : String) : List String :=
  (pieces '/' s).filter fun p => !p.isEmpty && p != "."

/-- A path without the parts that do not count. -/
def normal (s : String) : String :=
  let path := root s.toList ++ "/".intercalate (parts s)
  if path.isEmpty then "." else path

/-- The directories that a path goes through, the first one first. -/
def ancestors (s : String) : List String :=
  let ps := parts s
  (List.range (ps.length - 1)).map fun i => root s.toList ++ "/".intercalate (ps.take (i + 1))

end FactNet.Path
