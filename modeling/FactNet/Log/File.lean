import FactNet.Json.Writer
import FactNet.Log.Event
import FactNet.Log.Record
import FactNet.Log.Setup

/-!
# Log files

An event that is serious enough is written to the console, and to the log file if there is one, in
the context that holds at that time.  A log file that would reach its size with the next record is
put aside first: it gets the number one behind its name, files that were put aside before get the
next number, and of more files than are kept the oldest one is lost.

## Main definitions

* `LogSetup.admits` — whether an event is serious enough.
* `Event.written` — what is written of an event.
* `LogSetup.fileBounds?` — the size of the log file, and how many are kept.
* `isFull` — whether a log file is put aside.
* `asideMoves` — how files are renamed for that.
-/

namespace FactNet

/-- Whether an event is serious enough to be logged. -/
def LogSetup.admits (s : LogSetup) (e : Event) : Bool :=
  s.level ≤ levelNumber e.level.name

/-- What is written of an event in a context, as a line without its end. -/
def Event.written (e : Event) (format : LogFormat) (c : Context) : String :=
  let record : Record := ⟨e.level.name, loggerName "main", e.message, .null⟩
  match format with
  | .text => record.line c
  | .json => (record.json c).compact

/-- The size at which the log file is put aside, and how many such files are kept, if records go to
a file at all. -/
def LogSetup.fileBounds? (s : LogSetup) : Option (Nat × Int) :=
  s.sinks.findSome? fun
    | .file maxBytes kept => some (maxBytes, kept)
    | .console => none

/-- Whether a log file of some size is put aside before a text is added to it; of a size that is not
bounded it never is. -/
def isFull (maxBytes size : Nat) (added : String) : Bool :=
  0 < maxBytes && maxBytes ≤ size + added.length

/-- The name of the log file that was put aside so many times ago. -/
def asideName (path : String) : Nat → String
  | 0 => path
  | n + 1 => path ++ "." ++ toString (n + 1)

/-- The old and the new names when a log file is put aside, the oldest file first; if none is kept
nothing is renamed. -/
def asideMoves (path : String) (kept : Int) : List (String × String) :=
  (List.range kept.toNat).reverse.map fun n => (asideName path n, asideName path (n + 1))

end FactNet
