/-!
# Domains

Every type of a program has a domain, the set of constants that its variables range over.
Types keep the order in which they were first named.  The constants of a type are kept in
order, each once, so that a domain does not depend on how it was filled.

## Main definitions

* `insertText` — a text put in its place among ordered texts.
* `Domains` — the constants of every type.
* `Domains.declare`, `Domains.add`, `Domains.get` — naming a type, adding a constant to it, and
  the constants it has.
-/

namespace FactNet

/-- Puts a text in its place among ordered texts, if it is not there yet. -/
def insertText (s : String) : List String → List String
  | [] => [s]
  | t :: ts => if s = t then t :: ts else if s < t then s :: t :: ts else t :: insertText s ts

@[simp] theorem mem_insertText {s t : String} {ts : List String} :
    t ∈ insertText s ts ↔ t = s ∨ t ∈ ts := by
  induction ts with
  | nil => simp [insertText]
  | cons u us ih =>
    simp only [insertText]
    split
    · rename_i h
      subst h
      simp
    · split
      · simp
      · simp [ih]
        constructor <;> intro h <;> rcases h with h | h | h <;> simp [h]

/-- The texts in order, each once. -/
def sortedTexts (ts : List String) : List String :=
  ts.foldl (fun acc t => insertText t acc) []

/-- The constants of every type. -/
structure Domains where
  /-- The types in the order in which they were named, with their constants in order. -/
  entries : List (String × List String) := []
  deriving DecidableEq, Repr, Inhabited

namespace Domains

/-- The constants of a type, if it has been named. -/
def get? (d : Domains) (type : String) : Option (List String) :=
  (d.entries.find? fun e => e.1 == type).map (·.2)

/-- The constants of a type. -/
def get (d : Domains) (type : String) : List String :=
  (d.get? type).getD []

/-- The domains with a type named. -/
def declare (d : Domains) (type : String) : Domains :=
  if d.entries.any fun e => e.1 == type then d else ⟨d.entries ++ [(type, [])]⟩

/-- The domains with a constant added to a type. -/
def add (d : Domains) (type value : String) : Domains :=
  ⟨(d.declare type).entries.map fun e => if e.1 == type then (e.1, insertText value e.2) else e⟩

/-- The domains with several constants added to a type, which is named in any case. -/
def addAll (d : Domains) (type : String) (values : List String) : Domains :=
  values.foldl (fun d v => d.add type v) (d.declare type)

end Domains

end FactNet
