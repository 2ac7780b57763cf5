import FactNet.Fact
import FactNet.Json.Decode
import FactNet.Json.Reader
import FactNet.Json.Writer

/-!
# Fact files

A fact file is a JSON list of facts.  A fact is an object with the entities `entity` and
`slot`, the `relation` between them, and perhaps a `score` and a `provenance`; members with
other names do not count.

## Main definitions

* `readFacts` — the facts of a file, or everything that is wrong with it.
* `factsText` — a file of some facts.
-/

namespace FactNet

open FactNet.Json

/-! ### Reading -/

/-- The outcome for a member of an object that must be there. -/
def needed {β : Type} (v : Json) (name : String) (f : Json → Outcome β) : Outcome β :=
  Outcome.within (.field name) <|
    match v.member? name with
    | some m => f m
    | none => .error [⟨[], .missing⟩]

/-- The outcome for a member of an object that may be missing or nothing. -/
def optional {β : Type} (v : Json) (name : String) (f : Json → Outcome β) : Outcome (Option β) :=
  match v.member? name with
  | none => .ok none
  | some .null => .ok none
  | some m => (Outcome.within (.field name) (f m)).map some

/-- A type of entities by its full or short name. -/
def entityTypeOfJson : Json → Except Mismatch EntityType
  | .text s =>
    match EntityType.ofName? s with
    | some t => .ok t
    | none => .error (.refused ("Unknown entity type: " ++ s))
  | _ => .error .notType

/-- An entity. -/
def entityOfJson (v : Json) : Outcome Entity :=
  match v with
  | .object _ =>
    ((Outcome.start Entity.mk).also (needed v "name" fun m => .ofExcept (asText m))).also
      (needed v "type" fun m => .ofExcept (entityTypeOfJson m))
  | _ => .error [⟨[], .notObject⟩]

/-- The truth value of a member of an object, which is false if it is missing. -/
def truthOr (v : Json) (name : String) : Outcome Bool :=
  match v.member? name with
  | none => .ok false
  | some m => Outcome.within (.field name) (.ofExcept (asTruth m))

/-- Where a fact was read from. -/
def provenanceOfJson (v : Json) : Outcome Provenance :=
  match v with
  | .object _ =>
    (((Outcome.start Provenance.mk).also (needed v "doc_id" fun m => .ofExcept (asText m))).also
      (optional v "sentence_index" fun m => .ofExcept (asWhole m))).also (truthOr v "is_official")
  | _ => .error [⟨[], .notObject⟩]

/-- A fact. -/
def factOfJson (v : Json) : Outcome (Fact Float) :=
  match v with
  | .object _ =>
    (((((Outcome.start Fact.mk).also (needed v "entity" entityOfJson)).also
      (needed v "relation" fun m => .ofExcept (asText m))).also
      (needed v "slot" entityOfJson)).also
      (optional v "score" fun m => .ofExcept (asNumber m))).also
      (optional v "provenance" provenanceOfJson)
  | _ => .error [⟨[], .notObject⟩]

/-- The facts that a text lists. -/
def readFacts (text : String) : Outcome (List (Fact Float)) :=
  match Json.read? text with
  | none => .error [⟨[], .malformed⟩]
  | some (.list items) => Outcome.items factOfJson 0 items
  | some _ => .error [⟨[], .notList⟩]

/-! ### Writing -/

/-- An entity as JSON. -/
def Entity.json (e : Entity) : Json :=
  .object [("name", .text e.name), ("type", .text e.type.name)]

/-- Something that may be missing, as JSON. -/
def jsonOrNull {β : Type} (f : β → Json) : Option β → Json
  | none => .null
  | some b => f b

/-- Where a fact was read from, as JSON. -/
def Provenance.json (p : Provenance) : Json :=
  .object [("doc_id", .text p.document), ("sentence_index", jsonOrNull .int p.sentence),
    ("is_official", .bool p.official)]

/-- A fact as JSON. -/
def Fact.json (f : Fact Float) : Json :=
  .object [("entity", f.head.json), ("relation", .text f.relation), ("slot", f.tail.json),
    ("score", jsonOrNull .number f.score), ("provenance", jsonOrNull Provenance.json f.provenance)]

/-- A file of some facts. -/
def factsText (facts : List (Fact Float)) : String :=
  Json.indented 0 (.list (facts.map Fact.json))

end FactNet
