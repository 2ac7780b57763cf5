import FactNet.Text.Case

/-!
# Entities

An entity is a name and a type.  Types are written by a full name or by a short one, which
the names of typed relations and constants use.

## Main definitions

* `EntityType` — the types, with `name`, `short` and `ofName?`.
* `Entity` — a vertex of a fact graph.
-/

namespace FactNet

open FactNet.Text

/-- The types of entities. -/
inductive EntityType where
  | causeOfDeath
  | city
  | country
  | criminalCharge
  | date
  | ideology
  | location
  | misc
  | modifier
  | nationality
  | number
  | organization
  | person
  | religion
  | stateOrProvince
  | title
  | url
  | duration
  deriving DecidableEq, Repr, Inhabited

namespace EntityType

/-- Every type. -/
def all : List EntityType := [
  .causeOfDeath, .city, .country, .criminalCharge, .date, .ideology, .location, .misc, .modifier,
  .nationality, .number, .organization, .person, .religion, .stateOrProvince, .title, .url,
  .duration]

/-- The full name of a type. -/
def name : EntityType → String
  | .causeOfDeath => "CAUSE_OF_DEATH"
  | .city => "CITY"
  | .country => "COUNTRY"
  | .criminalCharge => "CRIMINAL_CHARGE"
  | .date => "DATE"
  | .ideology => "IDEOLOGY"
  | .location => "LOCATION"
  | .misc => "MISC"
  | .modifier => "MODIFIER"
  | .nationality => "NATIONALITY"
  | .number => "NUMBER"
  | .organization => "ORGANIZATION"
  | .person => "PERSON"
  | .religion => "RELIGION"
  | .stateOrProvince => "STATE_OR_PROVINCE"
  | .title => "TITLE"
  | .url => "URL"
  | .duration => "DURATION"

/-- The short name of a type. -/
def short : EntityType → String
  | .causeOfDeath => "COD"
  | .city => "CIT"
  | .country => "CRY"
  | .criminalCharge => "CC"
  | .date => "DT"
  | .ideology => "IDY"
  | .location => "LOC"
  | .misc => "MSC"
  | .modifier => "MOD"
  | .nationality => "NAT"
  | .number => "NUM"
  | .organization => "ORG"
  | .person => "PER"
  | .religion => "REL"
  | .stateOrProvince => "ST"
  | .title => "TIT"
  | .url => "URL"
  | .duration => "DUR"

theorem mem_all (t : EntityType) : t ∈ all := by
  cases t <;> decide

/-- The type with a full or short name, in letters of any case; a full name goes before a short
one. -/
def ofName? (s : String) : Option EntityType :=
  let s := capitals s
  (all.find? fun t => t.name == s) <|> all.find? fun t => t.short == s

end EntityType

/-- A vertex of a fact graph. -/
structure Entity where
  /-- The name. -/
  name : String
  /-- The type. -/
  type : EntityType
  deriving DecidableEq, Repr, Inhabited

/-- An entity as it is written: its name, and its type in brackets. -/
def Entity.text (e : Entity) : String :=
  e.name ++ "[" ++ e.type.short ++ "]"

end FactNet
