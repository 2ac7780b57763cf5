import FactNet.Relation
import FactNet.Text.Split

/-!
# Names in rule files

Rule files write a relation with the types of its arguments folded into its name, as in
`per_spouse_TYPE_PER_TO_PER`, and an entity with its type in front, as in `PER_Julie_Smith`.
Whatever a name of a relation or an entity is made of, only ASCII letters, digits and
underscores go into a rule file.

## Main definitions

* `cleanName` — a name as it goes into a rule file.
* `cleanRelation`, `cleanEntity` — the names of relations and entities in rule files.
* `untypedRelation` — a relation as graphs spell it.
* `getTypes?` — the types folded into a name.
-/

namespace FactNet

open FactNet.Text

/-- Whether a character goes into a rule file as it is. -/
def isWordChar (c : Char) : Bool :=
  c.isAlphanum || c == '_'

/-- The characters of a name as they go into a rule file.  The flag says whether a blank came right
before: blanks in a row make one underscore. -/
def cleanChars : Bool → List Char → List Char
  | _, [] => []
  | after, c :: cs =>
    if isBlank c then
      if after then cleanChars true cs else '_' :: cleanChars true cs
    else (if isWordChar c then c else '_') :: cleanChars false cs

/-- A name as it goes into a rule file: blanks in a row and any other character but a letter, a
digit or an underscore make an underscore. -/
def cleanName (s : String) : String :=
  String.ofList (cleanChars false s.toList)

/-- What stands between a relation and the types of its arguments. -/
def typeMarker : List Char := ['_', 'T', 'Y', 'P', 'E', '_']

/-- What stands between the types of the two arguments. -/
def typeLink : List Char := ['_', 'T', 'O', '_']

/-- What a name of a relation ends with when it is typed. -/
def typeSuffix (head tail : EntityType) : String :=
  String.ofList typeMarker ++ head.short ++ String.ofList typeLink ++ tail.short

/-- The name of a relation in a rule file, typed when both types are given. -/
def cleanRelation (relation : String) (head tail : Option EntityType) : String :=
  match head, tail with
  | some head, some tail => cleanName relation ++ typeSuffix head tail
  | _, _ => cleanName relation

/-- The constant for an entity in a rule file. -/
def cleanEntity (e : Entity) : String :=
  e.type.short ++ "_" ++ cleanName e.name

/-! ### Reading the names back -/

/-- The start of a name of a person's or an organization's relation, with the colon that graphs
use. -/
def graphStart (cs : List Char) : List Char :=
  match cs with
  | 'p' :: 'e' :: 'r' :: '_' :: rest => 'p' :: 'e' :: 'r' :: ':' :: rest
  | 'o' :: 'r' :: 'g' :: '_' :: rest => 'o' :: 'r' :: 'g' :: ':' :: rest
  | cs => cs

/-- A relation of a rule file as graphs spell it: without its types, and by the name of the
catalogue if it is known; in any other name underscores become spaces. -/
def untypedRelation (typed : String) : String :=
  let cs := graphStart (before typeMarker typed.toList)
  match KnownRelation.find? (String.ofList cs) with
  | some r => r.name
  | none => String.ofList (cs.map fun c => if c = '_' then ' ' else c)

/-- Reads the two types of a suffix at the start of a text. -/
def suffixTypes? (cs : List Char) : Option (String × String) :=
  match dropPrefix? typeMarker cs with
  | none => none
  | some rest =>
    match rest.takeWhile Char.isUpper, dropPrefix? typeLink (rest.dropWhile Char.isUpper) with
    | c :: head, some rest =>
      match rest.takeWhile Char.isUpper with
      | d :: tail => some (String.ofList (c :: head), String.ofList (d :: tail))
      | [] => none
    | _, _ => none

/-- The two types of the last suffix in a text. -/
def lastSuffixTypes? : List Char → Option (String × String)
  | [] => none
  | c :: cs => lastSuffixTypes? cs <|> suffixTypes? (c :: cs)

/-- The types folded into the name of a relation, looked for in its first line. -/
def getTypes? (typed : String) : Option (EntityType × EntityType) :=
  match lastSuffixTypes? (typed.toList.takeWhile (· ≠ '\n')) with
  | none => none
  | some (head, tail) =>
    match EntityType.ofName? head, EntityType.ofName? tail with
    | some head, some tail => some (head, tail)
    | _, _ => none

/-- What is said of a name with no types. -/
def noTypesMessage (typed : String) : String :=
  "Invalid type string: " ++ typed

end FactNet
