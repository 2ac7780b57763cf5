import FactNet.Entity

/-!
# The catalogue of relations

Some relations between entities are known by name, with the type of their head and the types
that their tail may have.  Rule files and facts spell them loosely: only the letters and
digits of a name count, and not their case.

## Main definitions

* `KnownRelation` — a relation of the catalogue.
* `catalogue` — all of them.
* `KnownRelation.find?` — the relation that a spelling stands for.
* `KnownRelation.between` — the relations that may hold between entities of two types.
-/

namespace FactNet

open FactNet.Text

/-- A relation with the types it relates. -/
structure KnownRelation where
  /-- The name. -/
  name : String
  /-- The type of its head. -/
  head : EntityType
  /-- The types its tail may have. -/
  tails : List EntityType
  deriving DecidableEq, Repr, Inhabited

/-- The relations that are known. -/
def catalogue : List KnownRelation := [
    ⟨"per:alternate_names", .person, [.person, .misc]⟩,
    ⟨"per:age", .person, [.number, .duration]⟩,
    ⟨"per:cause_of_death", .person, [.causeOfDeath]⟩,
    ⟨"per:charges", .person, [.criminalCharge]⟩,
    ⟨"per:children", .person, [.person]⟩,
    ⟨"per:cities_of_residence", .person, [.city]⟩,
    ⟨"per:city_of_birth", .person, [.city]⟩,
    ⟨"per:city_of_death", .person, [.city]⟩,
    ⟨"per:countries_of_residence", .person, [.country, .nationality]⟩,
    ⟨"per:country_of_birth", .person, [.country, .nationality]⟩,
    ⟨"per:country_of_death", .person, [.country, .nationality]⟩,
    ⟨"per:date_of_birth", .person, [.date]⟩,
    ⟨"per:date_of_death", .person, [.date]⟩,
    ⟨"per:employee_of", .person, [.organization, .country, .stateOrProvince, .city]⟩,
    ⟨"per:member_of", .person, [.organization]⟩,
    ⟨"per:origin", .person, [.nationality, .country]⟩,
    ⟨"per:other_family", .person, [.person]⟩,
    ⟨"per:parents", .person, [.person]⟩,
    ⟨"per:religion", .person, [.religion]⟩,
    ⟨"per:schools_attended", .person, [.organization]⟩,
    ⟨"per:siblings", .person, [.person]⟩,
    ⟨"per:spouse", .person, [.person]⟩,
    ⟨"per:stateorprovince_of_birth", .person, [.stateOrProvince]⟩,
    ⟨"per:stateorprovince_of_death", .person, [.stateOrProvince]⟩,
    ⟨"per:stateorprovinces_of_residence", .person, [.stateOrProvince]⟩,
    ⟨"per:title", .person, [.title]⟩,
    ⟨"org:alternate_names", .organization, [.organization, .misc]⟩,
    ⟨"org:city_of_headquarters", .organization, [.city]⟩,
    ⟨"org:country_of_headquarters", .organization, [.country, .nationality]⟩,
    ⟨"org:dissolved", .organization, [.date]⟩,
    ⟨"org:founded", .organization, [.date]⟩,
    ⟨"org:founded_by", .organization, [.person, .organization]⟩,
    ⟨"org:member_of", .organization, [.organization, .country, .stateOrProvince, .city]⟩,
    ⟨"org:members", .organization, [.organization, .country]⟩,
    ⟨"org:number_of_employees/members", .organization, [.number]⟩,
    ⟨"org:parents", .organization, [.organization, .country, .stateOrProvince, .city]⟩,
    ⟨"org:political/religious_affiliation", .organization, [.religion, .ideology]⟩,
    ⟨"org:shareholders", .organization, [.person, .organization]⟩,
    ⟨"org:stateorprovince_of_headquarters", .organization, [.stateOrProvince]⟩,
    ⟨"org:subsidiaries", .organization, [.organization]⟩,
    ⟨"org:top_members/employees", .organization, [.person]⟩,
    ⟨"org:website", .organization, [.url]⟩]

/-- The small letters and the digits of a name, which tell relations apart. -/
def foldedName (s : String) : String :=
  String.ofList ((smalls s).toList.filter fun c => c.isLower || c.isDigit)

namespace KnownRelation

/-- The relation that a spelling stands for. -/
def find? (s : String) : Option KnownRelation :=
  let folded := foldedName s
  catalogue.find? fun r => foldedName r.name == folded

/-- The relations that may hold between a head and a tail of the given types. -/
def between (head tail : EntityType) : List KnownRelation :=
  catalogue.filter fun r => r.head == head && r.tails.contains tail

end KnownRelation

end FactNet
