import FactNet.Log.Event
import FactNet.Matching.Reader
import FactNet.Matching.Search
import FactNet.Relation

/-!
# Inference by matching

Around a pivot, every other vertex of the graph is tried as the tail of every relation that
rules add.  Of the rules for a relation the first one that is found in the graph adds a fact, if
it is probable enough; more probable rules come first.  All facts are added together at the end,
so none of them bears on another.

## Main definitions

* `Matcher` — rules, and how probable they have to be.
* `Matcher.inferred` — the facts that are added, with the rules that add them.
* `Matcher.apply` — the graph with these facts.
-/

namespace FactNet

/-- Rules, and how probable they have to be. -/
structure Matcher (α : Type) where
  /-- The rules. -/
  book : RuleBook α
  /-- The probability that a rule has to exceed. -/
  minProb : α
  deriving Repr, Inhabited

/-- A fact that a rule adds. -/
structure Inference (α : Type) where
  /-- The fact. -/
  fact : Fact α
  /-- The rule. -/
  rule : MatchRule α
  deriving Repr, Inhabited

variable {α : Type}

/-- The inferences without those of a fact that an earlier one adds. -/
def Inference.firstOfEach (is : List (Inference α)) : List (Inference α) :=
  is.foldl (fun kept i =>
    if kept.any fun k => k.fact.key == i.fact.key then kept else kept ++ [i]) []

/-- Where the fact that a rule of one antecedent adds was read from: an official place if there is
one, else the first. -/
def MatchRule.findProvenance (r : MatchRule α) (g : FactGraph α) (head tail : Entity) :
    Option Provenance :=
  match r.antecedents with
  | [c] =>
    let places := (g.outgoing head).filterMap fun f =>
      if f.relation == c.relation && f.tail == tail then f.provenance else none
    (places.find? (·.official)) <|> places.head?
  | _ => none

/-- Whether a rule is found for a pair of entities, and its consequent asks for their types. -/
def MatchRule.suits (r : MatchRule α) (g : FactGraph α) (head tail : Entity) : Bool :=
  fitsType r.consequent.headType head && fitsType r.consequent.tailType tail
    && r.occursIn g head tail

/-- The fact that a rule adds. -/
def MatchRule.conclude [Scalar α] (r : MatchRule α) (g : FactGraph α) (relation : String)
    (head tail : Entity) : Fact α :=
  ⟨head, relation, tail, some (Scalar.half + r.probability / Scalar.nat 2),
    r.findProvenance g head tail⟩

namespace Matcher

/-- The rules of a file; their scores have to be above the cutoff. -/
def ofLines [Scalar α] [Numeral α] (admission : Admission α) (lines : List String) :
    Except Text.LineFault (Matcher α) :=
  (RuleBook.ofLines admission lines).map fun book => ⟨book, LogProb.sigmoid admission.cutoff⟩

/-- Whether a relation can take part in an inference. -/
def isUseful (m : Matcher α) (relation : String) : Bool :=
  m.book.relations.contains relation

/-- The rules for a relation. -/
def rulesFor (m : Matcher α) (relation : String) : Option (List (MatchRule α)) :=
  (m.book.rules.find? fun e => e.1 == relation).map (·.2)

/-- Whether the catalogue allows a relation between the types of two entities; a relation it does
not know is always allowed. -/
def admits (relation : String) (head tail : Entity) : Bool :=
  match KnownRelation.find? relation with
  | none => true
  | some known => (KnownRelation.between head.type tail.type).contains known

/-- What the rules for a relation add about a pivot and another vertex.  The first rule that suits
the two decides; where it is not probable enough, or the fact is there, nothing is added. -/
def inferredBy [Scalar α] (m : Matcher α) (g : FactGraph α) (pivot sink : Entity)
    (relation : String) (rules : List (MatchRule α)) : Option (Inference α) :=
  if admits relation pivot sink then
    match rules.find? (·.suits g pivot sink) with
    | none => none
    | some r =>
      if m.minProb < r.probability && !g.contains (pivot, relation, sink) then
        some ⟨r.conclude g relation pivot sink, r⟩
      else none
  else none

/-- The facts that rules add about a pivot, each once. -/
def inferred [Scalar α] (m : Matcher α) (g : FactGraph α) (pivot : Entity) :
    List (Inference α) :=
  Inference.firstOfEach <|
    (g.vertices.filter (· != pivot)).flatMap fun sink =>
      m.book.rules.filterMap fun (relation, rules) => m.inferredBy g pivot sink relation rules

/-- What is told of the facts about a pivot whose relation the catalogue does not know. -/
def openDomainEvents [Numeral α] (g : FactGraph α) (pivot : Entity) : List Event :=
  ((g.outgoing pivot).filter fun f => (KnownRelation.find? f.relation).isNone).map fun f =>
    ⟨.debug, "Open-domain extraction: " ++ f.text⟩

/-- What is told of a fact that is added. -/
def inferredEvent [Numeral α] (i : Inference α) : Event :=
  ⟨.info, "Inferred " ++ i.fact.head.name ++ " | " ++ i.fact.relation ++ " ["
    ++ Numeral.fixed 3 i.rule.probability ++ "] | " ++ i.fact.tail.name ++ " \x7b" ++ i.rule.text
    ++ "\x7d"⟩

/-- The graph with the facts that rules add about a pivot, and what there is to tell. -/
def apply [Scalar α] [Numeral α] (m : Matcher α) (g : FactGraph α) (pivot : Entity) :
    FactGraph α × List Event :=
  let added := m.inferred g pivot
  (g.addAll (added.map (·.fact)), openDomainEvents g pivot ++ added.map inferredEvent)

end Matcher

end FactNet
