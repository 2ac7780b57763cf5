import FactNet.Domain
import FactNet.Factor.Table
import FactNet.Program.Basic

/-!
# What a network is built from

Predicates, domains, evidence, priors and rules are registered one after another, in any
order that declares a predicate before it is used.  Each registration is checked; one that is
refused is reported, and those made before it stay.

## Main definitions

* `Registry` — everything that has been registered.
* `RegistryFault` — why a registration is refused.
* `Registered` — the registry after some registrations, and the fault that ended them.
* `Registry.addPredicate`, `Registry.addEvidence`, `Registry.addPrior`, `Registry.addRule`,
  `Registry.addProgram` — the registrations.
-/

namespace FactNet

open Scalar

/-- Why a registration is refused. -/
inductive RegistryFault where
  /-- The default prior is no probability strictly between none and certainty. -/
  | priorOutOfRange (prior : String)
  /-- There is no merge method of this name. -/
  | unknownMerge (name : String)
  /-- The predicate has been declared in another way. -/
  | conflict (known new : Predicate)
  /-- The predicate has not been declared. -/
  | unknownPredicate (name : String)
  /-- Evidence is given for an open predicate. -/
  | openEvidence (predicate : Predicate)
  /-- Evidence has a variable. -/
  | notGround (literal : Literal)
  /-- A prior has no literal or several. -/
  | notUnit (rule : String)
  deriving DecidableEq, Repr, Inhabited

/-- A fault in words. -/
def RegistryFault.message : RegistryFault → String
  | .priorOutOfRange prior => "default_prior must be in (0, 1), got " ++ prior
  | .unknownMerge name => unknownMergeMessage name
  | .conflict known new => "Conflicting declarations: " ++ known.text ++ " vs " ++ new.text
  | .unknownPredicate name => Text.quote name
  | .openEvidence p => "Evidence requires a closed-world predicate: " ++ p.text
  | .notGround l => "Evidence must be ground: " ++ l.text
  | .notUnit rule => "A prior must have exactly one literal: " ++ rule

/-- Everything that a network is built from. -/
structure Registry (α : Type) where
  /-- How grounded rules are merged. -/
  method : MergeMethod := .geometricMean
  /-- The prior of a consequent that has no other. -/
  defaultPrior : α
  /-- Whether a search climbs from time to time. -/
  hillClimb : Bool := false
  /-- The number of chains. -/
  threads : Int := 1
  /-- The declared predicates, each name once. -/
  predicates : List Predicate := []
  /-- The domains of the types. -/
  domains : Domains := {}
  /-- The evidence, in order. -/
  evidence : List Literal := []
  /-- The rules registered as priors, in order. -/
  priors : List (Rule α) := []
  /-- All other rules, in order. -/
  rules : List (Rule α) := []
  /-- The constants that a constant may share an atom with, where that is limited. -/
  pairings : Option (List (String × List String)) := none
  deriving Repr, Inhabited

/-- The registry after some registrations, and the fault that ended them. -/
abbrev Registered (α : Type) := Registry α × Option RegistryFault

namespace Registry

variable {α : Type}

/-- An empty registry with a default prior that can be used. -/
def create [Scalar α] [Numeral α] (method : MergeMethod) (defaultPrior : α) (hillClimb : Bool)
    (threads : Int) : Except RegistryFault (Registry α) :=
  if zero < defaultPrior && defaultPrior < one then
    .ok { method := method, defaultPrior := defaultPrior, hillClimb := hillClimb,
          threads := threads }
  else .error (.priorOutOfRange (Numeral.text defaultPrior))

/-- An empty registry with a merge method given by its name.  A default prior that cannot be used is
told first. -/
def createNamed [Scalar α] [Numeral α] (method : String) (defaultPrior : α) (hillClimb : Bool)
    (threads : Int) : Except RegistryFault (Registry α) :=
  match create .geometricMean defaultPrior hillClimb threads with
  | .error fault => .error fault
  | .ok r =>
    match MergeMethod.ofName? method with
    | none => .error (.unknownMerge method)
    | some m => .ok { r with method := m }

/-- Makes a registration for every element of a list, up to the first that is refused. -/
def each {β : Type} (f : Registry α → β → Registered α) : Registry α → List β → Registered α
  | r, [] => (r, none)
  | r, b :: bs =>
    match f r b with
    | (r, none) => each f r bs
    | (r, some e) => (r, some e)

/-! ### Domains -/

/-- Names a type, and adds constants to it. -/
def addDomain (r : Registry α) (type : String) (values : List String) : Registry α :=
  { r with domains := r.domains.addAll type values }

/-- Adds a constant to a type. -/
def addConstant (r : Registry α) (type value : String) : Registry α :=
  { r with domains := r.domains.add type value }

/-- Adds several constants, each given with its type. -/
def addConstants (r : Registry α) (constants : List (String × String)) : Registry α :=
  constants.foldl (fun r (value, type) => r.addConstant type value) r

/-! ### Predicates and evidence -/

/-- The declaration of a name. -/
def predicate? (r : Registry α) (name : String) : Option Predicate :=
  r.predicates.find? fun p => p.name == name

/-- Declares a predicate; its types are named with it. -/
def addPredicate (r : Registry α) (p : Predicate) : Registered α :=
  match r.predicate? p.name with
  | some known => (r, if known = p then none else some (.conflict known p))
  | none =>
    ({ r with
        predicates := r.predicates ++ [p]
        domains := (r.domains.declare p.type1).declare p.type2 }, none)

/-- Declares several predicates in the order of their text. -/
def addPredicates (r : Registry α) (ps : List Predicate) : Registered α :=
  each addPredicate r (ps.mergeSort fun p q => p.text ≤ q.text)

/-- Records a ground literal of a closed predicate as certain. -/
def addEvidence (r : Registry α) (l : Literal) : Registered α :=
  match r.predicate? l.name with
  | none => (r, some (.unknownPredicate l.name))
  | some p =>
    if !p.closed then (r, some (.openEvidence p))
    else if !(isConstant l.arg1 && isConstant l.arg2) then (r, some (.notGround l))
    else
      ({ (r.addConstant p.type1 l.arg1).addConstant p.type2 l.arg2 with
          evidence := r.evidence ++ [l] }, none)

/-- The true evidence for a predicate, in order. -/
def trueEvidence (r : Registry α) (name : String) : List Literal :=
  r.evidence.filter fun l => l.name == name && l.truth

/-- Limits the constants that may share an atom, or lifts the limit. -/
def setPairings (r : Registry α) (pairings : Option (List (String × List String))) :
    Registry α :=
  { r with pairings := pairings }

/-- Whether two constants may share an atom. -/
def mayPair (r : Registry α) (first second : String) : Bool :=
  match r.pairings with
  | none => true
  | some table =>
    match table.reverse.find? fun e => e.1 == first with
    | none => true
    | some e => e.2.contains second

/-- Says whether a search climbs from time to time. -/
def setHillClimb (r : Registry α) (b : Bool) : Registry α :=
  { r with hillClimb := b }

/-! ### Rules -/

/-- Adds a token to a type if it is a constant. -/
def addIfConstant (r : Registry α) (type token : String) : Registry α :=
  if isConstant token then r.addConstant type token else r

/-- Adds the constants of a literal to the types of its predicate; an equality has no types. -/
def addLiteralConstants (r : Registry α) (l : Literal) : Registered α :=
  if l.isEquality then (r, none)
  else
    match r.predicate? l.name with
    | none => (r, some (.unknownPredicate l.name))
    | some p => ((r.addIfConstant p.type1 l.arg1).addIfConstant p.type2 l.arg2, none)

/-- Adds the constants of a rule, literal by literal. -/
def addRuleConstants (r : Registry α) (rule : Rule α) : Registered α :=
  each addLiteralConstants r rule.literals

/-- Registers a rule as a prior; it has one literal. -/
def addPrior [Scalar α] [Numeral α] (r : Registry α) (rule : Rule α) : Registered α :=
  if rule.literals.length ≠ 1 then (r, some (.notUnit rule.text))
  else
    match r.addRuleConstants rule with
    | (r, none) => ({ r with priors := r.priors ++ [rule] }, none)
    | (r, some e) => (r, some e)

/-- Registers a rule. -/
def addRule (r : Registry α) (rule : Rule α) : Registered α :=
  match r.addRuleConstants rule with
  | (r, none) => ({ r with rules := r.rules ++ [rule] }, none)
  | (r, some e) => (r, some e)

/-- Registers a rule of a program: a hard ground literal of a closed predicate is evidence. -/
def addProgramRule [Scalar α] (r : Registry α) (rule : Rule α) : Registered α :=
  match rule.literals with
  | [l] =>
    if rule.isHard then
      match r.predicate? l.name with
      | none => (r, some (.unknownPredicate l.name))
      | some p =>
        if p.closed && isConstant l.arg1 && isConstant l.arg2 then r.addEvidence l
        else r.addRule rule
    else r.addRule rule
  | _ => r.addRule rule

/-- Registers the predicates and rules of a program. -/
def addProgram [Scalar α] (r : Registry α) (p : Program α) : Registered α :=
  match r.addPredicates p.predicates with
  | (r, none) => each addProgramRule r p.rules
  | (r, some e) => (r, some e)

end Registry

end FactNet
