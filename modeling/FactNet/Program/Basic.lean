import FactNet.Scalar
import FactNet.Text.Capital

/-!
# Rule programs

A program declares predicates over two typed arguments and gives weighted clauses.  A clause
is a disjunction of literals; read as an implication, its negated literals are the body and
its positive literal is the head.  A weight above all numbers makes a clause a hard
constraint.

The predicates of a program form a set.  They are kept in the order of their text, so that
equal sets are equal lists.

## Main definitions

* `isConstant` — whether a token names a constant.
* `Predicate`, `Literal`, `Rule`, `Program`.
* `Program.ofParts`, `Program.union`, `Program.without`, `Program.withRules`.
* `Program.get?` — the declaration of a name.
-/

namespace FactNet

open FactNet.Text

/-- Whether a token names a constant; any other token is a variable. -/
def isConstant (token : String) : Bool :=
  match token.toList with
  | [] => false
  | c :: _ => isCapital c

/-! ### Predicates -/

/-- A relation between an argument of one type and an argument of another. -/
structure Predicate where
  /-- The name. -/
  name : String
  /-- The type of the first argument. -/
  type1 : String
  /-- The type of the second argument. -/
  type2 : String
  /-- Whether the atoms that are not given as evidence are false. -/
  closed : Bool := false
  deriving DecidableEq, Repr, Inhabited

namespace Predicate

/-- The predicate with unknown atoms left open. -/
def asOpen (p : Predicate) : Predicate := { p with closed := false }

/-- The predicate with unknown atoms taken as false. -/
def asClosed (p : Predicate) : Predicate := { p with closed := true }

/-- A predicate as it is declared: a star marks a closed one. -/
def text (p : Predicate) : String :=
  (if p.closed then "*" else "") ++ p.name ++ "(" ++ p.type1 ++ "," ++ p.type2 ++ ")"

/-- What predicates are ordered by: their text, then their parts. -/
def key (p : Predicate) : List String :=
  [p.text, p.name, p.type1, p.type2]

/-- Puts a predicate in its place among ordered predicates, if it is not there yet. -/
def insertInto (p : Predicate) : List Predicate → List Predicate
  | [] => [p]
  | q :: qs =>
    if p.key < q.key then p :: q :: qs
    else if q.key < p.key then q :: insertInto p qs
    else q :: qs

/-- Whether predicates stand in order, each once. -/
abbrev Ordered (ps : List Predicate) : Prop :=
  ps.Pairwise fun p q => p.key < q.key

theorem mem_of_mem_insertInto {p x : Predicate} {ps : List Predicate}
    (h : x ∈ p.insertInto ps) : x = p ∨ x ∈ ps := by
  induction ps with
  | nil => simpa [insertInto] using h
  | cons q qs ih =>
    simp only [insertInto] at h
    split at h
    · simpa using h
    · split at h
      · rcases List.mem_cons.1 h with h | h
        · simp [h]
        · rcases ih h with h | h <;> simp [h]
      · simp [List.mem_cons.1 h]

theorem Ordered.insertInto {ps : List Predicate} (h : Ordered ps) (p : Predicate) :
    Ordered (p.insertInto ps) := by
  induction ps with
  | nil => simp [Ordered, Predicate.insertInto]
  | cons q qs ih =>
    have ⟨hq, hqs⟩ := List.pairwise_cons.1 h
    simp only [Predicate.insertInto]
    split
    · rename_i hp
      refine List.pairwise_cons.2 ⟨fun x hx => ?_, h⟩
      rcases List.mem_cons.1 hx with rfl | hx
      · exact hp
      · exact List.lt_trans hp (hq x hx)
    · split
      · rename_i hqp
        refine List.pairwise_cons.2 ⟨fun x hx => ?_, ih hqs⟩
        rcases mem_of_mem_insertInto hx with rfl | hx
        · exact hqp
        · exact hq x hx
      · exact h

/-- The set of some predicates, in order. -/
def setOf (ps : List Predicate) : List Predicate :=
  ps.foldl (fun acc p => p.insertInto acc) []

theorem ordered_foldl_insertInto (ps : List Predicate) {acc : List Predicate} (h : Ordered acc) :
    Ordered (ps.foldl (fun acc p => p.insertInto acc) acc) := by
  induction ps generalizing acc with
  | nil => exact h
  | cons p ps ih => exact ih (h.insertInto p)

theorem ordered_setOf (ps : List Predicate) : Ordered (setOf ps) :=
  ordered_foldl_insertInto ps List.Pairwise.nil

end Predicate

/-! ### Literals -/

/-- The name of the built-in equality. -/
def equalsName : String := "="

/-- A predicate applied to two tokens, or its negation. -/
structure Literal where
  /-- The name of the predicate. -/
  name : String
  /-- The first argument. -/
  arg1 : String
  /-- The second argument. -/
  arg2 : String
  /-- Whether the literal is positive. -/
  truth : Bool := true
  deriving DecidableEq, Repr, Inhabited, Hashable

namespace Literal

/-- Whether a literal compares its arguments. -/
def isEquality (l : Literal) : Bool := l.name == equalsName

/-- The literal about other arguments. -/
def withArgs (l : Literal) (arg1 arg2 : String) : Literal :=
  { l with arg1 := arg1, arg2 := arg2 }

/-- The literal without its negation. -/
def asTrue (l : Literal) : Literal := { l with truth := true }

/-- The literal negated. -/
def asFalse (l : Literal) : Literal := { l with truth := false }

/-- The opposite literal. -/
def negate (l : Literal) : Literal := { l with truth := !l.truth }

/-- A literal as it is written; an equality stands between its arguments. -/
def text (l : Literal) : String :=
  if l.isEquality then l.arg1 ++ (if l.truth then " = " else " != ") ++ l.arg2
  else (if l.truth then "" else "!") ++ l.name ++ "(" ++ l.arg1 ++ "," ++ l.arg2 ++ ")"

@[simp] theorem asTrue_asTrue (l : Literal) : l.asTrue.asTrue = l.asTrue := rfl

@[simp] theorem negate_negate (l : Literal) : l.negate.negate = l := by
  cases l
  simp [negate]

end Literal

/-! ### Rules -/

/-- A weighted disjunction of literals. -/
structure Rule (α : Type) where
  /-- The weight. -/
  weight : α
  /-- The literals, in order. -/
  literals : List Literal
  deriving Repr, Inhabited

namespace Rule

variable {α : Type}

instance [BEq α] : BEq (Rule α) where
  beq r s := r.weight == s.weight && r.literals == s.literals

/-- Whether a rule is a hard constraint. -/
def isHard [Scalar α] (r : Rule α) : Bool := r.weight == Scalar.top

/-- The negated literals, the body of the implication. -/
def antecedents (r : Rule α) : List Literal :=
  r.literals.filter fun l => !l.truth

/-- The first positive literal, if there is any. -/
def consequent? (r : Rule α) : Option Literal :=
  r.literals.find? (·.truth)

/-- A rule as it is written: a period ends a hard one, and a weight starts any other. -/
def text [Scalar α] [Numeral α] (r : Rule α) : String :=
  let body := " v ".intercalate (r.literals.map Literal.text)
  if r.isHard then body ++ "." else Numeral.text r.weight ++ " " ++ body

/-- What is said of a rule whose head is asked for and which has none. -/
def noConsequentMessage [Scalar α] [Numeral α] (r : Rule α) : String :=
  "Rule has no consequent: " ++ r.text

end Rule

/-! ### Programs -/

/-- The declared predicates and the rules over them. -/
structure Program (α : Type) where
  /-- The predicates, each once, in the order of their text. -/
  predicates : List Predicate
  /-- The rules. -/
  rules : List (Rule α)
  /-- The predicates stand in order. -/
  ordered : Predicate.Ordered predicates
  deriving Repr

namespace Program

variable {α : Type}

/-- The program without predicates or rules. -/
def empty : Program α := ⟨[], [], List.Pairwise.nil⟩

instance : Inhabited (Program α) := ⟨empty⟩

instance [BEq α] : BEq (Program α) where
  beq p q := p.predicates == q.predicates && p.rules == q.rules

/-- The program with the given predicates, in whatever order and however often, and rules. -/
def ofParts (predicates : List Predicate) (rules : List (Rule α)) : Program α :=
  ⟨Predicate.setOf predicates, rules, Predicate.ordered_setOf predicates⟩

/-- The first declaration of a name, in the order of the predicates' text. -/
def get? (p : Program α) (name : String) : Option Predicate :=
  p.predicates.find? fun q => q.name == name

/-- A rule put after others, unless it is one of them. -/
def addRule [BEq α] (rules : List (Rule α)) (r : Rule α) : List (Rule α) :=
  if rules.any (· == r) then rules else rules ++ [r]

/-- The predicates and rules of both programs.  The rules of the second that the first has, and
those it repeats, are left out. -/
def union [BEq α] (p q : Program α) : Program α :=
  ofParts (p.predicates ++ q.predicates) (q.rules.foldl addRule p.rules)

/-- The program with other rules. -/
def withRules (p : Program α) (rules : List (Rule α)) : Program α :=
  { p with rules := rules }

/-- The program without the named predicates and without every rule that mentions one. -/
def without (p : Program α) (names : List String) : Program α where
  predicates := p.predicates.filter fun q => !names.contains q.name
  rules := p.rules.filter fun r => !r.literals.any fun l => names.contains l.name
  ordered := p.ordered.filter _

/-- The program with every predicate changed by a function. -/
def mapPredicates (p : Program α) (f : Predicate → Predicate) : Program α :=
  ofParts (p.predicates.map f) p.rules

/-- The program with every literal of every rule changed by a function. -/
def mapLiterals (p : Program α) (f : Literal → Literal) : Program α :=
  p.withRules (p.rules.map fun r => ⟨r.weight, r.literals.map f⟩)

/-- A program as it is written: the predicates, an empty line, and the rules. -/
def lines [Scalar α] [Numeral α] (p : Program α) : List String :=
  p.predicates.map Predicate.text ++ "" :: p.rules.map Rule.text

/-- The lines of a program in one text. -/
def text [Scalar α] [Numeral α] (p : Program α) : String :=
  "\n".intercalate p.lines

end Program

end FactNet
