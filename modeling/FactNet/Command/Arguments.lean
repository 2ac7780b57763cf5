import FactNet.Text.Split

/-!
# Arguments of commands

The command line is a command with options and operands:

    kbpinfer [-v] validate RULES
    kbpinfer [-v] acyclic RULES [-o FILE] [--ascending]
    kbpinfer [-v] infer FACTS --pivot NAME [--pivot-type TYPE] [--rules FILE ...]
                        [--engine KIND] [-o FILE]

An option may be cut short as long as it stays the only one with that start, and its value may
follow an equals sign.  Short options may be written together, and a value right after them.
Two dashes end the options.  A number below zero is an operand, and so is an argument with a
space in it that is no option.

## Main definitions

* `OptionSpec`, `Grammar` — the options of a command, and its operand.
* `Argument`, `classify` — an argument as it is understood.
* `Parsed`, `parseWith` — the options and operands that are found.
* `Command`, `parseArguments` — the command that is asked for.
-/

namespace FactNet.Command

open FactNet.Text

/-! ### Options -/

/-- How many values an option takes. -/
inductive Arity where
  /-- None: the option is there or it is not. -/
  | none
  /-- One. -/
  | one
  /-- One or more. -/
  | some
  deriving DecidableEq, Repr, Inhabited

/-- What the presence of an option means. -/
inductive OptionKind where
  /-- Help is asked for. -/
  | help
  /-- The version is asked for. -/
  | version
  /-- A setting of the command. -/
  | setting
  deriving DecidableEq, Repr, Inhabited

/-- An option. -/
structure OptionSpec where
  /-- The ways to write it. -/
  names : List String
  /-- How many values it takes. -/
  arity : Arity := .none
  /-- The values that are allowed, if they are limited. -/
  choices : Option (List String) := .none
  /-- What it means. -/
  kind : OptionKind := .setting
  /-- Whether it has to be there. -/
  needed : Bool := false
  deriving DecidableEq, Repr, Inhabited

/-- The name that stands for an option: the last way to write it. -/
def OptionSpec.key (o : OptionSpec) : String := o.names.getLast?.getD ""

/-- The options of a command. -/
abbrev Options := List OptionSpec

/-- The option that is written in exactly this way. -/
def spelled? (options : Options) (name : String) : Option OptionSpec :=
  options.find? fun o => o.names.contains name

/-! ### Arguments -/

/-- What an argument holds beside the name of an option. -/
inductive Attached where
  /-- Nothing. -/
  | nothing
  /-- A value after an equals sign. -/
  | value (cs : List Char)
  /-- A value, or the letters of other options, right after a short option. -/
  | rest (cs : List Char)
  deriving DecidableEq, Repr, Inhabited

/-- An argument as it is understood. -/
inductive Argument where
  /-- An option, with what is attached to it. -/
  | option (spec : OptionSpec) (attached : Attached)
  /-- An operand, or the value of an option. -/
  | plain (s : String)
  /-- Two dashes. -/
  | dashes
  /-- Something that looks like an option and is none. -/
  | unknown
  /-- The start of several options. -/
  | ambiguous
  deriving Repr, Inhabited

/-- Whether a text is a number below zero. -/
def isNegativeNumber (cs : List Char) : Bool :=
  match cs with
  | '-' :: rest =>
    let whole := rest.takeWhile Char.isDigit
    match rest.dropWhile Char.isDigit with
    | [] => !whole.isEmpty
    | '.' :: places => !places.isEmpty && places.all Char.isDigit
    | _ => false
  | _ => false

/-- The text before the first equals sign, and what is attached by it. -/
def cutAtEquals (cs : List Char) : List Char × Attached :=
  match cutAt? ['='] cs with
  | some (first, rest) => (first, .value rest)
  | .none => (cs, .nothing)

/-- The options with a way of writing that starts with a text. -/
def startingWith (options : Options) (start : List Char) : List OptionSpec :=
  options.flatMap fun o =>
    (o.names.filter fun name => (dropPrefix? start name.toList).isSome).map fun _ => o

/-- The options that an argument may be meant for: a long one that is cut short, or a short one with
the rest of the argument attached. -/
def meantFor (options : Options) (cs : List Char) : List (OptionSpec × Attached) :=
  match cs with
  | '-' :: '-' :: _ =>
    let (start, attached) := cutAtEquals cs
    (startingWith options start).map fun o => (o, attached)
  | '-' :: c :: rest =>
    (options.filter fun o => o.names.contains (String.ofList ['-', c])).map fun o => (o, .rest rest)
  | _ => []

/-- How an argument is understood. -/
def classify (options : Options) (s : String) : Argument :=
  let cs := s.toList
  match cs with
  | '-' :: _ :: _ =>
    if s == "--" then .dashes
    else
      let (name, attached) := cutAtEquals cs
      match spelled? options s, spelled? options (String.ofList name) with
      | .some o, _ => .option o .nothing
      | .none, .some o => .option o attached
      | .none, .none =>
        match meantFor options cs with
        | [(o, attached)] => .option o attached
        | _ :: _ :: _ => .ambiguous
        | [] => if isNegativeNumber cs || cs.contains ' ' then .plain s else .unknown
  | _ => .plain s

/-- How arguments are understood: all that follow two dashes are plain. -/
def classifyAll (options : Options) : List String → List Argument
  | [] => []
  | s :: rest =>
    match classify options s with
    | .dashes => .dashes :: rest.map .plain
    | a => a :: classifyAll options rest

/-! ### Parsing -/

/-- Why the arguments are not run as a command. -/
inductive Ending where
  /-- Help is asked for. -/
  | help
  /-- The version is asked for. -/
  | version
  /-- They are wrong. -/
  | misused
  deriving DecidableEq, Repr, Inhabited

/-- Options with their values, and operands. -/
structure Parsed where
  /-- The options that were found, with their values, the last one last. -/
  values : List (String × List String) := []
  /-- The operands. -/
  operands : List String := []
  /-- Whether something was left over. -/
  leftOver : Bool := false
  deriving Repr, Inhabited

namespace Parsed

/-- The values of an option, if it was found; of several times the last one counts. -/
def get? (p : Parsed) (key : String) : Option (List String) :=
  (p.values.reverse.find? fun v => v.1 == key).map (·.2)

/-- Whether an option was found. -/
def has (p : Parsed) (key : String) : Bool := (p.get? key).isSome

/-- The value of an option. -/
def one? (p : Parsed) (key : String) : Option String :=
  match p.get? key with
  | .some (v :: _) => .some v
  | _ => .none

/-- Adds an option with its values, which have to be allowed. -/
def add (p : Parsed) (o : OptionSpec) (values : List String) : Except Ending Parsed :=
  match o.kind with
  | .help => .error .help
  | .version => .error .version
  | .setting =>
    if o.choices.any fun allowed => values.any fun v => !allowed.contains v then .error .misused
    else .ok { p with values := p.values ++ [(o.key, values)] }

end Parsed

/-- Options that are written as one argument. -/
structure Group where
  /-- Those without values, the first one last. -/
  flags : List OptionSpec
  /-- The last one, unless its letter means nothing. -/
  last : Option OptionSpec
  /-- The value attached to it. -/
  value : Option String
  deriving Repr, Inhabited

/-- The options that an option and the letters after it stand for.  Letters after an option that
takes a value are its value; an equals sign may come before it. -/
def together (options : Options) (o : OptionSpec) (flags : List OptionSpec) :
    List Char → Except Ending Group
  | [] => .ok ⟨flags, .some o, .none⟩
  | c :: cs =>
    if o.arity ≠ .none then
      .ok ⟨flags, .some o, .some (String.ofList (if c = '=' then cs else c :: cs))⟩
    else if c = '-' || c = '=' then .error .misused
    else
      match spelled? options (String.ofList ['-', c]) with
      | .some next => together options next (o :: flags) cs
      | .none => .ok ⟨o :: flags, .none, .none⟩

/-- The options that an argument stands for. -/
def groupOf (options : Options) (o : OptionSpec) : Attached → Except Ending Group
  | .nothing => .ok ⟨[], .some o, .none⟩
  | .value cs =>
    if o.arity = .none then .error .misused else .ok ⟨[], .some o, .some (String.ofList cs)⟩
  | .rest cs => together options o [] cs

/-- The values that stand at the front. -/
def plainFront : List Argument → List String
  | .plain s :: rest => s :: plainFront rest
  | _ => []

/-- The values for an option, and how many arguments they take up. -/
def valuesFor (o : OptionSpec) (value : Option String) (rest : List Argument) :
    Except Ending (List String × Nat) :=
  match o.arity, value, plainFront rest with
  | .none, .none, _ => .ok ([], 0)
  | .none, .some _, _ => .error .misused
  | _, .some s, _ => .ok ([s], 0)
  | .one, .none, s :: _ => .ok ([s], 1)
  | .some, .none, s :: more => .ok (s :: more, (s :: more).length)
  | _, .none, [] => .error .misused

/-- Adds options without values. -/
def addFlags (p : Parsed) : List OptionSpec → Except Ending Parsed
  | [] => .ok p
  | o :: os =>
    match p.add o [] with
    | .error e => .error e
    | .ok p => addFlags p os

/-- Adds the options that an argument stands for; the answer also says how many of the arguments
after it are taken up. -/
def takeOption (options : Options) (p : Parsed) (o : OptionSpec) (attached : Attached)
    (rest : List Argument) : Except Ending (Parsed × Nat) :=
  match groupOf options o attached with
  | .error e => .error e
  | .ok ⟨flags, .none, _⟩ =>
    (addFlags p flags.reverse).map fun p => ({ p with leftOver := true }, 0)
  | .ok ⟨flags, .some last, value⟩ =>
    match valuesFor last value rest with
    | .error e => .error e
    | .ok (values, taken) =>
      match addFlags p flags.reverse with
      | .error e => .error e
      | .ok p => (p.add last values).map fun p => (p, taken)

/-- How many of the arguments after an operand belong to it: two dashes right after it do. -/
def dashesAfter : List Argument → Nat
  | .dashes :: _ => 1
  | _ => 0

/-- Goes through arguments; `skip` of them have been taken up by an option before.  One operand is
wanted, and any other is left over, and so are two dashes that follow it at a distance. -/
def parseFrom (options : Options) : (skip : Nat) → Parsed → List Argument → Except Ending Parsed
  | _, p, [] => .ok p
  | skip + 1, p, _ :: rest => parseFrom options skip p rest
  | 0, p, a :: rest =>
    match a with
    | .dashes => parseFrom options 0 { p with leftOver := p.leftOver || !p.operands.isEmpty } rest
    | .plain s =>
      if p.operands.isEmpty then
        parseFrom options (dashesAfter rest) { p with operands := [s] } rest
      else parseFrom options 0 { p with leftOver := true } rest
    | .option o attached =>
      match takeOption options p o attached rest with
      | .error e => .error e
      | .ok (p, taken) => parseFrom options taken p rest
    | _ => parseFrom options 0 { p with leftOver := true } rest

/-- Whether some argument is the start of several options. -/
def anyAmbiguous (as : List Argument) : Bool :=
  as.any fun
    | .ambiguous => true
    | _ => false

/-- The options and the operand of a command.  What is needed has to be there, and nothing may be
left over. -/
def parseWith (options : Options) (args : List String) : Except Ending Parsed :=
  let as := classifyAll options args
  if anyAmbiguous as then .error .misused
  else
    match parseFrom options 0 {} as with
    | .error e => .error e
    | .ok p =>
      let missing := options.any fun o => o.needed && !p.has o.key
      if missing || p.operands.isEmpty || p.leftOver then .error .misused else .ok p

/-! ### Commands -/

/-- The request for help. -/
def helpOption : OptionSpec := { names := ["-h", "--help"], kind := .help }

/-- The name of a file to write. -/
def outputOption : OptionSpec := { names := ["-o", "--output"], arity := .one }

/-- The options before the command. -/
def mainOptions : Options :=
  [helpOption, { names := ["--version"], kind := .version }, { names := ["-v", "--verbose"] }]

/-- The options of `validate`. -/
def validateOptions : Options := [helpOption]

/-- The options of `acyclic`. -/
def acyclicOptions : Options := [helpOption, outputOption, { names := ["--ascending"] }]

/-- The options of `infer`. -/
def inferOptions : Options :=
  [helpOption, { names := ["--pivot"], arity := .one, needed := true },
    { names := ["--pivot-type"], arity := .one }, { names := ["--rules"], arity := .some },
    { names := ["--engine"], arity := .one, choices := .some ["rule_match", "probabilistic"] },
    outputOption]

/-- What `infer` is asked to do. -/
structure InferArguments where
  /-- The fact file. -/
  facts : String
  /-- The name of the pivot. -/
  pivot : String
  /-- The name of its type. -/
  pivotType : Option String := .none
  /-- The rule files. -/
  rules : Option (List String) := .none
  /-- The name of the engine. -/
  engine : Option String := .none
  /-- The file to write. -/
  output : Option String := .none
  deriving DecidableEq, Repr, Inhabited

end Command

/-- What is asked for. -/
inductive Command where
  /-- Reading a rule file and counting what is in it. -/
  | validate (rules : String)
  /-- Writing the rules of a file that close no cycle. -/
  | acyclic (rules : String) (output : Option String) (ascending : Bool)
  /-- Inferring facts about an entity. -/
  | infer (arguments : Command.InferArguments)
  deriving DecidableEq, Repr, Inhabited

namespace Command

/-- The command with a name and its arguments. -/
def ofName (name : String) (args : List String) : Except Ending Command :=
  match name with
  | "validate" =>
    (parseWith validateOptions args).map fun p => .validate (p.operands.headD "")
  | "acyclic" =>
    (parseWith acyclicOptions args).map fun p =>
      .acyclic (p.operands.headD "") (p.one? "--output") (p.has "--ascending")
  | "infer" =>
    (parseWith inferOptions args).map fun p =>
      .infer {
        facts := p.operands.headD ""
        pivot := (p.one? "--pivot").getD ""
        pivotType := p.one? "--pivot-type"
        rules := p.get? "--rules"
        engine := p.one? "--engine"
        output := p.one? "--output" }
  | _ => .error .misused

/-- What the arguments ask for. -/
structure Request where
  /-- Whether everything is to be logged. -/
  verbose : Bool := false
  /-- The command, if there is one. -/
  command : Option Command := .none
  deriving Repr, Inhabited

/-- The arguments before the first plain one, and that one with those after it. -/
def splitAtCommand (args : List String) : List String × List String :=
  let isPlain (s : String) : Bool :=
    match classify mainOptions s with
    | .plain _ => true
    | .dashes => true
    | _ => false
  (args.takeWhile fun s => !isPlain s, args.dropWhile fun s => !isPlain s)

/-- What the arguments ask for. -/
def parseArguments (args : List String) : Except Ending Request :=
  -- options before the command belong to the program, those after it to the command
  let (before, rest) := splitAtCommand args
  if anyAmbiguous (classifyAll mainOptions args) then .error .misused
  else
    match parseFrom mainOptions 0 {} (classifyAll mainOptions before) with
    | .error e => .error e
    | .ok p =>
      match rest with
      | [] => if p.leftOver then .error .misused else .ok ⟨p.has "--verbose", .none⟩
      | name :: args =>
        match ofName name args with
        | .error e => .error e
        | .ok command =>
          if p.leftOver then .error .misused else .ok ⟨p.has "--verbose", .some command⟩

end Command

end FactNet
