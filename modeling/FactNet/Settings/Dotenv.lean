import FactNet.Pairs
import FactNet.Text.Lines

/-!
# Environment files

An environment file gives values to names, one a line:

    # a comment
    INFERENCE_DEPTH=4
    export LOG_FILE='logs/a b.log'   # another comment
    INFERENCE_RULES_FILES="${DIR:-rules}/kbp.mln"

A value may be in single or double quotes, and a quoted one may go over several lines.  In
quotes a backslash stands before a quote or a backslash, and in double quotes also before the
letter of a control character.  A name in braces after a dollar sign is replaced by its value:
that given to it earlier in the file, or else that in the environment, or else the default
after `:-`.  A line that cannot be read is passed over, and a name without an equals sign has
no value.

## Main definitions

* `Dotenv.bindings` — the names of a file with their values as they are written.
* `Dotenv.read` — the names of a file with their values.
-/

namespace FactNet.Dotenv

open FactNet.Text

/-- Whether a character ends a line. -/
def isLineEnd (c : Char) : Bool := c == '\n' || c == '\r'

/-- Whether a character is a blank inside a line. -/
def isInnerBlank (c : Char) : Bool := isBlank c && !isLineEnd c

/-- The text without the blanks in front that do not end the line. -/
def skipInner (cs : List Char) : List Char := cs.dropWhile isInnerBlank

/-- What follows the end of the line, if the text is there: nothing but blanks come before it. -/
def endOfLine? (cs : List Char) : Option (List Char) :=
  match skipInner cs with
  | [] => some []
  | '\r' :: '\n' :: rest => some rest
  | c :: rest => if isLineEnd c then some rest else none

/-- What follows the line. -/
def afterLine (cs : List Char) : List Char :=
  (cs.dropWhile fun c => !isLineEnd c).drop 1

/-- What follows a comment, if the text is at one. -/
def skipComment (cs : List Char) : List Char :=
  match skipInner cs with
  | '#' :: rest => rest.dropWhile fun c => !isLineEnd c
  | _ => cs

/-! ### Values -/

/-- Reads up to the closing quote, with the backslashes as they are: the text, and what follows the
quote.  A quote after a backslash closes the text only if no other quote does. -/
def untilQuote? (q : Char) : List Char → Option (List Char × List Char)
  | [] => none
  | '\\' :: c :: cs =>
    if c = q then
      -- the backslash hides the quote if another one closes the text
      match untilQuote? q cs with
      | some (text, rest) => some ('\\' :: c :: text, rest)
      | none => some (['\\'], cs)
    else (untilQuote? q (c :: cs)).map fun (text, rest) => ('\\' :: text, rest)
  | c :: cs =>
    if c = q then some ([], cs) else (untilQuote? q cs).map fun (text, rest) => (c :: text, rest)

/-- What a letter after a backslash stands for between double quotes. -/
def controlOf? : Char → Option Char
  | '\\' => some '\\'
  | '\'' => some '\''
  | '"' => some '"'
  | 'a' => some (Char.ofNat 7)
  | 'b' => some (Char.ofNat 8)
  | 'f' => some (Char.ofNat 12)
  | 'n' => some '\n'
  | 'r' => some '\r'
  | 't' => some '\t'
  | 'v' => some (Char.ofNat 11)
  | _ => none

/-- What a character after a backslash stands for between single quotes. -/
def plainOf? : Char → Option Char
  | '\\' => some '\\'
  | '\'' => some '\''
  | _ => none

/-- The text with the backslashes taken away that mean something. -/
def unescape (meaning : Char → Option Char) : List Char → List Char
  | '\\' :: c :: cs =>
    match meaning c with
    | some d => d :: unescape meaning cs
    | none => '\\' :: unescape meaning (c :: cs)
  | c :: cs => c :: unescape meaning cs
  | [] => []

/-- The text before a comment, which blanks have to precede.  The flag says whether the character
before was a blank. -/
def beforeComment : Bool → List Char → List Char
  | _, [] => []
  | after, c :: cs => if c == '#' && after then [] else c :: beforeComment (isBlank c) cs

/-- Reads a value and what follows it. -/
def readValue? (cs : List Char) : Option (List Char × List Char) :=
  match cs with
  | '\'' :: rest => (untilQuote? '\'' rest).map fun (text, rest) => (unescape plainOf? text, rest)
  | '"' :: rest => (untilQuote? '"' rest).map fun (text, rest) => (unescape controlOf? text, rest)
  | cs =>
    let line := cs.takeWhile fun c => !isLineEnd c
    some (trimEnd (beforeComment false line), cs.drop line.length)

/-! ### Lines -/

/-- Whether a character may stand in a name that is not quoted. -/
def isNameChar (c : Char) : Bool := c != '=' && c != '#' && !isBlank c

/-- The text after the word that marks an exported name, if that stands there. -/
def skipExport (cs : List Char) : List Char :=
  match dropPrefix? ['e', 'x', 'p', 'o', 'r', 't'] cs with
  | some (c :: rest) => if isInnerBlank c then skipInner rest else cs
  | _ => cs

/-- How a line is read: a name with a value, a name alone, or nothing at all. -/
structure Entry where
  /-- The name. -/
  key : Option String
  /-- The value. -/
  value : Option (List Char)
  deriving DecidableEq, Repr, Inhabited

/-- Reads a name, which a comment has none of: the name, and what follows; or the text at which it
cannot be read. -/
def readKey (cs : List Char) : Except (List Char) (Option String × List Char) :=
  match cs with
  | '#' :: _ => .ok (none, cs)
  | '\'' :: rest =>
    let name := rest.takeWhile (· != '\'')
    match name, rest.drop name.length with
    | _ :: _, _ :: after => .ok (some (String.ofList name), after)
    | _, _ => .error cs
  | cs =>
    let name := cs.takeWhile isNameChar
    if name.isEmpty then .error cs
    else .ok (some (String.ofList name), cs.drop name.length)

/-- Reads what follows a name: a value after an equals sign; or the text at which it cannot be
read. -/
def readAssignment (cs : List Char) : Except (List Char) (Option (List Char) × List Char) :=
  match skipInner cs with
  | '=' :: rest =>
    let rest := skipInner rest
    match readValue? rest with
    | some (value, rest) => .ok (some value, rest)
    | none => .error rest
  | cs => .ok (none, cs)

/-- Reads a line, or several if a quoted value goes over them, and what follows; of a line that
cannot be read nothing is kept. -/
def readEntry (cs : List Char) : Option Entry × List Char :=
  match readKey (skipExport cs) with
  | .error rest => (none, afterLine rest)
  | .ok (key, rest) =>
    match readAssignment rest with
    | .error rest => (none, afterLine rest)
    | .ok (value, rest) =>
      let rest := skipComment rest
      match endOfLine? rest with
      | some rest => (some ⟨key, value⟩, rest)
      | none => (none, afterLine rest)

/-- Reads lines.  Each takes a character at least, so their number is fuel enough. -/
def readEntries : Nat → List Char → List Entry
  | 0, _ => []
  | fuel + 1, cs =>
    match trimStart cs with
    | [] => []
    | c :: cs =>
      let (entry, rest) := readEntry (c :: cs)
      entry.toList ++ readEntries fuel rest

/-- The names of a file with their values as they are written. -/
def bindings (text : String) : List (String × Option (List Char)) :=
  let cs := plainLineEnds text.toList
  (readEntries cs.length cs).filterMap fun e => e.key.map fun key => (key, e.value)

/-! ### Replacing names -/

/-- Reads a name, and perhaps a default, between a dollar sign with a brace and the closing
brace. -/
def readReference? (cs : List Char) : Option (String × String × List Char) :=
  let name := cs.takeWhile fun c => c != '\x7d' && c != ':'
  match cs.drop name.length with
  | '\x7d' :: rest => some (String.ofList name, "", rest)
  | ':' :: '-' :: rest =>
    let default := rest.takeWhile (· != '\x7d')
    match rest.drop default.length with
    | '\x7d' :: rest => some (String.ofList name, String.ofList default, rest)
    | _ => none
  | _ => none

/-- The text with names replaced by what they stand for.  Each step takes a character at least, so
their number is fuel enough. -/
def expand (lookup : String → Option String) : Nat → List Char → List Char
  | 0, _ => []
  | fuel + 1, cs =>
    match cs with
    | [] => []
    | '$' :: '\x7b' :: rest =>
      match readReference? rest with
      | some (name, default, rest) =>
        ((lookup name).getD default).toList ++ expand lookup fuel rest
      | none => '$' :: expand lookup fuel ('\x7b' :: rest)
    | c :: rest => c :: expand lookup fuel rest

/-- What a name stands for: its value in the file so far, nothing if it has none there, and else its
value in the environment. -/
def lookupIn (known : List (String × Option String)) (environment : List (String × String))
    (name : String) : Option String :=
  match Pairs.last? known name with
  | some value => some (value.getD "")
  | none => Pairs.last? environment name

/-- The names of a file with their values, after those that are known. -/
def resolve (environment : List (String × String)) :
    List (String × Option String) → List (String × Option (List Char)) →
    List (String × Option String)
  | known, [] => known
  | known, (name, value) :: rest =>
    let expanded := value.map fun cs =>
      String.ofList (expand (lookupIn known environment) (cs.length + 1) cs)
    resolve environment (known ++ [(name, expanded)]) rest

/-- The names of a file with their values; one that comes more than once stands where it came first
and has the value it was given last. -/
def read (environment : List (String × String)) (text : String) :
    List (String × Option String) :=
  Pairs.collapse (resolve environment [] (bindings text))

end FactNet.Dotenv
