import FactNet.Text.Blank
import FactNet.Text.Digit
import FactNet.Text.Quoted

/-!
# Sizes of log files

A log file is put aside when it reaches a size, which is given as a number of bytes,
kilobytes, megabytes or gigabytes, such as `10MB`.  The unit may be in small letters, and the
Kelvin sign is taken for a letter of it; but there is no unit that is spelled with it.

## Main definitions

* `SizeFault` — why a text is no size.
* `parseSize` — the number of bytes that a text stands for.
-/

namespace FactNet

open FactNet.Text

/-- Why a text is no size. -/
inductive SizeFault where
  /-- It is not a number with a unit. -/
  | malformed (text : String)
  /-- There is no such unit. -/
  | unknownUnit (unit : String)
  deriving DecidableEq, Repr, Inhabited

/-- A fault in words. -/
def SizeFault.message : SizeFault → String
  | .malformed text => "Invalid size format: " ++ quote text ++ ". Use e.g. '10MB'."
  | .unknownUnit unit => quote unit

/-- The number of bytes of a unit. -/
def bytesOfUnit? : List Char → Option Nat
  | ['B'] => some 1
  | ['K', 'B'] => some 1024
  | ['M', 'B'] => some (1024 * 1024)
  | ['G', 'B'] => some (1024 * 1024 * 1024)
  | _ => none

/-- The Kelvin sign. -/
def kelvinSign : Char := Char.ofNat 0x212a

/-- A letter of a unit, a Kelvin sign being taken for a K. -/
def unitLetter (c : Char) : Char :=
  if c = kelvinSign then 'K' else c.toUpper

/-- The number of bytes that a text stands for. -/
def parseSize (text : String) : Except SizeFault Nat :=
  let cs := trim text.toList
  let digits := cs.takeWhile isDigit
  let unit := trimStart (cs.dropWhile isDigit)
  if digits.isEmpty || (bytesOfUnit? (unit.map unitLetter)).isNone then .error (.malformed text)
  else
    let capital := unit.map Char.toUpper
    match bytesOfUnit? capital with
    | some bytes => .ok (naturalOf digits * bytes)
    | none => .error (.unknownUnit (String.ofList capital))

end FactNet
