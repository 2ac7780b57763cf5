import FactNet.Log.Slot

/-!
# Messages with arguments

The arguments of a message are put into its places one after another, and all of them must be
used.  If the only argument is an object, then places may ask for its members by name.  Two
percent signs stand for one.  A message without arguments is taken as it is.

## Main definitions

* `fillMessage` — a message with its arguments in place.
-/

namespace FactNet

/-- The arguments that a place takes from: those that are left, or the member it asks for. -/
def Slot.arguments (slot : Slot) (named : Option Json) (args : List Json) :
    Except MessageFault (List Json) :=
  match slot.member with
  | none => .ok args
  | some name =>
    match named.bind fun v => v.member? name with
    | some v => .ok [v]
    | none => .error (.noMember name)

/-- Puts arguments into the places of a message.  Every place takes at least one character, so the
number of characters is fuel enough. -/
def fillFrom : Nat → (named : Option Json) → List Json → List Char →
    Except MessageFault (List Char)
  | 0, _, _, _ => .ok []
  | fuel + 1, named, args, cs =>
    match cs with
    | [] => if args.isEmpty || named.isSome then .ok [] else .error .mismatch
    | '%' :: '%' :: rest => (fillFrom fuel named args rest).map ('%' :: ·)
    | '%' :: rest => do
      let (slot, rest) ← readSlot named.isSome rest
      let args ← slot.arguments named args
      let (filled, args) ← slot.fill args
      let more ← fillFrom fuel named args rest
      .ok (filled.toList ++ more)
    | c :: rest => (fillFrom fuel named args rest).map (c :: ·)

/-- A message with its arguments in place; a single object gives its members by name too. -/
def fillMessage (message : String) (args : List Json) : Except MessageFault String :=
  if args.isEmpty then .ok message
  else
    let named :=
      match args with
      | [.object (m :: ms)] => some (.object (m :: ms))
      | _ => none
    let cs := message.toList
    (fillFrom (cs.length + 1) named args cs).map String.ofList

@[simp] theorem fillMessage_nil (message : String) : fillMessage message [] = .ok message := rfl

end FactNet
