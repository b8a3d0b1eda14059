import Fixbolt.Codec.Parse

/-!
# Before there is a session

A stage of its own owns a socket until the Logon that says who it belongs to has arrived. It takes
one complete message and reads the bytes themselves, field by field, with no dictionary and no
parse.
-/

namespace Fixbolt

/-- The two sides a message names, in wire order. -/
structure Identity where
  /-- `49=`. -/
  sender : Bytes
  /-- `56=`. -/
  target : Bytes
  /-- `50=`, when the message carries one. -/
  senderSub : Option Bytes
  /-- `57=`, when the message carries one. -/
  targetSub : Option Bytes
deriving DecidableEq, Repr

/-- The loop of `fieldValue`, from the field that begins at `at_`. -/
def fieldValueLoop (msg tag : Bytes) : ℕ → ℕ → Option Bytes
  | 0, _ => none
  | fuel + 1, at_ =>
    if msg.length ≤ at_ then none
    else match findSoh msg at_ with
      | none => none
      | some end_ =>
        match tag.isPrefixOf? ((msg.drop at_).take (end_ - at_)) with
        | some value => some value
        | none => fieldValueLoop msg tag fuel (end_ + 1)

/-- The value of the first field whose tag is `tag`, which must include the `=`. Every pass of the
loop moves on by at least one byte. -/
def fieldValue (msg tag : Bytes) : Option Bytes := fieldValueLoop msg tag (msg.length + 1) 0

/-- Both sides of one complete message, or `none` if it does not name both. -/
def identityOf (msg : Bytes) : Option Identity := do
  return {
    sender := ← fieldValue msg (ascii "49=")
    target := ← fieldValue msg (ascii "56=")
    senderSub := fieldValue msg (ascii "50=")
    targetSub := fieldValue msg (ascii "57=") }

/-- Is this complete message a Logon? -/
def isLogon (msg : Bytes) : Bool := fieldValue msg (ascii "35=") == some (ascii "A")

end Fixbolt
