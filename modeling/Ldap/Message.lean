import Ldap.Ber.Reader
import Ldap.Control.Basic
import Ldap.Operation.Basic

/-!
# Messages

What travels between client and server: an identifier that joins responses to their request, an
operation, and controls. Messages are read off a stream; an error in a message whose end is known
leaves the stream usable, and one that arises after the identifier was read carries it.
-/

namespace Ldap

open Ber (Element Reader ReadM Cursor Tag)

/-- An operation with the identifier of its request, zero if there was none, and controls. -/
structure Message where
  id : Int32
  op : Operation
  controls : List Control
  deriving DecidableEq, Repr

/-- Reading of messages, which keeps the state of the reader when it fails. -/
abbrev MessageM := ExceptT ProtocolError (StateM Reader)

instance : MonadLift ReadM MessageM :=
  ⟨fun m => ExceptT.mk do return (← m.run).mapError .ber⟩

instance : MonadLift (Except ProtocolError) MessageM :=
  ⟨fun x => MonadExcept.ofExcept x⟩

namespace Message

/-! ## Encoding -/

/-- A message as an element. -/
def toElement (m : Message) : Element :=
  .sequence (.integer m.id.toInt :: m.op.encode
    :: (if m.controls.isEmpty then [] else [Control.encodeAll m.controls]))

/-- The bytes of a message. -/
def encode (m : Message) : List UInt8 :=
  m.toElement.encode

/-- The identifiers of controls for a reader's eye. -/
def oidsText (cs : List Control) : String :=
  "\x7b" ++ ", ".intercalate (cs.map (·.oid)) ++ "\x7d"

/-- A message for a reader's eye. -/
def text (m : Message) : String :=
  "LDAPMessage(msgID=" ++ toString m.id.toInt ++ ", protocolOp=" ++ m.op.text
    ++ (if m.controls.isEmpty then "" else ", controls=" ++ oidsText m.controls) ++ ")"

/-! ## Reading -/

/-- Whether the message has more members. -/
def hasMore (envelope : Cursor) : MessageM Bool := do
  let more : Except ProtocolError Bool := (envelope.hasMore (← get).total).mapError .ber
  more

/-- Reads a member that may follow the operation. -/
def readExtra : MessageM Element := do
  let e ← Reader.element
  if e.tag = Control.listTag then return e
  else throw (.unknownTag "LDAP message" e.tag)

/-- Reads the controls, after which the message has to end. -/
def readControls (envelope : Cursor) : MessageM (List Control) := do
  if ← hasMore envelope then
    let controls ← Control.decodeAll (← readExtra)
    if ← hasMore envelope then
      let _ ← readExtra
      throw (.memberCount "LDAP message" 2 (some 3) 4)
    return controls
  else return []

/-- Reads what follows the identifier. -/
def readBody (envelope : Cursor) (id : Int32) : MessageM Message := do
  if id < 0 then throw (.broken (.negativeMessageId id))
  let op ← Reader.element
  let controls ← readControls envelope
  return ⟨id, ← Operation.decode op, controls⟩

/-- Reads the next message; none at the end of the stream. -/
def read : MessageM (Option Message) := do
  match ← Reader.peek with
  | none => return none
  | some _ =>
    let envelope ← Reader.begin
    if envelope.tag ≠ .sequence then throw (.unknownTag "LDAP message" envelope.tag)
    let id ← Reader.int32
    let m ← tryCatch (readBody envelope id) fun e => throw (e.withMessageId id)
    return some m

/-- Reads bytes that hold exactly one message, of which no element is longer than `limit`. -/
def decodeWithin (limit : Nat) (bytes : List UInt8) : Except ProtocolError Message :=
  match read.run.run (Reader.ofSource (.ofBytes bytes) limit) with
  | (.error e, _) => .error e
  | (.ok none, _) => .error (.ber .endOfInput)
  | (.ok (some m), reader) =>
    if reader.total < bytes.length then
      .error (.ber (.trailingBytes (bytes.length - reader.total)))
    else .ok m

/-- Reads bytes that hold exactly one message. -/
def decode (bytes : List UInt8) : Except ProtocolError Message :=
  decodeWithin Ber.defaultLimit bytes

end Message
end Ldap
