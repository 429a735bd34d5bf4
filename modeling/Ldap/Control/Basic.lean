import Ldap.ProtocolError

/-!
# Controls

A control extends a request or a response. It names its type and may hold a value in an encoding
that the type lays down. `ControlType` joins a type of values with their controls.
-/

namespace Ldap

open Ber (Element Tag)

/-- A control of any type. A peer that does not know a critical one has to refuse the request. -/
structure Control where
  oid : String
  critical : Bool
  value : Option (List UInt8)
  deriving DecidableEq, Repr

namespace Control

/-- The tag of the controls of a message. -/
def listTag : Tag := 0xA0

/-! ## On the wire -/

/-- A control as an element. -/
def encode (c : Control) : Element :=
  .sequence (.string c.oid :: (if c.critical then [.boolean true] else [])
    ++ c.value.toList.map .octetString)

/-- Reads the members after the identifier: at first a criticality may come, then a value. -/
def decodeTail (oid : String) : List Element → Except ProtocolError Control
  | [] => .ok ⟨oid, false, none⟩
  | e :: es =>
    if e.tag = .boolean then do
      let critical ← e.asBoolean
      decodeValue critical es
    else decodeValue false (e :: es)
where
  /-- Reads the value, after which nothing may come. -/
  decodeValue (critical : Bool) : List Element → Except ProtocolError Control
    | [] => .ok ⟨oid, critical, none⟩
    | e :: es =>
      if e.tag = .octetString then
        match es with
        | [] => .ok ⟨oid, critical, some e.content⟩
        | extra :: _ => .error (.unknownTag "control" extra.tag)
      else .error (.unknownTag "control" e.tag)

/-- Reads a control. -/
def decode (e : Element) : Except ProtocolError Control := do
  let members ← e.asSequence
  checkCount "control" 1 (some 3) members
  match members with
  | oid :: rest => decodeTail (← oid.asString) rest
  | [] => throw (.memberCount "control" 1 (some 3) 0)

/-- Controls as the element that ends a message. -/
def encodeAll (cs : List Control) : Element :=
  .constructed listTag (cs.map encode)

/-- Reads the controls of a message. -/
def decodeAll (e : Element) : Except ProtocolError (List Control) := do
  (← e.asSequenceTagged listTag).mapM decode

/-! ## Values -/

/-- A control whose value is an element. -/
def withElement (oid : String) (critical : Bool) (e : Element) : Control :=
  ⟨oid, critical, some e.encode⟩

/-- A control whose value is a text. -/
def withText (oid : String) (critical : Bool) (s : String) : Control :=
  ⟨oid, critical, some (Text.Utf8.encode s)⟩

/-- The value, which has to be there. -/
def requiredValue (c : Control) : Except ProtocolError (List UInt8) :=
  match c.value with
  | some value => .ok value
  | none => .error (.missingValue c.oid)

/-- The value as an element. -/
def valueElement (c : Control) : Except ProtocolError Element := do
  let value ← c.requiredValue
  Element.decode value

/-- The members of a value that is a sequence of some length. -/
def valueMembers (c : Control) (context : String) (min : Nat) (max : Option Nat) :
    Except ProtocolError (List Element) := do
  let members ← (← c.valueElement).asSequence
  checkCount context min max members
  return members

/-- Refuses a value. -/
def expectNoValue (c : Control) (name : String) : Except ProtocolError Unit :=
  if c.value.isSome then .error (.broken (.unexpectedValue name c.oid)) else .ok ()

/-- Refuses a control that may be ignored. -/
def expectCritical (c : Control) (name : String) : Except ProtocolError Unit :=
  if c.critical then .ok () else .error (.broken (.notCritical name c.oid))

end Control

/-- Reads the octet string in front of some members, if there is a member. -/
def firstOctets? : List Element → Except ProtocolError (Option (List UInt8))
  | [] => .ok none
  | e :: _ => do return some (← e.asOctets)

/-- A type of values that travel as controls with an identifier of their own. -/
class ControlType (α : Type) where
  /-- The identifier that the controls have. -/
  oid : String
  /-- The name of the type for a reader's eye. -/
  name : String
  /-- Whether a control of the type is critical unless it is said to be or not to be. -/
  critical : Bool := false
  /-- Reads a control, of which the identifier was looked at already. -/
  ofControl : Control → Except ProtocolError α
  /-- The control that stands for a value. -/
  toControl : α → Control

namespace ControlType

/-- Reads the first control with the identifier of a type, if there is one. -/
def find? (α : Type) [ControlType α] (cs : List Control) : Except ProtocolError (Option α) :=
  match cs.find? (·.oid = oid α) with
  | none => .ok none
  | some c => (ofControl c).map some

end ControlType
end Ldap
