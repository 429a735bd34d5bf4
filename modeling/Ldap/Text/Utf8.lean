/-!
# UTF-8

Text as bytes and back. `decode` either gives the text or says where the bytes stop being UTF-8:
`Fault` names the length of the longest valid beginning and the size of the ill-formed part there.
-/

namespace Ldap.Text.Utf8

/-- Why bytes are not UTF-8. `index` is the length of the longest valid beginning. -/
inductive Fault where
  /-- The `size` bytes from `index` on begin no character. -/
  | illFormed (size index : Nat)
  /-- The bytes end inside a character that begins at `index`. -/
  | cutShort (index : Nat)
  deriving DecidableEq, Repr

/-- The wording of a fault. -/
def Fault.message : Fault → String
  | .illFormed size index => s!"invalid utf-8 sequence of {size} bytes from index {index}"
  | .cutShort index => s!"incomplete utf-8 byte sequence from index {index}"

/-- The bytes of a text. -/
def encode (s : String) : List UInt8 :=
  s.toByteArray.data.toList

/-- The text that bytes spell, if they are UTF-8. -/
def decode? (bytes : List UInt8) : Option String :=
  String.fromUTF8? ⟨bytes.toArray⟩

/-! ## Where ill-formed bytes begin -/

/-- What stands at the start of some bytes. -/
inductive Front where
  /-- A whole character of `size` bytes. -/
  | character (size : Nat)
  /-- A part of `size` bytes that no character begins with. -/
  | broken (size : Nat)
  /-- The beginning of a character, cut off by the end of the bytes. -/
  | cut
  deriving DecidableEq, Repr

/-- Whether a byte continues a character. -/
def isTail (b : UInt8) : Bool :=
  0x80 ≤ b && b ≤ 0xBF

/-- How many bytes follow a leading byte, and the range of the first of them. -/
def following (lead : UInt8) : Option (Nat × UInt8 × UInt8) :=
  if lead ≤ 0x7F then some (0, 0x80, 0xBF)
  else if 0xC2 ≤ lead && lead ≤ 0xDF then some (1, 0x80, 0xBF)
  else if lead = 0xE0 then some (2, 0xA0, 0xBF)
  else if lead = 0xED then some (2, 0x80, 0x9F)
  else if 0xE1 ≤ lead && lead ≤ 0xEF then some (2, 0x80, 0xBF)
  else if lead = 0xF0 then some (3, 0x90, 0xBF)
  else if 0xF1 ≤ lead && lead ≤ 0xF3 then some (3, 0x80, 0xBF)
  else if lead = 0xF4 then some (3, 0x80, 0x8F)
  else none

/-- Looks for `owed` more tail bytes after `seen` bytes of a character. -/
def tails (seen : Nat) : Nat → List UInt8 → Front
  | 0, _ => .character seen
  | _ + 1, [] => .cut
  | owed + 1, b :: rest => if isTail b then tails (seen + 1) owed rest else .broken seen

/-- What the bytes `lead :: rest` begin with. -/
def front (lead : UInt8) (rest : List UInt8) : Front :=
  match following lead with
  | none => .broken 1
  | some (0, _, _) => .character 1
  | some (owed + 1, low, high) =>
    match rest with
    | [] => .cut
    | b :: rest => if low ≤ b && b ≤ high then tails 2 owed rest else .broken 1

/-- The first fault after `index` bytes, the next `skip` of which belong to a character that was
already read. -/
def faultFrom (index skip : Nat) : List UInt8 → Option Fault
  | [] => none
  | b :: rest =>
    match skip with
    | skip + 1 => faultFrom (index + 1) skip rest
    | 0 =>
      match front b rest with
      | .character size => faultFrom (index + 1) (size - 1) rest
      | .broken size => some (.illFormed size index)
      | .cut => some (.cutShort index)

/-- The text that bytes spell, or the first fault in them. -/
def decode (bytes : List UInt8) : Except Fault String :=
  match decode? bytes with
  | some s => .ok s
  | none => .error ((faultFrom 0 0 bytes).getD (.illFormed 1 0))

/-! ## Reading past faults -/

/-- The pieces between faults, with the replacement character in place of each ill-formed part. The
next `skip` bytes belong to a part that was already read. -/
def lossyFrom (skip : Nat) : List UInt8 → List UInt8
  | [] => []
  | b :: rest =>
    match skip with
    | skip + 1 => lossyFrom skip rest
    | 0 =>
      match front b rest with
      | .character size => b :: rest.take (size - 1) ++ lossyFrom (size - 1) rest
      | .broken size => encode "\uFFFD" ++ lossyFrom (size - 1) rest
      | .cut => encode "\uFFFD"

/-- The text that bytes spell when each ill-formed part counts as one replacement character. -/
def decodeLossy (bytes : List UInt8) : String :=
  (decode? (lossyFrom 0 bytes)).getD ""

end Ldap.Text.Utf8
