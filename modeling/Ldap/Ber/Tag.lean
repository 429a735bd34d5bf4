/-!
# Identifier octets

A tag is one octet: two class bits, one bit for constructed content, and a number below 32.
-/

namespace Ldap.Ber

/-- The identifier octet of an element. -/
abbrev Tag := UInt8

/-- The class that the two high bits of a tag name. -/
inductive TagClass where
  | universal
  | application
  | contextSpecific
  | privateUse
  deriving DecidableEq, Repr

/-- The name of a tag class. -/
def TagClass.name : TagClass → String
  | .universal => "Universal"
  | .application => "Application"
  | .contextSpecific => "ContextSpecific"
  | .privateUse => "Private"

/-- The class bits of a tag class, in the place they have in a tag. -/
def TagClass.bits : TagClass → UInt8
  | .universal => 0x00
  | .application => 0x40
  | .contextSpecific => 0x80
  | .privateUse => 0xC0

namespace Tag

def boolean : Tag := 0x01
def integer : Tag := 0x02
def octetString : Tag := 0x04
def null : Tag := 0x05
def enumerated : Tag := 0x0A
def sequence : Tag := 0x30
def set : Tag := 0x31

/-- The bit that marks constructed content. -/
def constructedBit : UInt8 := 0x20

/-- The bits that hold the tag number. -/
def numberMask : UInt8 := 0x1F

/-- The class of a tag. -/
def tagClass (t : Tag) : TagClass :=
  if t < 0x40 then .universal
  else if t < 0x80 then .application
  else if t < 0xC0 then .contextSpecific
  else .privateUse

/-- Whether a tag marks constructed content. -/
def isConstructed (t : Tag) : Bool :=
  t &&& constructedBit != 0

/-- The primitive context-specific tag with a number, of which five bits count. -/
def context (number : UInt8) : Tag :=
  TagClass.contextSpecific.bits ||| (number &&& numberMask)

/-- The constructed context-specific tag with a number, of which five bits count. -/
def contextConstructed (number : UInt8) : Tag :=
  context number ||| constructedBit

/-- The primitive application tag with a number, of which five bits count. -/
def application (number : UInt8) : Tag :=
  TagClass.application.bits ||| (number &&& numberMask)

/-- The constructed application tag with a number, of which five bits count. -/
def applicationConstructed (number : UInt8) : Tag :=
  application number ||| constructedBit

end Tag
end Ldap.Ber
