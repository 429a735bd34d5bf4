import Ldap.Filter.Wire
import Ldap.Operation.Entry

/-!
# Requests

What a client can ask for. Each request is an element with a tag of its own.
-/

namespace Ldap

open Ber (Element Tag)

/-! ## Bind -/

/-- How a client proves who it is. -/
inductive Credentials where
  | simple (password : List UInt8)
  | sasl (mechanism : String) (credentials : Option (List UInt8))
  deriving DecidableEq, Repr

/-- Credentials for a reader's eye, who does not get to see secrets. -/
def Credentials.describe : Credentials → String
  | .simple [] => "Simple(<empty>)"
  | .simple (_ :: _) => "Simple(<redacted>)"
  | .sasl mechanism credentials =>
    "Sasl \x7b mechanism: " ++ Text.Quoted.encode mechanism ++ ", credentials: "
      ++ quotedOption (credentials.map fun _ => "<redacted>") ++ " \x7d"

/-- Asks to act as someone. -/
structure BindRequest where
  version : Int32
  name : String
  credentials : Credentials
  deriving DecidableEq, Repr

namespace BindRequest

def tag : Tag := 0x60
def simpleTag : Tag := 0x80
def saslTag : Tag := 0xA3

/-- Credentials as an element. A password is the content itself. -/
def encodeCredentials : Credentials → Element
  | .simple password => ⟨simpleTag, password⟩
  | .sasl mechanism credentials =>
    .constructed saslTag (.string mechanism :: credentials.toList.map .octetString)

def encode (r : BindRequest) : Element :=
  .constructed tag
    [.integer r.version.toInt, .string r.name, encodeCredentials r.credentials]

/-- Reads credentials by their tag. A mechanism may come without what goes with it. -/
def decodeCredentials (e : Element) : Except ProtocolError Credentials := do
  if e.tag = simpleTag then return .simple e.content
  else if e.tag = saslTag then
    let members ← e.asSequenceTagged saslTag
    checkCount "SASL credentials" 1 (some 2) members
    match members with
    | [mechanism] => return .sasl (← mechanism.asString) none
    | [mechanism, credentials] => return .sasl (← mechanism.asString) (← credentials.asOctets)
    | _ => throw (.memberCount "SASL credentials" 1 (some 2) members.length)
  else throw (.unknownTag "bind request" e.tag)

/-- Reads a bind request. The credentials come first, so that an error in them is reported before
one in the version or the name. -/
def decode (e : Element) : Except ProtocolError BindRequest := do
  let members ← e.asSequenceTagged tag
  checkCount "bind request" 3 (some 3) members
  match members with
  | [version, name, credentials] =>
    let credentials ← decodeCredentials credentials
    return ⟨← version.asInt32, ← name.asString, credentials⟩
  | _ => throw (.memberCount "bind request" 3 (some 3) members.length)

end BindRequest

/-! ## Search -/

/-- Asks for entries. Four numbers of `deref` have a meaning. -/
structure SearchRequest where
  base : String
  scope : SearchScope
  deref : Int32
  sizeLimit : Int32
  timeLimit : Int32
  typesOnly : Bool
  filter : Filter
  attributes : List String
  deriving DecidableEq, Repr

namespace SearchRequest

def tag : Tag := 0x63

/-- The name of a way to treat aliases. -/
def derefText (deref : Int32) : String :=
  if deref = 0 then "never"
  else if deref = 1 then "searching"
  else if deref = 2 then "finding"
  else if deref = 3 then "always"
  else "DEREF" ++ toString deref.toInt

/-- A search request as an element. What is counted is an integer, what is chosen is enumerated. -/
def encode (r : SearchRequest) : Element :=
  .constructed tag
    [.string r.base, .enumerated r.scope.value.toInt, .enumerated r.deref.toInt,
     .integer r.sizeLimit.toInt, .integer r.timeLimit.toInt, .boolean r.typesOnly,
     r.filter.encode, .sequence (r.attributes.map .string)]

/-- Reads a search request. A scope or a way to treat aliases without a meaning is kept as it is. -/
def decode (e : Element) : Except ProtocolError SearchRequest := do
  let members ← e.asSequenceTagged tag
  checkCount "search request" 8 (some 8) members
  match members with
  | [base, scope, deref, sizeLimit, timeLimit, typesOnly, filter, attributes] =>
    return {
      base := ← base.asString
      scope := ⟨← scope.asEnumerated⟩
      deref := ← deref.asEnumerated
      sizeLimit := ← sizeLimit.asInt32
      timeLimit := ← timeLimit.asInt32
      typesOnly := ← typesOnly.asBoolean
      filter := ← Filter.decode filter
      attributes := ← stringsOf (← attributes.asSequence) }
  | _ => throw (.memberCount "search request" 8 (some 8) members.length)

end SearchRequest

/-! ## Updates -/

/-- Asks for changes to an entry. -/
structure ModifyRequest where
  dn : String
  changes : List Modification
  deriving DecidableEq, Repr

namespace ModifyRequest

def tag : Tag := 0x66

def encode (r : ModifyRequest) : Element :=
  .constructed tag [.string r.dn, .sequence (r.changes.map (·.encode))]

def decode (e : Element) : Except ProtocolError ModifyRequest := do
  let members ← e.asSequenceTagged tag
  checkCount "modify request" 2 (some 2) members
  match members with
  | [dn, changes] => return ⟨← dn.asString, ← (← changes.asSequence).mapM Modification.decode⟩
  | _ => throw (.memberCount "modify request" 2 (some 2) members.length)

end ModifyRequest

/-- Asks for a new entry. -/
structure AddRequest where
  dn : String
  attributes : List Attribute
  deriving DecidableEq, Repr

namespace AddRequest

def tag : Tag := 0x68

def encode (r : AddRequest) : Element :=
  .constructed tag [.string r.dn, .sequence (r.attributes.map (·.encode))]

/-- Reads a request to add an entry. Whether the entry could exist is not asked. -/
def decode (e : Element) : Except ProtocolError AddRequest := do
  let members ← e.asSequenceTagged tag
  checkCount "add request" 2 (some 2) members
  match members with
  | [dn, attributes] => return ⟨← dn.asString, ← (← attributes.asSequence).mapM Attribute.decode⟩
  | _ => throw (.memberCount "add request" 2 (some 2) members.length)

end AddRequest

/-- Asks that an entry be deleted. -/
structure DeleteRequest where
  dn : String
  deriving DecidableEq, Repr

namespace DeleteRequest

def tag : Tag := 0x4A

/-- A request to delete is the name itself under a tag of its own. -/
def encode (r : DeleteRequest) : Element := .stringTagged tag r.dn

def decode (e : Element) : Except ProtocolError DeleteRequest :=
  return ⟨← e.asStringTagged tag⟩

end DeleteRequest

/-- Asks that an entry be renamed or moved. -/
structure ModifyDnRequest where
  dn : String
  newRdn : String
  deleteOldRdn : Bool
  newSuperior : Option String
  deriving DecidableEq, Repr

namespace ModifyDnRequest

def tag : Tag := 0x6C
/-- Stands over the new superior, which is left out if the entry stays where it is. -/
def superiorTag : Tag := 0x80

def encode (r : ModifyDnRequest) : Element :=
  .constructed tag
    ([.string r.dn, .string r.newRdn, .boolean r.deleteOldRdn]
      ++ r.newSuperior.toList.map (.stringTagged superiorTag))

/-- Reads a request for a new name, of three members or four. -/
def decode (e : Element) : Except ProtocolError ModifyDnRequest := do
  let members ← e.asSequenceTagged tag
  checkCount "modify DN request" 3 (some 4) members
  match members with
  | [dn, newRdn, deleteOldRdn] =>
    return ⟨← dn.asString, ← newRdn.asString, ← deleteOldRdn.asBoolean, none⟩
  | [dn, newRdn, deleteOldRdn, superior] =>
    return ⟨← dn.asString, ← newRdn.asString, ← deleteOldRdn.asBoolean,
      ← superior.asStringTagged superiorTag⟩
  | _ => throw (.memberCount "modify DN request" 3 (some 4) members.length)

end ModifyDnRequest

/-! ## Compare -/

/-- Asks whether an entry has a value. -/
structure CompareRequest where
  dn : String
  attr : String
  value : List UInt8
  deriving DecidableEq, Repr

namespace CompareRequest

def tag : Tag := 0x6E

/-- A comparison as an element, with the assertion as a sequence in it. -/
def encode (r : CompareRequest) : Element :=
  .constructed tag [.string r.dn, .sequence [.string r.attr, .octetString r.value]]

def decode (e : Element) : Except ProtocolError CompareRequest := do
  let members ← e.asSequenceTagged tag
  checkCount "compare request" 2 (some 2) members
  match members with
  | [dn, assertion] =>
    let parts ← assertion.asSequence
    checkCount "compare assertion" 2 (some 2) parts
    match parts with
    | [attr, value] => return ⟨← dn.asString, ← attr.asString, ← value.asOctets⟩
    | _ => throw (.memberCount "compare assertion" 2 (some 2) parts.length)
  | _ => throw (.memberCount "compare request" 2 (some 2) members.length)

end CompareRequest

/-! ## Abandon -/

/-- Asks that the answers to another request be given up. -/
structure AbandonRequest where
  target : Int32
  deriving DecidableEq, Repr

namespace AbandonRequest

def tag : Tag := 0x50

def encode (r : AbandonRequest) : Element := .integerTagged tag r.target.toInt

/-- Reads an abandonment. No request has an identifier below zero. -/
def decode (e : Element) : Except ProtocolError AbandonRequest := do
  let target ← e.asInt32Tagged tag
  if target < 0 then throw (.broken (.abandonsNegativeId target))
  return ⟨target⟩

end AbandonRequest

/-! ## Extended -/

/-- Asks for something that an object identifier names. -/
structure ExtendedRequest where
  oid : String
  value : Option (List UInt8)
  deriving DecidableEq, Repr

namespace ExtendedRequest

def tag : Tag := 0x77
def oidTag : Tag := 0x80
def valueTag : Tag := 0x81

def encode (r : ExtendedRequest) : Element :=
  .constructed tag (.stringTagged oidTag r.oid :: r.value.toList.map (⟨valueTag, ·⟩))

/-- Reads an extended request, of one member or two. -/
def decode (e : Element) : Except ProtocolError ExtendedRequest := do
  let members ← e.asSequenceTagged tag
  checkCount "extended request" 1 (some 2) members
  match members with
  | [oid] => return ⟨← oid.asStringTagged oidTag, none⟩
  | [oid, value] => return ⟨← oid.asStringTagged oidTag, ← value.asOctetsTagged valueTag⟩
  | _ => throw (.memberCount "extended request" 1 (some 2) members.length)

end ExtendedRequest
end Ldap
