import Ldap.ProtocolError
import Ldap.Text.Lowercase

/-!
# Entries

Attributes with their values, changes to them, and the entries and references that a search finds.
-/

namespace Ldap

open Ber (Element Tag)

/-- Reads a text from each element. -/
def stringsOf (es : List Element) : Except ProtocolError (List String) :=
  es.mapM fun e => e.asString

/-! ## Attributes -/

/-- An attribute with its values. -/
structure Attribute where
  name : String
  values : List (List UInt8)
  deriving DecidableEq, Repr

namespace Attribute

/-- Whether the attribute has a name, in any letter case. -/
def hasName (a : Attribute) (name : String) : Bool :=
  Text.asciiLower a.name == Text.asciiLower name

/-- The values that are text. -/
def strings (a : Attribute) : List String :=
  a.values.filterMap Text.Utf8.decode?

/-- The first value, if there is one and it is text. -/
def firstString? (a : Attribute) : Option String :=
  a.values.head?.bind Text.Utf8.decode?

def encode (a : Attribute) : Element :=
  .sequence [.string a.name, .set (a.values.map .octetString)]

/-- Reads an attribute. Its values are octet strings, and there may be none. -/
def decode (e : Element) : Except ProtocolError Attribute := do
  let members ← e.asSequence
  checkCount "attribute" 2 (some 2) members
  match members with
  | [name, values] =>
    let name ← name.asString
    let values ← (← values.asSet).mapM (m := Except ProtocolError) fun v => v.asOctets
    return ⟨name, values⟩
  | _ => throw (.memberCount "attribute" 2 (some 2) members.length)

end Attribute

/-! ## Changes -/

/-- A change to an attribute; four numbers of `kind` have a meaning. -/
structure Modification where
  kind : Int32
  attr : Attribute
  deriving DecidableEq, Repr

namespace Modification

/-- The name of a kind of change. -/
def kindText (kind : Int32) : String :=
  if kind = 0 then "add"
  else if kind = 1 then "delete"
  else if kind = 2 then "replace"
  else if kind = 3 then "increment"
  else "MOD_TYPE_" ++ toString kind.toInt

def encode (m : Modification) : Element :=
  .sequence [.enumerated m.kind.toInt, m.attr.encode]

def decode (e : Element) : Except ProtocolError Modification := do
  let members ← e.asSequence
  checkCount "modification" 2 (some 2) members
  match members with
  | [kind, attr] => return ⟨← kind.asEnumerated, ← Attribute.decode attr⟩
  | _ => throw (.memberCount "modification" 2 (some 2) members.length)

end Modification

/-! ## What a search finds -/

/-- An entry with the attributes that were asked for. -/
structure Entry where
  dn : String
  attributes : List Attribute
  deriving DecidableEq, Repr

namespace Entry

def tag : Tag := 0x64

/-- The first attribute with a name, in any letter case. -/
def attr? (e : Entry) (name : String) : Option Attribute :=
  e.attributes.find? (·.hasName name)

/-- The first value of an attribute, if it is text. -/
def value? (e : Entry) (name : String) : Option String :=
  (e.attr? name).bind (·.firstString?)

def encode (e : Entry) : Element :=
  .constructed tag [.string e.dn, .sequence (e.attributes.map (·.encode))]

/-- Reads an entry from the members of its element. -/
def ofMembers (members : List Element) : Except ProtocolError Entry := do
  checkCount "search result entry" 2 (some 2) members
  match members with
  | [dn, attributes] => return ⟨← dn.asString, ← (← attributes.asSequence).mapM Attribute.decode⟩
  | _ => throw (.memberCount "search result entry" 2 (some 2) members.length)

/-- Reads an entry under its own tag. -/
def decode (e : Element) : Except ProtocolError Entry := do
  ofMembers (← e.asSequenceTagged tag)

end Entry

/-- The places where a search may go on. -/
structure Reference where
  urls : List String
  deriving DecidableEq, Repr

namespace Reference

def tag : Tag := 0x73

def encode (r : Reference) : Element :=
  .constructed tag (r.urls.map .string)

/-- Reads a reference, which names one place at least. -/
def decode (e : Element) : Except ProtocolError Reference := do
  let members ← e.asSequenceTagged tag
  checkCount "search result reference" 1 none members
  return ⟨← stringsOf members⟩

end Reference
end Ldap
