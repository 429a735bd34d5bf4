import Ldap.Control.Basic
import Ldap.Operation.Entry

/-!
# Order and windows of a search result

A search result can be sorted by the server, and given page by page or as a window into the sorted
list.
-/

namespace Ldap

open Ber (Element Tag)

/-! ## Sorting -/

/-- An attribute to sort by. -/
structure SortKey where
  attr : String
  /-- The rule to compare by, if it is not the attribute's own. -/
  rule : Option String
  reverse : Bool
  deriving DecidableEq, Repr

namespace SortKey

def ruleTag : Tag := 0x80
def reverseTag : Tag := 0x81

def encode (k : SortKey) : Element :=
  .sequence (.string k.attr :: k.rule.toList.map (.stringTagged ruleTag)
    ++ (if k.reverse then [.booleanTagged reverseTag true] else []))

/-- Reads one optional member; a later one of the same tag replaces it. -/
def decodeOptional (k : SortKey) (e : Element) : Except ProtocolError SortKey := do
  if e.tag = ruleTag then return { k with rule := some (← e.asStringTagged ruleTag) }
  else if e.tag = reverseTag then return { k with reverse := ← e.asBooleanTagged reverseTag }
  else throw (.unknownTag "sort key" e.tag)

/-- Reads a key: an attribute, and up to two members told apart by their tags. -/
def decode (e : Element) : Except ProtocolError SortKey := do
  let members ← e.asSequence
  checkCount "sort key" 1 (some 3) members
  match members with
  | attr :: rest => rest.foldlM decodeOptional ⟨← attr.asString, none, false⟩
  | [] => throw (.memberCount "sort key" 1 (some 3) 0)

end SortKey

/-- Asks for a sorted result, by the first key first. -/
structure SortRequest where
  keys : List SortKey
  critical : Bool
  deriving DecidableEq, Repr

namespace SortRequest

def oid : String := "1.2.840.113556.1.4.473"

instance : ControlType SortRequest where
  oid := oid
  name := "Server-Side Sort Request"
  ofControl c := do
    let members ← c.valueMembers "sort request value" 1 none
    return ⟨← members.mapM SortKey.decode, c.critical⟩
  toControl r := .withElement oid r.critical (.sequence (r.keys.map SortKey.encode))

end SortRequest

/-- Tells how sorting went, and which attribute stood in the way. -/
structure SortResponse where
  code : ResultCode
  attr : Option String
  deriving DecidableEq, Repr

namespace SortResponse

def oid : String := "1.2.840.113556.1.4.474"
/-- Stands over the attribute that could not be sorted by. -/
def attrTag : Tag := 0x80

instance : ControlType SortResponse where
  oid := oid
  name := "Server-Side Sort Response"
  ofControl c := do
    match ← c.valueMembers "sort response value" 1 (some 2) with
    | [code] => return ⟨⟨← code.asEnumerated⟩, none⟩
    | code :: attr :: _ => return ⟨⟨← code.asEnumerated⟩, some (← attr.asStringTagged attrTag)⟩
    | [] => throw (.memberCount "sort response value" 1 (some 2) 0)
  toControl r := .withElement oid false
    (.sequence (.enumerated r.code.value.toInt :: r.attr.toList.map (.stringTagged attrTag)))

end SortResponse

/-! ## Pages -/

/-- Asks for a page, or tells where the next one begins. -/
structure PagedResults where
  /-- The size of a page, or an estimate of the whole result. -/
  size : Int32
  cookie : List UInt8
  critical : Bool
  deriving DecidableEq, Repr

namespace PagedResults

def oid : String := "1.2.840.113556.1.4.319"

/-- Whether there is a next page. -/
def hasMore (p : PagedResults) : Bool :=
  !p.cookie.isEmpty

instance : ControlType PagedResults where
  oid := oid
  name := "Simple Paged Results"
  ofControl c := do
    match ← c.valueMembers "paged results value" 2 (some 2) with
    | [size, cookie] => return ⟨← size.asInt32, ← cookie.asOctets, c.critical⟩
    | members => throw (.memberCount "paged results value" 2 (some 2) members.length)
  toControl p := .withElement oid p.critical
    (.sequence [.integer p.size.toInt, .octetString p.cookie])

end PagedResults

/-! ## Views -/

/-- The entry around which a view lies. -/
inductive ViewTarget where
  /-- The entry at a place of a list that has about `count` entries. -/
  | offset (offset count : Int32)
  /-- The first entry whose key is not below a value. -/
  | atLeast (value : List UInt8)
  deriving DecidableEq, Repr

namespace ViewTarget

def offsetTag : Tag := 0xA0
def atLeastTag : Tag := 0x81

/-- A target as an element. -/
def encode : ViewTarget → Element
  | offset o count => .constructed offsetTag [.integer o.toInt, .integer count.toInt]
  | atLeast value => ⟨atLeastTag, value⟩

/-- Reads a target by its tag. -/
def decode (e : Element) : Except ProtocolError ViewTarget := do
  if e.tag = offsetTag then
    let members ← e.asSequenceTagged offsetTag
    checkCount "virtual list view offset" 2 (some 2) members
    match members with
    | [o, count] => return offset (← o.asInt32) (← count.asInt32)
    | _ => throw (.memberCount "virtual list view offset" 2 (some 2) members.length)
  else if e.tag = atLeastTag then return atLeast e.content
  else throw (.unknownTag "virtual list view target" e.tag)

end ViewTarget

/-- Asks for a target with the entries before and after it. -/
structure ViewRequest where
  before : Int32
  after : Int32
  target : ViewTarget
  context : Option (List UInt8)
  critical : Bool
  deriving DecidableEq, Repr

namespace ViewRequest

def oid : String := "2.16.840.1.113730.3.4.9"

instance : ControlType ViewRequest where
  oid := oid
  name := "Virtual List View Request"
  critical := true
  ofControl c := do
    match ← c.valueMembers "virtual list view request value" 3 (some 4) with
    | before :: after :: target :: rest =>
      let target ← ViewTarget.decode target
      return ⟨← before.asInt32, ← after.asInt32, target, ← firstOctets? rest, c.critical⟩
    | members =>
      throw (.memberCount "virtual list view request value" 3 (some 4) members.length)
  toControl r := .withElement oid r.critical
    (.sequence (.integer r.before.toInt :: .integer r.after.toInt :: r.target.encode
      :: r.context.toList.map .octetString))

end ViewRequest

/-- Tells where in the list a view lies. -/
structure ViewResponse where
  position : Int32
  count : Int32
  code : ResultCode
  context : Option (List UInt8)
  deriving DecidableEq, Repr

namespace ViewResponse

def oid : String := "2.16.840.1.113730.3.4.10"

instance : ControlType ViewResponse where
  oid := oid
  name := "Virtual List View Response"
  ofControl c := do
    match ← c.valueMembers "virtual list view response value" 3 (some 4) with
    | position :: count :: code :: rest =>
      return ⟨← position.asInt32, ← count.asInt32, ⟨← code.asEnumerated⟩, ← firstOctets? rest⟩
    | members =>
      throw (.memberCount "virtual list view response value" 3 (some 4) members.length)
  toControl r := .withElement oid false
    (.sequence (.integer r.position.toInt :: .integer r.count.toInt
      :: .enumerated r.code.value.toInt :: r.context.toList.map .octetString))

end ViewResponse
end Ldap
