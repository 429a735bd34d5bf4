import Ldap.Control.Basic
import Ldap.Dn.Basic

/-!
# Watching changes

A persistent search goes on with the changes to what it found, each of them announced by a
notification. Directory replication asks for what changed since a cookie was given out.
-/

namespace Ldap

open Ber (Element)

/-! ## Kinds of change -/

/-- What happened to an entry. -/
inductive ChangeType where
  | add
  | delete
  | modify
  | modifyDn
  deriving DecidableEq, Repr

namespace ChangeType

def all : List ChangeType := [add, delete, modify, modifyDn]

/-- The number of a kind of change, a single bit. -/
def value : ChangeType → Int32
  | add => 1
  | delete => 2
  | modify => 4
  | modifyDn => 8

def name : ChangeType → String
  | add => "add"
  | delete => "delete"
  | modify => "modify"
  | modifyDn => "moddn"

/-- The kind of change with a number. -/
def ofValue? (v : Int32) : Option ChangeType :=
  all.find? (·.value = v)

end ChangeType

/-- A set of kinds of change, one bit each. Other bits are kept. -/
structure ChangeTypes where
  bits : Int32
  deriving DecidableEq, Repr

namespace ChangeTypes

/-- The set of some kinds. -/
def ofList (changes : List ChangeType) : ChangeTypes :=
  ⟨changes.foldl (fun bits c => bits ||| c.value) 0⟩

/-- The set of every kind. -/
def all : ChangeTypes := ofList ChangeType.all

/-- The union of two sets. -/
def union (a b : ChangeTypes) : ChangeTypes :=
  ⟨a.bits ||| b.bits⟩

/-- Whether a kind is in a set. -/
def contains (s : ChangeTypes) (c : ChangeType) : Bool :=
  s.bits &&& c.value != 0

end ChangeTypes

/-! ## Persistent search -/

/-- Asks for changes after the search itself. -/
structure PersistentSearch where
  changes : ChangeTypes
  /-- Leaves out what the search itself finds. -/
  changesOnly : Bool
  /-- Asks for a notification with each change. -/
  notify : Bool
  critical : Bool
  deriving DecidableEq, Repr

namespace PersistentSearch

def oid : String := "2.16.840.1.113730.3.4.3"

instance : ControlType PersistentSearch where
  oid := oid
  name := "Persistent Search"
  critical := true
  ofControl c := do
    match ← c.valueMembers "persistent search value" 3 (some 3) with
    | [bits, changesOnly, notify] =>
      return ⟨⟨← bits.asInt32⟩, ← changesOnly.asBoolean, ← notify.asBoolean, c.critical⟩
    | members => throw (.memberCount "persistent search value" 3 (some 3) members.length)
  toControl p := .withElement oid p.critical
    (.sequence [.integer p.changes.bits.toInt, .boolean p.changesOnly, .boolean p.notify])

end PersistentSearch

/-- Tells what happened to the entry it comes with. -/
structure ChangeNotification where
  change : ChangeType
  /-- The name that the entry had before. -/
  previousDn : Option Dn
  /-- The number of the change in the server's log. -/
  number : Option Int64
  deriving Repr

namespace ChangeNotification

def oid : String := "2.16.840.1.113730.3.4.7"

/-- Reads the number, after which nothing may come. -/
def decodeNumber (change : ChangeType) (previousDn : Option Dn) :
    List Element → Except ProtocolError ChangeNotification
  | [] => .ok ⟨change, previousDn, none⟩
  | e :: es =>
    if e.tag = .integer then do
      let number ← e.asInteger
      match es with
      | [] => return ⟨change, previousDn, some number⟩
      | extra :: _ => throw (.unknownTag "entry change notification" extra.tag)
    else .error (.unknownTag "entry change notification" e.tag)

/-- Reads the members after the kind of change: at first a name may come, then a number. -/
def decodeTail (change : ChangeType) : List Element → Except ProtocolError ChangeNotification
  | [] => .ok ⟨change, none, none⟩
  | e :: es =>
    if e.tag = .octetString then do
      let dn ← Dn.parse (← e.asString) none
      decodeNumber change (some dn) es
    else decodeNumber change none (e :: es)

instance : ControlType ChangeNotification where
  oid := oid
  name := "Entry Change Notification"
  ofControl c := do
    match ← c.valueMembers "entry change notification value" 1 (some 3) with
    | change :: rest =>
      let value ← change.asEnumerated
      match ChangeType.ofValue? value with
      | some change => decodeTail change rest
      | none => throw (.broken (.badChangeType value))
    | [] => throw (.memberCount "entry change notification value" 1 (some 3) 0)
  toControl n := .withElement oid false
    (.sequence (.enumerated n.change.value.toInt
      :: n.previousDn.toList.map (fun dn => .string dn.text)
      ++ n.number.toList.map (fun v => .integer v.toInt)))

end ChangeNotification

/-! ## Directory replication -/

/-- Asks for what changed since a cookie was given out, or gives out the next one. -/
structure DirSync where
  flags : Int32
  /-- The most attribute values in one answer. -/
  maxValues : Int32
  cookie : List UInt8
  critical : Bool
  deriving DecidableEq, Repr

namespace DirSync

def oid : String := "1.2.840.113556.1.4.841"

/-- Only what the client may read is sent. -/
def objectSecurity : Int32 := 0x1
/-- Parents are sent before children. -/
def ancestorsFirst : Int32 := 0x800
/-- Private data is left out. -/
def publicOnly : Int32 := 0x2000
/-- Only the changed values of an attribute are sent. -/
def incrementalValues : Int32 := Int32.minValue

/-- Asks for everything. -/
def start : DirSync := ⟨0, 0, [], true⟩

/-- Whether a flag is set. -/
def hasFlag (d : DirSync) (flag : Int32) : Bool :=
  d.flags &&& flag != 0

instance : ControlType DirSync where
  oid := oid
  name := "DirSync"
  critical := true
  ofControl c := do
    match ← c.valueMembers "DirSync value" 3 (some 3) with
    | [flags, maxValues, cookie] =>
      return ⟨← flags.asInt32, ← maxValues.asInt32, ← cookie.asOctets, c.critical⟩
    | members => throw (.memberCount "DirSync value" 3 (some 3) members.length)
  toControl d := .withElement oid d.critical
    (.sequence [.integer d.flags.toInt, .integer d.maxValues.toInt, .octetString d.cookie])

end DirSync
end Ldap
