import Ldap.Control.Basic
import Ldap.Operation.Response

/-!
# Content synchronization

A search that brings a copy up to date: the request, what comes with each entry and with the end of
the search, and the messages in between. A cookie stands for how far the copy is. Entries are named
by identifiers of 16 bytes.
-/

namespace Ldap

open Ber (Element Tag)

/-! ## Identifiers of entries -/

/-- The identifier of an entry. -/
structure EntryUuid where
  bytes : List UInt8
  length_bytes : bytes.length = 16
  deriving DecidableEq, Repr

namespace EntryUuid

/-- The identifier of some bytes, if they are 16. -/
def ofBytes? (bytes : List UInt8) : Option EntryUuid :=
  if h : bytes.length = 16 then some ⟨bytes, h⟩ else none

end EntryUuid

/-! ## Cookies and flags -/

/-- Reads a flag, after which nothing may come. -/
def decodeFlag (context : String) (default : Bool) (cookie : Option (List UInt8)) :
    List Element → Except ProtocolError (Option (List UInt8) × Bool)
  | [] => .ok (cookie, default)
  | e :: es =>
    if e.tag = .boolean then do
      let flag ← e.asBoolean
      match es with
      | [] => return (cookie, flag)
      | extra :: _ => throw (.unknownTag context extra.tag)
    else .error (.unknownTag context e.tag)

/-- Reads a cookie, then a flag that has a value when it is left out. Both may be left out. -/
def decodeCookieFlag (context : String) (default : Bool) :
    List Element → Except ProtocolError (Option (List UInt8) × Bool)
  | [] => .ok (none, default)
  | e :: es =>
    if e.tag = .octetString then decodeFlag context default (some e.content) es
    else decodeFlag context default none (e :: es)

/-- A cookie and a flag as elements; the flag is left out when it has its default. -/
def encodeCookieFlag (default : Bool) (cookie : Option (List UInt8)) (flag : Bool) :
    List Element :=
  cookie.toList.map .octetString ++ (if flag = default then [] else [.boolean flag])

/-! ## Controls -/

/-- How a synchronizing search ends. -/
inductive SyncMode where
  /-- It ends when the copy is up to date. -/
  | refreshOnly
  /-- It goes on with the changes. -/
  | refreshAndPersist
  deriving DecidableEq, Repr

def SyncMode.value : SyncMode → Int32
  | refreshOnly => 1
  | refreshAndPersist => 3

/-- The mode with a number. -/
def SyncMode.ofValue? (v : Int32) : Option SyncMode :=
  [refreshOnly, refreshAndPersist].find? (·.value = v)

/-- Makes a search synchronize. -/
structure SyncRequest where
  mode : SyncMode
  cookie : Option (List UInt8)
  /-- Whether to start over if the cookie is too old. -/
  reload : Bool
  critical : Bool
  deriving DecidableEq, Repr

namespace SyncRequest

def oid : String := "1.3.6.1.4.1.4203.1.9.1.1"

instance : ControlType SyncRequest where
  oid := oid
  name := "Content Synchronization Request"
  critical := true
  ofControl c := do
    match ← c.valueMembers "sync request value" 1 (some 3) with
    | mode :: rest =>
      let value ← mode.asEnumerated
      match SyncMode.ofValue? value with
      | none => throw (.broken (.badSyncMode value))
      | some mode =>
        let (cookie, reload) ← decodeCookieFlag "sync request" false rest
        return ⟨mode, cookie, reload, c.critical⟩
    | [] => throw (.memberCount "sync request value" 1 (some 3) 0)
  toControl r := .withElement oid r.critical
    (.sequence (.enumerated r.mode.value.toInt :: encodeCookieFlag false r.cookie r.reload))

end SyncRequest

/-- What became of an entry. -/
inductive SyncChange where
  | present
  | add
  | modify
  | delete
  deriving DecidableEq, Repr

def SyncChange.value : SyncChange → Int32
  | present => 0
  | add => 1
  | modify => 2
  | delete => 3

/-- The change with a number. -/
def SyncChange.ofValue? (v : Int32) : Option SyncChange :=
  [present, add, modify, delete].find? (·.value = v)

/-- Comes with an entry. -/
structure SyncState where
  change : SyncChange
  uuid : EntryUuid
  cookie : Option (List UInt8)
  deriving DecidableEq, Repr

namespace SyncState

def oid : String := "1.3.6.1.4.1.4203.1.9.1.2"

instance : ControlType SyncState where
  oid := oid
  name := "Content Synchronization State"
  ofControl c := do
    match ← c.valueMembers "sync state value" 2 (some 3) with
    | change :: uuid :: rest =>
      let value ← change.asEnumerated
      match SyncChange.ofValue? value with
      | none => throw (.broken (.badSyncState value))
      | some change =>
        let bytes ← uuid.asOctets
        match EntryUuid.ofBytes? bytes with
        | none => throw (.broken (.badEntryUuid bytes.length))
        | some uuid => return ⟨change, uuid, ← firstOctets? rest⟩
    | members => throw (.memberCount "sync state value" 2 (some 3) members.length)
  toControl s := .withElement oid false
    (.sequence (.enumerated s.change.value.toInt :: .octetString s.uuid.bytes
      :: s.cookie.toList.map .octetString))

end SyncState

/-- Comes with the end of the search. -/
structure SyncDone where
  cookie : Option (List UInt8)
  /-- Whether the entries that were not sent are gone. -/
  refreshDeletes : Bool
  deriving DecidableEq, Repr

namespace SyncDone

def oid : String := "1.3.6.1.4.1.4203.1.9.1.3"

instance : ControlType SyncDone where
  oid := oid
  name := "Content Synchronization Done"
  ofControl c := do
    let (cookie, flag) ← decodeCookieFlag "sync done" false
      (← c.valueMembers "sync done value" 0 (some 2))
    return ⟨cookie, flag⟩
  toControl d := .withElement oid false
    (.sequence (encodeCookieFlag false d.cookie d.refreshDeletes))

end SyncDone

/-! ## Messages in between -/

/-- Which entries a phase of the search told about. -/
inductive RefreshPhase where
  | delete
  | present
  deriving DecidableEq, Repr

/-- The value of an intermediate response to a synchronizing search. -/
inductive SyncInfo where
  | newCookie (cookie : List UInt8)
  /-- A phase ended; `done` if it was the last one. -/
  | refresh (phase : RefreshPhase) (cookie : Option (List UInt8)) (done : Bool)
  /-- Entries that are gone if `deletes`, else still there. -/
  | idSet (cookie : Option (List UInt8)) (deletes : Bool) (uuids : List EntryUuid)
  deriving DecidableEq, Repr

namespace SyncInfo

/-- Names the intermediate responses. -/
def oid : String := "1.3.6.1.4.1.4203.1.9.1.4"

def newCookieTag : Tag := 0x80
def refreshDeleteTag : Tag := 0xA1
def refreshPresentTag : Tag := 0xA2
def idSetTag : Tag := 0xA3

def phaseTag : RefreshPhase → Tag
  | .delete => refreshDeleteTag
  | .present => refreshPresentTag

/-- A message as an element. A cookie alone is the content itself. -/
def encode : SyncInfo → Element
  | newCookie cookie => ⟨newCookieTag, cookie⟩
  | refresh phase cookie done =>
    .constructed (phaseTag phase) (encodeCookieFlag true cookie done)
  | idSet cookie deletes uuids =>
    .constructed idSetTag (encodeCookieFlag false cookie deletes
      ++ [.set (uuids.map fun u => .octetString u.bytes)])

/-- Reads the identifier of an entry. -/
def decodeUuid (e : Element) : Except ProtocolError EntryUuid := do
  let bytes ← e.asOctets
  match EntryUuid.ofBytes? bytes with
  | some uuid => return uuid
  | none => throw (.broken (.badSyncUuid bytes.length))

/-- Reads the end of a phase, which is the last one unless it says otherwise. -/
def decodeRefresh (phase : RefreshPhase) (e : Element) : Except ProtocolError SyncInfo := do
  let members ← e.members
  let (cookie, done) ← decodeCookieFlag "sync info refresh" true members
  return refresh phase cookie done

/-- Reads a set of entries, which stands behind the cookie and the flag. -/
def decodeIdSet (e : Element) : Except ProtocolError SyncInfo := do
  let members ← e.members
  match members.getLast? with
  | none => throw (.broken .noSyncUuids)
  | some last =>
    let (cookie, deletes) ← decodeCookieFlag "sync ID set" false members.dropLast
    return idSet cookie deletes (← (← last.asSet).mapM decodeUuid)

/-- Reads a message by its tag. -/
def decode (e : Element) : Except ProtocolError SyncInfo :=
  if e.tag = newCookieTag then .ok (newCookie e.content)
  else if e.tag = refreshDeleteTag then decodeRefresh .delete e
  else if e.tag = refreshPresentTag then decodeRefresh .present e
  else if e.tag = idSetTag then decodeIdSet e
  else .error (.unknownTag "sync info" e.tag)

/-- Reads an intermediate response. -/
def ofResponse (r : IntermediateResponse) : Except ProtocolError SyncInfo := do
  if r.oid = some oid then
    match r.value with
    | none => throw (.missingValue oid)
    | some value => decode (← Element.decode value)
  else throw (.broken (.notSyncInfo r.oid))

/-- The intermediate response with a value. -/
def toResponse (i : SyncInfo) : IntermediateResponse :=
  ⟨some oid, some i.encode.encode⟩

end SyncInfo
end Ldap
