import Ldap.Control.Basic
import Ldap.Operation.Entry

/-!
# Reading the entry that is changed

A request may ask for the entry as it is before or after the change. Request and response have the
same identifier.
-/

namespace Ldap

open Ber (Element)

/-- When the entry is read. -/
inductive ReadTime where
  | before
  | after
  deriving DecidableEq, Repr

namespace ReadTime

def oid : ReadTime → String
  | before => "1.3.6.1.1.13.1"
  | after => "1.3.6.1.1.13.2"

def requestName : ReadTime → String
  | before => "Pre-Read Request"
  | after => "Post-Read Request"

def responseName : ReadTime → String
  | before => "Pre-Read Response"
  | after => "Post-Read Response"

end ReadTime

/-- Asks for attributes of the entry. -/
structure ReadEntryRequest (time : ReadTime) where
  attributes : List String
  critical : Bool
  deriving DecidableEq, Repr

instance (time : ReadTime) : ControlType (ReadEntryRequest time) where
  oid := time.oid
  name := time.requestName
  critical := true
  ofControl c := do
    let members ← c.valueMembers (time.requestName ++ " value") 0 none
    return ⟨← stringsOf members, c.critical⟩
  toControl r := .withElement time.oid r.critical (.sequence (r.attributes.map .string))

/-- The entry. -/
structure ReadEntryResponse (time : ReadTime) where
  entry : Entry
  deriving DecidableEq, Repr

instance (time : ReadTime) : ControlType (ReadEntryResponse time) where
  oid := time.oid
  name := time.responseName
  ofControl c := do
    let members ← (← c.valueElement).members
    return ⟨← Entry.ofMembers members⟩
  toControl r := .withElement time.oid false r.entry.encode

end Ldap
