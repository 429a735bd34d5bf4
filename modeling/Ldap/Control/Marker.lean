import Ldap.Control.Basic

/-!
# Controls that say all by being there

Five types have no value. Two more change how a single request is carried out with one plain value
each: a truth value, and the bytes that name a transaction.
-/

namespace Ldap

/-- What a control without a value asks for. -/
inductive MarkerKind where
  /-- Referral objects are treated as entries. -/
  | manageDsaIt
  /-- Shadow copies are not used. -/
  | dontUseCopy
  /-- Adding a value twice or deleting a missing one does no harm. -/
  | permissiveModify
  /-- Entries below are deleted too. -/
  | subtreeDelete
  /-- The answer to a bind tells who was bound. -/
  | authorizationIdentity
  deriving DecidableEq, Repr

namespace MarkerKind

def all : List MarkerKind :=
  [manageDsaIt, dontUseCopy, permissiveModify, subtreeDelete, authorizationIdentity]

def oid : MarkerKind → String
  | manageDsaIt => "2.16.840.1.113730.3.4.2"
  | dontUseCopy => "1.3.6.1.1.22"
  | permissiveModify => "1.2.840.113556.1.4.1413"
  | subtreeDelete => "1.2.840.113556.1.4.805"
  | authorizationIdentity => "2.16.840.1.113730.3.4.16"

def name : MarkerKind → String
  | manageDsaIt => "ManageDsaIT"
  | dontUseCopy => "Don't Use Copy"
  | permissiveModify => "Permissive Modify"
  | subtreeDelete => "Subtree Delete"
  | authorizationIdentity => "Authorization Identity Request"

end MarkerKind

/-- A control without a value. -/
structure Marker (kind : MarkerKind) where
  critical : Bool
  deriving DecidableEq, Repr

instance (kind : MarkerKind) : ControlType (Marker kind) where
  oid := kind.oid
  name := kind.name
  ofControl c := do
    c.expectNoValue kind.name
    return ⟨c.critical⟩
  toControl m := ⟨kind.oid, m.critical, none⟩

/-- Asks for subentries in place of entries, or for entries only. -/
structure Subentries where
  visible : Bool
  critical : Bool
  deriving DecidableEq, Repr

namespace Subentries

def oid : String := "1.3.6.1.4.1.4203.1.10.1"

instance : ControlType Subentries where
  oid := oid
  name := "Subentries"
  ofControl c := do return ⟨← (← c.valueElement).asBoolean, c.critical⟩
  toControl s := .withElement oid s.critical (.boolean s.visible)

end Subentries

/-- Makes a request part of a transaction. -/
structure TransactionSpecification where
  id : List UInt8
  deriving DecidableEq, Repr

namespace TransactionSpecification

def oid : String := "1.3.6.1.1.21.2"

instance : ControlType TransactionSpecification where
  oid := oid
  name := "Transaction Specification"
  critical := true
  ofControl c := do return ⟨← c.requiredValue⟩
  toControl t := ⟨oid, true, some t.id⟩

end TransactionSpecification
end Ldap
