import Ldap.Control.Change
import Ldap.Control.Condition
import Ldap.Control.Identity
import Ldap.Control.Marker
import Ldap.Control.ReadEntry
import Ldap.Control.Sync
import Ldap.Control.Window

/-!
# Controls of known types

`AnyControl.ofControl` reads a control by the decoder that is registered under its identifier. A
control that no decoder is registered for, or that its decoder refuses, stays as it is.
-/

namespace Ldap

/-- A control of some registered type, or any other control as it is. -/
inductive AnyControl where
  | marker (kind : MarkerKind) (control : Marker kind)
  | subentries (control : Subentries)
  | transaction (control : TransactionSpecification)
  | assertion (control : Assertion)
  | matchedValues (control : MatchedValues)
  | sortRequest (control : SortRequest)
  | sortResponse (control : SortResponse)
  | pagedResults (control : PagedResults)
  | viewRequest (control : ViewRequest)
  | viewResponse (control : ViewResponse)
  | persistentSearch (control : PersistentSearch)
  | changeNotification (control : ChangeNotification)
  | dirSync (control : DirSync)
  | syncRequest (control : SyncRequest)
  | syncState (control : SyncState)
  | syncDone (control : SyncDone)
  | readEntry (time : ReadTime) (control : ReadEntryResponse time)
  | proxiedName (control : ProxiedName)
  | proxiedIdentity (control : ProxiedIdentity)
  | boundIdentity (control : BoundIdentity)
  | passwordExpired (control : PasswordExpired)
  | passwordExpiring (control : PasswordExpiring)
  | raw (control : Control)
  deriving Repr

namespace AnyControl

open ControlType (toControl)

/-- A decoder with the identifier that it is registered under. -/
abbrev Registration := String × (Control → Except ProtocolError AnyControl)

/-- The registration of a type. -/
def register {α : Type} [ControlType α] (wrap : α → AnyControl) : Registration :=
  (ControlType.oid α, fun c => (ControlType.ofControl c).map wrap)

/-- The registered decoders. Identifiers that requests and responses share are read as responses. -/
def registry : List Registration :=
  MarkerKind.all.map (fun kind => register (marker kind)) ++
  [register subentries, register transaction, register assertion, register matchedValues,
   register sortRequest, register sortResponse, register pagedResults, register viewRequest,
   register viewResponse, register persistentSearch, register changeNotification, register dirSync,
   register syncRequest, register syncState, register syncDone, register (readEntry .before),
   register (readEntry .after), register proxiedName, register proxiedIdentity,
   register boundIdentity, register passwordExpired, register passwordExpiring]

/-- Whether a decoder is registered under an identifier. -/
def isRegistered (oid : String) : Bool :=
  (registry.lookup oid).isSome

/-- Reads a control. -/
def ofControl (c : Control) : AnyControl :=
  match registry.lookup c.oid with
  | none => raw c
  | some decode =>
    match decode c with
    | .ok a => a
    | .error _ => raw c

/-- The identifier. -/
def oid : AnyControl → String
  | marker kind _ => kind.oid
  | subentries _ => Subentries.oid
  | transaction _ => TransactionSpecification.oid
  | assertion _ => Assertion.oid
  | matchedValues _ => MatchedValues.oid
  | sortRequest _ => SortRequest.oid
  | sortResponse _ => SortResponse.oid
  | pagedResults _ => PagedResults.oid
  | viewRequest _ => ViewRequest.oid
  | viewResponse _ => ViewResponse.oid
  | persistentSearch _ => PersistentSearch.oid
  | changeNotification _ => ChangeNotification.oid
  | dirSync _ => DirSync.oid
  | syncRequest _ => SyncRequest.oid
  | syncState _ => SyncState.oid
  | syncDone _ => SyncDone.oid
  | readEntry time _ => time.oid
  | proxiedName _ => ProxiedName.oid
  | proxiedIdentity _ => ProxiedIdentity.oid
  | boundIdentity _ => BoundIdentity.oid
  | passwordExpired _ => PasswordExpired.oid
  | passwordExpiring _ => PasswordExpiring.oid
  | raw c => c.oid

/-- The name of the type, if it is a registered one. -/
def name? : AnyControl → Option String
  | marker kind _ => some kind.name
  | subentries _ => some (ControlType.name Subentries)
  | transaction _ => some (ControlType.name TransactionSpecification)
  | assertion _ => some (ControlType.name Assertion)
  | matchedValues _ => some (ControlType.name MatchedValues)
  | sortRequest _ => some (ControlType.name SortRequest)
  | sortResponse _ => some (ControlType.name SortResponse)
  | pagedResults _ => some (ControlType.name PagedResults)
  | viewRequest _ => some (ControlType.name ViewRequest)
  | viewResponse _ => some (ControlType.name ViewResponse)
  | persistentSearch _ => some (ControlType.name PersistentSearch)
  | changeNotification _ => some (ControlType.name ChangeNotification)
  | dirSync _ => some (ControlType.name DirSync)
  | syncRequest _ => some (ControlType.name SyncRequest)
  | syncState _ => some (ControlType.name SyncState)
  | syncDone _ => some (ControlType.name SyncDone)
  | readEntry time _ => some time.responseName
  | proxiedName _ => some ProxiedName.name
  | proxiedIdentity _ => some ProxiedIdentity.name
  | boundIdentity _ => some BoundIdentity.name
  | passwordExpired _ => some (ControlType.name PasswordExpired)
  | passwordExpiring _ => some (ControlType.name PasswordExpiring)
  | raw _ => none

/-- The control that stands for a value. -/
def control : AnyControl → Control
  | marker _ c => toControl c
  | subentries c => toControl c
  | transaction c => toControl c
  | assertion c => toControl c
  | matchedValues c => toControl c
  | sortRequest c => toControl c
  | sortResponse c => toControl c
  | pagedResults c => toControl c
  | viewRequest c => toControl c
  | viewResponse c => toControl c
  | persistentSearch c => toControl c
  | changeNotification c => toControl c
  | dirSync c => toControl c
  | syncRequest c => toControl c
  | syncState c => toControl c
  | syncDone c => toControl c
  | readEntry _ c => toControl c
  | proxiedName c => toControl c
  | proxiedIdentity c => toControl c
  | boundIdentity c => toControl c
  | passwordExpired c => toControl c
  | passwordExpiring c => toControl c
  | raw c => c

end AnyControl
end Ldap
