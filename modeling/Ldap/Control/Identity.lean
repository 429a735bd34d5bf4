import Ldap.Control.Basic
import Ldap.Dn.Basic
import Ldap.Text.Blank
import Ldap.Text.Decimal

/-!
# Who acts, and for how long

Controls that make an operation run under another identity, that tell the identity a bind led to,
and that warn about its password.
-/

namespace Ldap

open Ber (Element)

/-- The text of a value. -/
def textOfValue (value : List UInt8) (name : String) : Except ProtocolError String :=
  match Text.Utf8.decode? value with
  | some s => .ok s
  | none => .error (.broken (.valueNotUtf8 name))

/-! ## Identities -/

/-- Runs an operation as the user with a name. -/
structure ProxiedName where
  dn : Dn
  deriving Repr

namespace ProxiedName

def oid : String := "2.16.840.1.113730.3.4.12"
def name : String := "Proxied Authorization v1"

instance : ControlType ProxiedName where
  oid := oid
  name := name
  critical := true
  ofControl c := do
    c.expectCritical name
    match ← c.valueMembers "proxied authorization v1 value" 1 (some 1) with
    | [dn] => return ⟨← Dn.parse (← dn.asString) none⟩
    | members => throw (.memberCount "proxied authorization v1 value" 1 (some 1) members.length)
  toControl p := .withElement oid true (.sequence [.string p.dn.text])

end ProxiedName

/-- Runs an operation under an authorization identity; the empty one is nobody's. -/
structure ProxiedIdentity where
  id : String
  deriving DecidableEq, Repr

namespace ProxiedIdentity

def oid : String := "2.16.840.1.113730.3.4.18"
def name : String := "Proxied Authorization v2"

instance : ControlType ProxiedIdentity where
  oid := oid
  name := name
  critical := true
  ofControl c := do
    c.expectCritical name
    return ⟨← textOfValue (← c.requiredValue) name⟩
  toControl p := .withText oid true p.id

end ProxiedIdentity

/-- Tells the identity that a bind led to; the empty one is nobody's. -/
structure BoundIdentity where
  id : String
  deriving DecidableEq, Repr

namespace BoundIdentity

def oid : String := "2.16.840.1.113730.3.4.15"
def name : String := "Authorization Identity Response"

instance : ControlType BoundIdentity where
  oid := oid
  name := name
  ofControl c := do return ⟨← textOfValue (c.value.getD []) name⟩
  toControl b := .withText oid false b.id

end BoundIdentity

/-! ## Passwords -/

/-- The password has to be changed. The value means nothing. -/
structure PasswordExpired where
  deriving DecidableEq, Repr

namespace PasswordExpired

def oid : String := "2.16.840.1.113730.3.4.4"

instance : ControlType PasswordExpired where
  oid := oid
  name := "Password Expired"
  ofControl _ := .ok ⟨⟩
  toControl _ := .withText oid false "0"

end PasswordExpired

/-- The password ends in some seconds. -/
structure PasswordExpiring where
  seconds : Int32
  deriving DecidableEq, Repr

namespace PasswordExpiring

def oid : String := "2.16.840.1.113730.3.4.5"

/-- Reads a number of seconds, around which there may be blanks. -/
def seconds? (value : List UInt8) : Option Int32 := do
  let s ← Text.Utf8.decode? value
  Text.Decimal.int32? (Text.trim s.toList)

instance : ControlType PasswordExpiring where
  oid := oid
  name := "Password Expiring"
  ofControl c := do
    let value ← c.requiredValue
    match seconds? value with
    | some seconds => return ⟨seconds⟩
    | none => throw (.broken (.badSeconds (Text.Utf8.decodeLossy value)))
  toControl p := .withText oid false (toString p.seconds.toInt)

end PasswordExpiring
end Ldap
