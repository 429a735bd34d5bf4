import Ldap.Ber.Source
import Ldap.Ber.Reader
import Ldap.MessageIds
import Ldap.Operation.Kind

/-!
# Options of a connection
-/

namespace Ldap

/-- How a connection behaves. Times are in milliseconds. -/
structure Options where
  /-- How long a request waits for its outcome; for ever if there is no time. -/
  timeout : Option Nat
  /-- Other times for some kinds of operation. -/
  overrides : List (OperationKind × Option Nat)
  /-- Whether the server is told of requests whose time is up. -/
  abandons : Bool
  /-- The greatest length of a message. -/
  maxMessage : Nat
  /-- The identifier of the first message. -/
  initialId : Int32
  deriving DecidableEq, Repr

namespace Options

/-- Requests wait for five minutes. -/
def defaultTimeout : Nat := 300000

/-- The usual options. -/
def usual : Options := ⟨some defaultTimeout, [], false, Ber.defaultLimit, 1⟩

/-- Sets another time for a kind of operation. -/
def withTimeout (o : Options) (kind : OperationKind) (timeout : Option Nat) : Options :=
  { o with overrides := (kind, timeout) :: o.overrides }

/-- How long a request of some kind waits. A time of zero stands for no time. -/
def timeoutFor (o : Options) (kind : OperationKind) : Option Nat :=
  ((o.overrides.lookup kind).getD o.timeout).filter (0 < ·)

end Options
end Ldap
