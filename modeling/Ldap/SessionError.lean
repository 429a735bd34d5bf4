import Ldap.Operation.Kind
import Ldap.ProtocolError

/-!
# What can go wrong in a session
-/

namespace Ldap

/-- Why a request could not be sent, or a response not be read. -/
inductive SessionError where
  | protocol (error : ProtocolError)
  /-- The stream failed or ended inside a message. -/
  | stream (reason : String)
  /-- An operation with this identifier is pending. -/
  | duplicateId (id : Int32)
  /-- No operation can have this identifier. -/
  | unusableId (id : Int32)
  /-- Operations of this kind get no response that could be waited for. -/
  | unanswered (kind : OperationKind)
  /-- An operation with this name is no request. -/
  | notARequest (name : String)
  | connectionClosed
  deriving DecidableEq, Repr

namespace SessionError

/-- The wording of an error. -/
def message : SessionError → String
  | protocol error => "protocol error: " ++ error.message
  | stream reason => "I/O error: " ++ reason
  | duplicateId id =>
    "an operation with message ID " ++ toString id.toInt ++ " is already pending"
  | unusableId id =>
    "invalid parameter: message ID " ++ toString id.toInt ++ " cannot be registered"
  | unanswered kind =>
    kind.name ++ " operations do not receive a response and cannot be registered"
  | notARequest name => "invalid parameter: " ++ name ++ " is not a request"
  | connectionClosed => "the connection is closed"

/-- The result code that fits an error. -/
def code : SessionError → ResultCode
  | protocol error => error.code
  | stream _ | connectionClosed => .serverDown
  | duplicateId _ | unusableId _ | unanswered _ | notARequest _ => .parameterError

end SessionError
end Ldap
