import Ldap.ResultCode
import Ldap.SearchScope
import Ldap.Text.Stop

/-!
# What can go wrong with names

`NameFault` is the cause of a refused text, `NameError` adds the text and the place.
-/

namespace Ldap

/-- Why a text is no distinguished name or no relative one. -/
inductive NameFault where
  | trailingSeparator
  | emptyRdn
  | separatorInRdn
  | unexpected (c : Char)
  | openPlus
  | badNameCharacter
  | noName
  | noEquals (name : String)
  | noValue (name : String)
  | badHexCharacter
  | noHexDigits
  | oddHexDigits
  | openQuote
  | unescaped (c : Char)
  | openEscape
  | badHexEscape
  | badEscape (c : Char)
  deriving DecidableEq, Repr

/-- The wording of a fault. -/
def NameFault.message : NameFault → String
  | trailingSeparator => "DN ends with a trailing separator"
  | emptyRdn => "RDN is empty"
  | separatorInRdn => "RDN contains an unescaped separator"
  | unexpected c => "unexpected character '" ++ (Text.leadByte c).toString ++ "'"
  | openPlus => "RDN ends with an unterminated '+'"
  | badNameCharacter => "invalid character in attribute name"
  | noName => "no attribute name"
  | noEquals name => "no equal sign follows attribute name '" ++ name ++ "'"
  | noValue name => "no value for attribute '" ++ name ++ "'"
  | badHexCharacter => "invalid character in hex-encoded value"
  | noHexDigits => "hex-encoded value has no digits"
  | oddHexDigits => "hex-encoded value has an odd number of digits"
  | openQuote => "unterminated quoted value"
  | unescaped c => "unescaped '" ++ (Text.leadByte c).toString ++ "' in attribute value"
  | openEscape => "value ends with an incomplete escape"
  | badHexEscape => "invalid hex escape"
  | badEscape c => "invalid escape of '" ++ (Text.leadByte c).toString ++ "'"

/-- Why a name could not be made or used. -/
inductive NameError where
  /-- A text is no name; the fault stands `position` bytes into it. -/
  | malformed (text : String) (position : Nat) (fault : NameFault)
  /-- A relative name was to be made of no components. -/
  | noComponents
  /-- Names cannot be matched in this scope. -/
  | unmatchableScope (scope : SearchScope)
  deriving DecidableEq, Repr

namespace NameError

/-- The wording of an error. -/
def message : NameError → String
  | malformed text position fault =>
    "invalid DN '" ++ text ++ "': " ++ fault.message ++ " at position " ++ toString position
  | noComponents => "invalid parameter: an RDN needs at least one component"
  | unmatchableScope scope =>
    "invalid parameter: search scope " ++ toString scope.value.toInt
      ++ " is not supported for base and scope matching"

/-- The result code that fits an error. -/
def code : NameError → ResultCode
  | malformed .. => .invalidDnSyntax
  | noComponents | unmatchableScope _ => .parameterError

end NameError
end Ldap
