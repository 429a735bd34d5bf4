import Ldap.Dn.Error
import Ldap.Ber.Element
import Ldap.Filter.Basic
import Ldap.Text.Quoted

/-!
# What can go wrong with messages

The causes for which a message, a control or a filter text is refused. An error that arises after
the message identifier was read carries it, so that it can be led to the request it belongs to.
-/

namespace Ldap

/-- Why a text is no filter. -/
inductive FilterFault where
  | empty
  | trailing
  | tooDeep
  | unexpected (c : Char)
  | unclosed
  | lonelyNot
  | noAttribute
  | noRelation (attr : String)
  | noEquals (c : Char)
  | unescaped (c : Char)
  | emptySubstring
  | badEscape
  | noColonEquals
  | secondRule
  | nothingToMatch
  deriving DecidableEq, Repr

/-- The wording of a fault. -/
def FilterFault.message : FilterFault → String
  | empty => "filter is empty"
  | trailing => "unexpected data after filter"
  | tooDeep => "filter nesting too deep"
  | unexpected c => "unexpected character '" ++ (Text.leadByte c).toString ++ "'"
  | unclosed => "missing closing parenthesis"
  | lonelyNot => "'!' must be followed by a filter"
  | noAttribute => "no attribute description"
  | noRelation attr => "no filter type follows attribute '" ++ attr ++ "'"
  | noEquals c => "expected '=' after '" ++ c.toString ++ "'"
  | unescaped c => "unescaped '" ++ c.toString ++ "' in value"
  | emptySubstring => "empty substring component"
  | badEscape => "invalid escape sequence"
  | noColonEquals => "expected ':=' in extensible match"
  | secondRule => "extensible match has more than one matching rule"
  | nothingToMatch => "extensible match needs an attribute or a matching rule"

/-- Why well-formed elements are no message, control or filter. -/
inductive ContentRule where
  | filterTooDeep
  | noSubstrings
  | substringOutOfOrder (tag : Ber.Tag)
  | noMatchValue
  | nothingToMatch
  | negativeMessageId (id : Int32)
  | abandonsNegativeId (id : Int32)
  | unexpectedValue (control oid : String)
  | notCritical (control oid : String)
  | valueNotUtf8 (control : String)
  | noValueFilters
  | notAValueFilter (filter : Filter)
  | badSyncMode (mode : Int32)
  | badSyncState (state : Int32)
  | badEntryUuid (length : Nat)
  | badSyncUuid (length : Nat)
  | noSyncUuids
  | notSyncInfo (oid : Option String)
  | badChangeType (value : Int32)
  | badSeconds (text : String)
  deriving DecidableEq, Repr

/-- An optional text for a reader's eye. -/
def quotedOption : Option String → String
  | some s => "Some(" ++ Text.Quoted.encode s ++ ")"
  | none => "None"

/-- The wording of a broken rule. -/
def ContentRule.message : ContentRule → String
  | filterTooDeep => "filter nesting exceeds " ++ toString Filter.maxDepth ++ " levels"
  | noSubstrings => "substring filter has no components"
  | substringOutOfOrder tag => "substring component " ++ tag.text ++ " out of order"
  | noMatchValue => "extensible match filter has no match value"
  | nothingToMatch => "extensible match filter needs an attribute or a matching rule"
  | negativeMessageId id => "negative message ID " ++ toString id.toInt
  | abandonsNegativeId id => "abandon request names negative message ID " ++ toString id.toInt
  | unexpectedValue control oid => control ++ " control (" ++ oid ++ ") must not have a value"
  | notCritical control oid => control ++ " control (" ++ oid ++ ") must be critical"
  | valueNotUtf8 control => control ++ " value is not valid UTF-8"
  | noValueFilters => "matched values control needs at least one filter"
  | notAValueFilter filter =>
    "filter " ++ filter.text ++ " is not allowed in a matched values control"
  | badSyncMode mode => "invalid sync request mode " ++ toString mode.toInt
  | badSyncState state => "invalid sync state " ++ toString state.toInt
  | badEntryUuid length => s!"entryUUID must be 16 bytes, got {length}"
  | badSyncUuid length => s!"sync UUID must be 16 bytes, got {length}"
  | noSyncUuids => "sync ID set has no UUIDs"
  | notSyncInfo oid => "intermediate response " ++ quotedOption oid ++ " is not a sync info message"
  | badChangeType value => "invalid change type " ++ toString value.toInt
  | badSeconds text =>
    "password expiring value " ++ Text.Quoted.encode text ++ " is not a number of seconds"

/-- Why a message, a control or a filter text is refused. -/
inductive ProtocolError where
  /-- The elements break a rule on what they may hold. -/
  | broken (rule : ContentRule)
  /-- A constructed element has fewer or more members than it may; `max` is `none` for no bound. -/
  | memberCount (context : String) (min : Nat) (max : Option Nat) (actual : Nat)
  /-- An element has a tag that means nothing where it stands. -/
  | unknownTag (context : String) (tag : Ber.Tag)
  /-- A text is no filter; the fault stands `position` bytes into it. -/
  | malformedFilter (text : String) (position : Nat) (fault : FilterFault)
  /-- A control that needs a value has none. -/
  | missingValue (oid : String)
  /-- The error arose in the message with this identifier. -/
  | inMessage (id : Int32) (cause : ProtocolError)
  | ber (error : Ber.Error)
  | name (error : NameError)
  deriving DecidableEq, Repr

namespace ProtocolError

/-- The number that stands for no upper bound. -/
def unbounded : Nat := UInt64.size - 1

/-- The wording of an error. -/
def message : ProtocolError → String
  | broken rule => "decoding error: " ++ rule.message
  | memberCount context min max actual =>
    "invalid number of elements in " ++ context ++ " (expected " ++ toString min ++ " to "
      ++ toString (max.getD unbounded) ++ ", got " ++ toString actual ++ ")"
  | unknownTag context tag => "invalid element type " ++ tag.text ++ " in " ++ context
  | malformedFilter text position fault =>
    "invalid filter '" ++ text ++ "': " ++ fault.message ++ " at position " ++ toString position
  | missingValue oid => "control " ++ oid ++ " has no value"
  | inMessage id cause => "message " ++ toString id.toInt ++ ": " ++ cause.message
  | ber error => error.message
  | name error => error.message

/-- The result code that fits an error. -/
def code : ProtocolError → ResultCode
  | malformedFilter .. => .filterError
  | name error => error.code
  | inMessage _ cause => cause.code
  | _ => .decodingError

/-- The identifier of the message in which the error arose. -/
def messageId? : ProtocolError → Option Int32
  | inMessage id _ => some id
  | _ => none

/-- Whether the error leaves a stream out of step with its messages. -/
def isFraming : ProtocolError → Bool
  | ber error => error.isFraming
  | inMessage _ cause => cause.isFraming
  | _ => false

/-- The error with the identifier of its message; one that it has already stays. -/
def withMessageId (e : ProtocolError) (id : Int32) : ProtocolError :=
  match e with
  | inMessage .. => e
  | _ => inMessage id e

end ProtocolError

/-- Lets an error of an element be an error of the message it stands in. -/
instance : MonadLift (Except Ber.Error) (Except ProtocolError) :=
  ⟨fun x => x.mapError .ber⟩

/-- Lets an error of a name be an error of the message it stands in. -/
instance : MonadLift (Except NameError) (Except ProtocolError) :=
  ⟨fun x => x.mapError .name⟩

/-- Refuses a number of members that is out of bounds. -/
def checkCount (context : String) (min : Nat) (max : Option Nat) (members : List Ber.Element) :
    Except ProtocolError Unit :=
  if members.length < min || max.any (· < members.length) then
    .error (.memberCount context min max members.length)
  else .ok ()

end Ldap
