import Ldap.Ber.Tag
import Ldap.Text.Hex
import Ldap.Text.Utf8

/-!
# What can go wrong with BER

One constructor a cause, the wording in `Error.message`. `Error.isFraming` tells the causes after
which a stream can no longer be cut into elements.
-/

namespace Ldap.Ber

/-- What an element was read as. -/
inductive ContentKind where
  | sequence
  | set
  | octetString
  | string
  | integer
  | enumerated
  | boolean
  | null
  deriving DecidableEq, Repr

/-- The word for a kind of content. -/
def ContentKind.name : ContentKind → String
  | .sequence => "sequence"
  | .set => "set"
  | .octetString => "octet string"
  | .string => "string"
  | .integer => "integer"
  | .enumerated => "enumerated"
  | .boolean => "boolean"
  | .null => "null"

/-- Why content bytes are no value of their kind. -/
inductive ContentFault where
  /-- A text is not UTF-8. -/
  | notUtf8 (fault : Text.Utf8.Fault)
  /-- A number has no bytes. -/
  | noBytes
  /-- A number has more than eight bytes. -/
  | tooWide (count : Nat)
  /-- A number needs more than 32 bits. -/
  | beyond32Bits (value : Int)
  /-- A truth value is not one byte. -/
  | notOneByte (count : Nat)
  /-- A null has bytes. -/
  | notEmpty (count : Nat)
  deriving DecidableEq, Repr

/-- The wording of a content fault. -/
def ContentFault.message : ContentFault → String
  | .notUtf8 fault => fault.message
  | .noBytes => "no content bytes"
  | .tooWide count => s!"{count} content bytes exceed 64 bits"
  | .beyond32Bits value => s!"{value} does not fit in 32 bits"
  | .notOneByte count => s!"expected 1 content byte, got {count}"
  | .notEmpty count => s!"expected no content, got {count} bytes"

/-- Why bytes could not be read as elements. -/
inductive Error where
  /-- The bytes end inside an element; at least `needed` bytes are wanted. -/
  | truncated (needed available : Nat)
  /-- The length says that `count` length bytes follow, more than four. -/
  | lengthTooLarge (count : Nat)
  /-- The length leaves the end of the element open. -/
  | indefiniteLength
  /-- The content is longer than the reader accepts. -/
  | elementTooLarge (length limit : Nat)
  /-- The element has another tag than the one asked for. -/
  | tagMismatch (kind : ContentKind) (expected actual : Tag)
  /-- The content is no value of the kind asked for. -/
  | invalidContent (kind : ContentKind) (fault : ContentFault)
  /-- Bytes follow the element. -/
  | trailingBytes (count : Nat)
  /-- A member went past the end of its sequence. -/
  | readPastEnd (length stop position : Nat)
  /-- The input ended inside an element. -/
  | endOfInput
  /-- The source of the bytes failed. -/
  | source (reason : String)
  deriving DecidableEq, Repr

/-- A tag as `0x` and two uppercase digits. -/
def Tag.text (t : Tag) : String :=
  String.ofList ('0' :: 'x' :: Text.Hex.upper t)

namespace Error

/-- The wording of an error. -/
def message : Error → String
  | truncated needed available =>
    s!"truncated element: need {needed} bytes, have {available}"
  | lengthTooLarge count => s!"length encoding too large: {count} bytes (max 4)"
  | indefiniteLength => "indefinite length encoding is not supported"
  | elementTooLarge length limit =>
    s!"element length {length} exceeds the maximum allowed size of {limit} bytes"
  | tagMismatch kind expected actual =>
    "cannot decode element with type " ++ actual.text ++ " as " ++ kind.name
      ++ " (expected type " ++ expected.text ++ ")"
  | invalidContent kind fault => "invalid " ++ kind.name ++ " value: " ++ fault.message
  | trailingBytes count => s!"{count} unexpected trailing bytes after the element"
  | readPastEnd length stop position =>
    s!"read past the end of a sequence (length {length}, end {stop}, position {position})"
  | endOfInput => "unexpected end of input"
  | source reason => "I/O error: " ++ reason

/-- Whether the error leaves a stream out of step with its elements. -/
def isFraming : Error → Bool
  | readPastEnd .. | endOfInput | source _ => true
  | _ => false

end Error
end Ldap.Ber
