import Ldap.Ber.Integer
import Ldap.Ber.Length

/-!
# Elements

An element is a tag and its content bytes; the length is never stored. `Element.parse` reads one
element from the front of some bytes and returns the rest, which is shorter
(`length_rest_lt_of_parse`), so the content of a constructed element can be split into members.
-/

namespace Ldap.Ber

/-- A tag with content bytes. -/
structure Element where
  tag : Tag
  content : List UInt8
  deriving DecidableEq, Repr

namespace Element

/-! ## Encoding -/

/-- The bytes of an element. -/
def encode (e : Element) : List UInt8 :=
  e.tag :: (Length.encode e.content.length ++ e.content)

/-- The number of bytes that `encode` writes. -/
def encodedLength (e : Element) : Nat :=
  1 + Length.encodedSize e.content.length + e.content.length

/-- An element made of members, with a tag. -/
def constructed (tag : Tag) (members : List Element) : Element :=
  ⟨tag, members.flatMap encode⟩

def sequence (members : List Element) : Element := constructed .sequence members

def set (members : List Element) : Element := constructed .set members

/-- A truth value, true being all ones. -/
def booleanTagged (tag : Tag) (b : Bool) : Element := ⟨tag, [if b then 0xFF else 0x00]⟩

def boolean (b : Bool) : Element := booleanTagged .boolean b

def integerTagged (tag : Tag) (v : Int) : Element := ⟨tag, Integer.encode v⟩

def integer (v : Int) : Element := integerTagged .integer v

def enumerated (v : Int) : Element := integerTagged .enumerated v

def octetString (bytes : List UInt8) : Element := ⟨.octetString, bytes⟩

/-- A text as an octet string with a tag. -/
def stringTagged (tag : Tag) (s : String) : Element := ⟨tag, Text.Utf8.encode s⟩

def string (s : String) : Element := stringTagged .octetString s

def null : Element := ⟨.null, []⟩

/-! ## Decoding -/

/-- Reads one element from the front of some bytes and returns what follows it. -/
def parse : List UInt8 → Except Error (Element × List UInt8)
  | [] => .error (.truncated 2 0)
  | tag :: body =>
    match Length.decode body with
    | .error (.truncated needed _) => .error (.truncated (needed + 1) (body.length + 1))
    | .error e => .error e
    | .ok (length, rest) =>
      if rest.length < length then
        .error (.truncated (1 + body.length - rest.length + length) (body.length + 1))
      else .ok (⟨tag, rest.take length⟩, rest.drop length)

/-- What follows a length is shorter than the bytes it was read from. -/
theorem length_rest_lt_of_decode {bytes rest : List UInt8} {n : Nat}
    (h : Length.decode bytes = .ok (n, rest)) : rest.length < bytes.length := by
  match bytes, h with
  | first :: tail, h =>
    simp only [Length.decode, bind, Except.bind] at h
    split at h
    · cases h
    · split at h
      · cases h
      · injection h with h
        injection h with _ h
        subst h
        simp only [List.length_drop, List.length_cons]
        omega

/-- What follows an element is shorter than the bytes it was read from. -/
theorem length_rest_lt_of_parse {bytes rest : List UInt8} {e : Element}
    (h : parse bytes = .ok (e, rest)) : rest.length < bytes.length := by
  match bytes, h with
  | tag :: body, h =>
    simp only [parse] at h
    split at h
    · cases h
    · cases h
    · next length tail hd =>
      have hlt := length_rest_lt_of_decode hd
      split at h
      · cases h
      · injection h with h
        injection h with _ h
        subst h
        simp only [List.length_drop, List.length_cons]
        omega

/-- Reads bytes that hold exactly one element. -/
def decode (bytes : List UInt8) : Except Error Element := do
  let (e, rest) ← parse bytes
  if rest.isEmpty then .ok e else .error (.trailingBytes rest.length)

/-- Reads one element from the front of some bytes and tells how many of them it takes up. The
places in the bytes are numbers of 64 bits, so that an element may not end beyond those. -/
def decodePrefix : List UInt8 → Except Error (Element × Nat)
  | [] => .error (.truncated 2 0)
  | tag :: body =>
    match Length.decode body with
    | .error (.truncated needed _) => .error (.truncated (needed + 1) (body.length + 1))
    | .error e => .error e
    | .ok (length, rest) =>
      let start := 1 + (body.length - rest.length)
      let stop := start + length
      if UInt64.size ≤ stop then .error (.elementTooLarge length (UInt64.size - 1 - start))
      else if body.length + 1 < stop then .error (.truncated stop (body.length + 1))
      else .ok (⟨tag, rest.take length⟩, stop)

/-- Splits bytes into the elements they hold. -/
def parseAll (bytes : List UInt8) : Except Error (List Element) :=
  if bytes.isEmpty then .ok []
  else
    match h : parse bytes with
    | .error e => .error e
    | .ok (e, rest) =>
      have : rest.length < bytes.length := length_rest_lt_of_parse h
      match parseAll rest with
      | .error e => .error e
      | .ok es => .ok (e :: es)
termination_by bytes.length

/-! ## Typed views -/

/-- The elements that the content holds, whatever the tag. -/
def members (e : Element) : Except Error (List Element) :=
  parseAll e.content

/-- Refuses another tag than the one a kind of content is expected under. -/
def expectTag (e : Element) (expected : Tag) (kind : ContentKind) : Except Error Unit :=
  if e.tag = expected then .ok () else .error (.tagMismatch kind expected e.tag)

/-- The members of a sequence with a tag of its own. -/
def asSequenceTagged (e : Element) (expected : Tag) : Except Error (List Element) := do
  e.expectTag expected .sequence
  e.members

def asSequence (e : Element) : Except Error (List Element) := e.asSequenceTagged .sequence

/-- The members of a set. -/
def asSet (e : Element) : Except Error (List Element) := do
  e.expectTag .set .set
  e.members

/-- The bytes of an octet string with a tag of its own. -/
def asOctetsTagged (e : Element) (expected : Tag) : Except Error (List UInt8) := do
  e.expectTag expected .octetString
  .ok e.content

def asOctets (e : Element) : Except Error (List UInt8) := e.asOctetsTagged .octetString

/-- The content as text. -/
def text (e : Element) : Except Error String :=
  match Text.Utf8.decode e.content with
  | .ok s => .ok s
  | .error fault => .error (.invalidContent .string (.notUtf8 fault))

/-- The text of an octet string with a tag of its own. -/
def asStringTagged (e : Element) (expected : Tag) : Except Error String := do
  e.expectTag expected .octetString
  e.text

def asString (e : Element) : Except Error String := e.asStringTagged .octetString

/-- The number of an integer with a tag of its own. -/
def asIntegerTagged (e : Element) (expected : Tag) : Except Error Int64 := do
  e.expectTag expected .integer
  Integer.decode .integer e.content

def asInteger (e : Element) : Except Error Int64 := e.asIntegerTagged .integer

/-- The number of an integer with a tag of its own, which has to fit in 32 bits. -/
def asInt32Tagged (e : Element) (expected : Tag) : Except Error Int32 := do
  e.expectTag expected .integer
  Integer.decode32 .integer e.content

def asInt32 (e : Element) : Except Error Int32 := e.asInt32Tagged .integer

/-- The number of an enumerated value with a tag of its own. -/
def asEnumeratedTagged (e : Element) (expected : Tag) : Except Error Int32 := do
  e.expectTag expected .enumerated
  Integer.decode32 .enumerated e.content

def asEnumerated (e : Element) : Except Error Int32 := e.asEnumeratedTagged .enumerated

/-- The content as a truth value: one byte, true unless it is zero. -/
def truth (e : Element) : Except Error Bool :=
  match e.content with
  | [b] => .ok (b != 0)
  | bytes => .error (.invalidContent .boolean (.notOneByte bytes.length))

/-- The truth value of a boolean with a tag of its own. -/
def asBooleanTagged (e : Element) (expected : Tag) : Except Error Bool := do
  e.expectTag expected .boolean
  e.truth

def asBoolean (e : Element) : Except Error Bool := e.asBooleanTagged .boolean

/-- Accepts content that is empty. -/
def nothing (e : Element) : Except Error Unit :=
  if e.content.isEmpty then .ok ()
  else .error (.invalidContent .null (.notEmpty e.content.length))

/-- Accepts a null with a tag of its own. -/
def asNullTagged (e : Element) (expected : Tag) : Except Error Unit := do
  e.expectTag expected .null
  e.nothing

def asNull (e : Element) : Except Error Unit := e.asNullTagged .null

/-- An element for a reader's eye: the tag, then the content bytes. -/
def describe (e : Element) : String :=
  let bytes := String.intercalate " " (e.content.map fun b => String.ofList (Text.Hex.upper b))
  "Element(" ++ e.tag.text ++ ", [" ++ bytes ++ "])"

end Element
end Ldap.Ber
