import Ldap.Ber.Element
import Ldap.Text.Lowercase

/-!
# Attribute values in names

How value bytes are written in a name, and the form in which values are compared. Bytes that are no
UTF-8 are written as the hexadecimal digits of an octet string.
-/

namespace Ldap.Value

/-- How much is escaped. -/
inductive Escaping where
  /-- Whatever may need it. -/
  | full
  /-- Only what has to be. -/
  | minimal
  deriving DecidableEq, Repr

/-- Whether a character is an ASCII control. -/
def isControl (c : Char) : Bool :=
  c.toNat < 0x20 || c.toNat = 0x7F

/-- Whether a character has to be escaped wherever it stands. -/
def isSpecial (c : Char) : Bool :=
  c = '"' || c = '+' || c = ',' || c = ';' || c = '<' || c = '>' || c = '\\'

/-- Whether a character is escaped, given whether it is the first and the last one of its value. -/
def needsEscape (escaping : Escaping) (first last : Bool) (c : Char) : Bool :=
  if c = ' ' then first || last
  else if c = '#' then first
  else if c = '\x00' then true
  else if c = '=' then escaping = .full
  else if isControl c then escaping = .full
  else isSpecial c

/-- A character of a value: controls as two digits after a backslash, others behind one. -/
def escapeChar (escaping : Escaping) (first last : Bool) (c : Char) : List Char :=
  if needsEscape escaping first last c then
    if isControl c then '\\' :: Text.Hex.lower (UInt8.ofNat c.toNat) else ['\\', c]
  else [c]

/-- The characters of a value; `first` says whether they are at its beginning. -/
def escapeFrom (escaping : Escaping) (first : Bool) : List Char → List Char
  | [] => []
  | c :: rest => escapeChar escaping first rest.isEmpty c ++ escapeFrom escaping false rest

/-- A value as the digits of the octet string that holds it. -/
def hexForm (bytes : List UInt8) : List Char :=
  '#' :: Text.Hex.encode (Ber.Element.octetString bytes).encode

/-- A value as it is written in a name. -/
def escape (escaping : Escaping) (bytes : List UInt8) : List Char :=
  match Text.Utf8.decode? bytes with
  | some s => escapeFrom escaping true s.toList
  | none => hexForm bytes

/-- The words of a text, which spaces separate. -/
def words (cs : List Char) : List (List Char) :=
  (cs.splitOn ' ').filter (!·.isEmpty)

/-- A text with its words separated by single spaces; a text of spaces alone becomes one space. -/
def collapse (cs : List Char) : List Char :=
  match words cs with
  | [] => if cs.isEmpty then [] else [' ']
  | ws => List.intercalate [' '] ws

/-- The form in which values are compared: without letter case unless `caseExact`, with single
spaces between words, escaped. -/
def normalize (caseExact : Bool) (bytes : List UInt8) : List Char :=
  match Text.Utf8.decode? bytes with
  | some s =>
    let folded := if caseExact then s.toList else Text.lowercase s.toList
    escapeFrom .full true (collapse folded)
  | none => hexForm bytes

end Ldap.Value
