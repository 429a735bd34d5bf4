import Ldap.Text.Hex
import Ldap.Text.Utf8

/-!
# Search filters

A filter combines assertions about attributes. Its text puts every part in parentheses; in values,
special and non-printing bytes are written as two digits behind a backslash.
-/

namespace Ldap

/-- How an attribute value is compared with the asserted one. -/
inductive Relation where
  | equal
  | greaterOrEqual
  | lessOrEqual
  | approximate
  deriving DecidableEq, Repr

/-- An assertion about an attribute. -/
inductive FilterItem where
  /-- Some value stands in a relation to `value`. -/
  | compare (relation : Relation) (attr : String) (value : List UInt8)
  /-- Some value begins, goes on and ends with the given parts. -/
  | substrings (attr : String) (initial : Option (List UInt8)) (inner : List (List UInt8))
      (last : Option (List UInt8))
  /-- The attribute has a value. -/
  | present (attr : String)
  /-- A matching rule relates some value to `value`, those in the entry's name too if `dn`. -/
  | extensible (rule attr : Option String) (value : List UInt8) (dn : Bool)
  deriving DecidableEq, Repr

/-- A condition on entries. -/
inductive Filter where
  | and (filters : List Filter)
  | or (filters : List Filter)
  | not (filter : Filter)
  | item (item : FilterItem)
  deriving Repr

namespace Filter

/-- The most groups that may stand around a filter. -/
def maxDepth : Nat := 100

/-- The filter that every entry satisfies: it has an object class. -/
def everything : Filter := .item (.present "objectClass")

/-- The attribute that a single assertion is about. -/
def attr? : Filter → Option String
  | .item (.compare _ attr _) => some attr
  | .item (.substrings attr ..) => some attr
  | .item (.present attr) => some attr
  | .item (.extensible _ attr _ _) => attr
  | _ => none

/-- Whether a filter is a single assertion that leaves the entry's name aside. -/
def isSimpleItem : Filter → Bool
  | .item (.extensible _ _ _ dn) => !dn
  | .item _ => true
  | _ => false

/-! ## Equality -/

mutual

/-- Decides whether two filters are equal. -/
def decEq : (a b : Filter) → Decidable (a = b)
  | .and as, .and bs =>
    match decEqList as bs with
    | isTrue h => isTrue (by rw [h])
    | isFalse h => isFalse (by simpa using h)
  | .or as, .or bs =>
    match decEqList as bs with
    | isTrue h => isTrue (by rw [h])
    | isFalse h => isFalse (by simpa using h)
  | .not a, .not b =>
    match decEq a b with
    | isTrue h => isTrue (by rw [h])
    | isFalse h => isFalse (by simpa using h)
  | .item a, .item b => if h : a = b then isTrue (by rw [h]) else isFalse (by simpa using h)
  | .and _, .or _ | .and _, .not _ | .and _, .item _
  | .or _, .and _ | .or _, .not _ | .or _, .item _
  | .not _, .and _ | .not _, .or _ | .not _, .item _
  | .item _, .and _ | .item _, .or _ | .item _, .not _ => isFalse (by simp)

/-- Decides whether two lists of filters are equal. -/
def decEqList : (as bs : List Filter) → Decidable (as = bs)
  | [], [] => isTrue rfl
  | [], _ :: _ | _ :: _, [] => isFalse (by simp)
  | a :: as, b :: bs =>
    match decEq a b, decEqList as bs with
    | isTrue h, isTrue h' => isTrue (by rw [h, h'])
    | isFalse h, _ => isFalse (by simp [h])
    | _, isFalse h => isFalse (by simp [h])

end

instance : DecidableEq Filter := decEq

/-! ## Text -/

/-- Whether a byte of a value is written as it is. -/
def isPlain (b : UInt8) : Bool :=
  0x20 ≤ b && b < 0x7F && b != 0x28 && b != 0x29 && b != 0x2A && b != 0x5C

/-- The bytes of a value as text. -/
def valueText (bytes : List UInt8) : List Char :=
  bytes.flatMap fun b => if isPlain b then [Char.ofNat b.toNat] else '\\' :: Text.Hex.lower b

/-- The sign between an attribute and a value. -/
def sign : Relation → List Char
  | .equal => ['=']
  | .greaterOrEqual => ['>', '=']
  | .lessOrEqual => ['<', '=']
  | .approximate => ['~', '=']

/-- An assertion as text, without parentheses. -/
def itemText : FilterItem → List Char
  | .compare relation attr value => attr.toList ++ sign relation ++ valueText value
  | .substrings attr initial inner last =>
    attr.toList ++ ['='] ++ valueText (initial.getD []) ++ ['*']
      ++ inner.flatMap (fun bytes => valueText bytes ++ ['*']) ++ valueText (last.getD [])
  | .present attr => attr.toList ++ ['=', '*']
  | .extensible rule attr value dn =>
    (attr.getD "").toList ++ (if dn then [':', 'd', 'n'] else [])
      ++ (rule.elim [] fun r => ':' :: r.toList) ++ [':', '='] ++ valueText value

mutual

/-- The characters of a filter. -/
def chars : Filter → List Char
  | .and fs => ['(', '&'] ++ charsOfAll fs ++ [')']
  | .or fs => ['(', '|'] ++ charsOfAll fs ++ [')']
  | .not f => ['(', '!'] ++ f.chars ++ [')']
  | .item i => '(' :: itemText i ++ [')']

/-- The characters of filters, one after the other. -/
def charsOfAll : List Filter → List Char
  | [] => []
  | f :: fs => f.chars ++ charsOfAll fs

end

/-- A filter as text. -/
def text (f : Filter) : String :=
  String.ofList f.chars

end Filter
end Ldap
