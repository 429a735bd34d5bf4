import Ldap.ProtocolError

/-!
# Filters on the wire

Each kind of filter is an element with a tag of its own.
-/

namespace Ldap.Filter

open Ber (Element Tag)

/-! ## Tags -/

def andTag : Tag := 0xA0
def orTag : Tag := 0xA1
def notTag : Tag := 0xA2
def equalTag : Tag := 0xA3
def substringsTag : Tag := 0xA4
def greaterOrEqualTag : Tag := 0xA5
def lessOrEqualTag : Tag := 0xA6
def presentTag : Tag := 0x87
def approximateTag : Tag := 0xA8
def extensibleTag : Tag := 0xA9

def initialTag : Tag := 0x80
def innerTag : Tag := 0x81
def lastTag : Tag := 0x82

def ruleTag : Tag := 0x81
def attrTag : Tag := 0x82
def valueTag : Tag := 0x83
def dnTag : Tag := 0x84

/-- The tag of a comparison. -/
def relationTag : Relation → Tag
  | .equal => equalTag
  | .greaterOrEqual => greaterOrEqualTag
  | .lessOrEqual => lessOrEqualTag
  | .approximate => approximateTag

/-! ## Encoding -/

/-- An assertion as an element. -/
def encodeItem : FilterItem → Element
  | .compare relation attr value =>
    .constructed (relationTag relation) [.string attr, .octetString value]
  | .present attr => .stringTagged presentTag attr
  | .substrings attr initial inner last =>
    .constructed substringsTag
      [.string attr,
       .sequence (initial.toList.map (⟨initialTag, ·⟩) ++ inner.map (⟨innerTag, ·⟩)
         ++ last.toList.map (⟨lastTag, ·⟩))]
  | .extensible rule attr value dn =>
    .constructed extensibleTag
      (rule.toList.map (.stringTagged ruleTag) ++ attr.toList.map (.stringTagged attrTag)
        ++ [⟨valueTag, value⟩] ++ (if dn then [.booleanTagged dnTag true] else []))

mutual

/-- A filter as an element. -/
def encode : Filter → Element
  | .and fs => .constructed andTag (encodeAll fs)
  | .or fs => .constructed orTag (encodeAll fs)
  | .not f => .constructed notTag [f.encode]
  | .item i => encodeItem i

/-- Filters as elements. -/
def encodeAll : List Filter → List Element
  | [] => []
  | f :: fs => f.encode :: encodeAll fs

end

/-! ## Decoding -/

/-- Reads a comparison. -/
def decodeCompare (relation : Relation) (e : Element) : Except ProtocolError FilterItem := do
  let members ← e.asSequenceTagged (relationTag relation)
  checkCount "attribute value assertion" 2 (some 2) members
  match members with
  | [attr, value] => return .compare relation (← attr.asString) (← value.asOctets)
  | _ => throw (.memberCount "attribute value assertion" 2 (some 2) members.length)

/-- The parts of a substring assertion while they are read. -/
structure Substrings where
  initial : Option (List UInt8)
  inner : List (List UInt8)
  last : Option (List UInt8)
  deriving DecidableEq, Repr

/-- Reads the parts of a substring assertion; `first` says whether they are at its beginning. Only
the first part may be initial, and only the last one final. -/
def decodeParts (first : Bool) : List Element → Except ProtocolError Substrings
  | [] => .ok ⟨none, [], none⟩
  | e :: es => do
    if e.tag = initialTag && first then
      let parts ← decodeParts false es
      return { parts with initial := some e.content }
    else if e.tag = innerTag then
      let parts ← decodeParts false es
      return { parts with inner := e.content :: parts.inner }
    else if e.tag = lastTag && es.isEmpty then
      return ⟨none, [], some e.content⟩
    else if e.tag = initialTag || e.tag = lastTag then
      throw (.broken (.substringOutOfOrder e.tag))
    else throw (.unknownTag "substring filter" e.tag)

/-- Reads a substring assertion. -/
def decodeSubstrings (e : Element) : Except ProtocolError FilterItem := do
  let members ← e.asSequenceTagged substringsTag
  checkCount "substring filter" 2 (some 2) members
  match members with
  | [attr, parts] =>
    let attr ← attr.asString
    let parts ← parts.asSequence
    if parts.isEmpty then throw (.broken .noSubstrings)
    let parts ← decodeParts true parts
    return .substrings attr parts.initial parts.inner parts.last
  | _ => throw (.memberCount "substring filter" 2 (some 2) members.length)

/-- The parts of an extensible match while they are read. -/
structure ExtensibleParts where
  rule : Option String
  attr : Option String
  value : Option (List UInt8)
  dn : Bool
  deriving DecidableEq, Repr

/-- Reads one part of an extensible match; a later one of the same tag replaces it. -/
def decodeExtensiblePart (parts : ExtensibleParts) (e : Element) :
    Except ProtocolError ExtensibleParts := do
  if e.tag = ruleTag then return { parts with rule := some (← e.asStringTagged ruleTag) }
  else if e.tag = attrTag then return { parts with attr := some (← e.asStringTagged attrTag) }
  else if e.tag = valueTag then return { parts with value := some e.content }
  else if e.tag = dnTag then return { parts with dn := ← e.asBooleanTagged dnTag }
  else throw (.unknownTag "extensible match filter" e.tag)

/-- Reads an extensible match. -/
def decodeExtensible (e : Element) : Except ProtocolError FilterItem := do
  let members ← e.asSequenceTagged extensibleTag
  checkCount "extensible match filter" 1 (some 4) members
  let parts ← members.foldlM decodeExtensiblePart ⟨none, none, none, false⟩
  match parts.value with
  | none => throw (.broken .noMatchValue)
  | some value =>
    if parts.rule.isNone && parts.attr.isNone then throw (.broken .nothingToMatch)
    return .extensible parts.rule parts.attr value parts.dn

/-- Reads an assertion. -/
def decodeItem (e : Element) : Except ProtocolError FilterItem :=
  if e.tag = equalTag then decodeCompare .equal e
  else if e.tag = greaterOrEqualTag then decodeCompare .greaterOrEqual e
  else if e.tag = lessOrEqualTag then decodeCompare .lessOrEqual e
  else if e.tag = approximateTag then decodeCompare .approximate e
  else if e.tag = presentTag then do return .present (← e.asStringTagged presentTag)
  else if e.tag = substringsTag then decodeSubstrings e
  else if e.tag = extensibleTag then decodeExtensible e
  else .error (.unknownTag "filter" e.tag)

/-- Reads a filter that is at most `room` levels deep. -/
def decodeWithin : Nat → Element → Except ProtocolError Filter
  | 0, _ => .error (.broken .filterTooDeep)
  | room + 1, e => do
    if e.tag = andTag then
      return .and (← (← e.asSequenceTagged andTag).mapM (decodeWithin room))
    else if e.tag = orTag then
      return .or (← (← e.asSequenceTagged orTag).mapM (decodeWithin room))
    else if e.tag = notTag then
      let members ← e.asSequenceTagged notTag
      checkCount "not filter" 1 (some 1) members
      match members with
      | [f] => return .not (← decodeWithin room f)
      | _ => throw (.memberCount "not filter" 1 (some 1) members.length)
    else return .item (← decodeItem e)

/-- Reads a filter. -/
def decode (e : Element) : Except ProtocolError Filter :=
  decodeWithin (maxDepth + 1) e

end Ldap.Filter
