import Ldap.Operation.Entry

/-!
# Responses

What a server answers. The fields of `Response` end every operation; some kinds of operation add
their own. Optional members are told apart by their tags and may come in any order.
-/

namespace Ldap

open Ber (Element Tag)

/-! ## The fields that end an operation -/

/-- The outcome of an operation with what a server says about it. -/
structure Response where
  code : ResultCode
  matchedDn : Option String
  diagnostic : Option String
  referrals : List String
  deriving DecidableEq, Repr

namespace Response

def referralsTag : Tag := 0xA3

/-- A text that is not empty. -/
def nonempty? (s : String) : Option String :=
  if s.isEmpty then none else some s

/-- A response of the given fields, in which empty texts count as missing. -/
def make (code : ResultCode) (matchedDn diagnostic : String) (referrals : List String) :
    Response :=
  ⟨code, nonempty? matchedDn, nonempty? diagnostic, referrals⟩

/-- The members that a response puts in front of those of its kind. -/
def members (r : Response) : List Element :=
  [.enumerated r.code.value.toInt, .string (r.matchedDn.getD ""), .string (r.diagnostic.getD "")]
    ++ (if r.referrals.isEmpty then []
        else [.constructed referralsTag (r.referrals.map .string)])

/-- A response under the tag of its operation. -/
def encode (r : Response) (tag : Tag) : Element :=
  .constructed tag r.members

/-- Reads the three leading members, and returns the others. -/
def decodeHead (context : String) (members : List Element) :
    Except ProtocolError (Response × List Element) := do
  match members with
  | code :: matchedDn :: diagnostic :: rest =>
    return (⟨⟨← code.asEnumerated⟩, nonempty? (← matchedDn.asString),
      nonempty? (← diagnostic.asString), []⟩, rest)
  | _ => throw (.memberCount context 3 none members.length)

/-- Reads referrals, of which there may be none. -/
def decodeReferrals (e : Element) : Except ProtocolError (List String) := do
  stringsOf (← e.asSequenceTagged referralsTag)

/-- Reads a response. Behind the head there may be referrals and nothing else. -/
def decode (e : Element) (tag : Tag) : Except ProtocolError Response := do
  let members ← e.asSequenceTagged tag
  checkCount "response" 3 (some 4) members
  let (r, rest) ← decodeHead "response" members
  match rest with
  | [] => return r
  | referrals :: _ =>
    if referrals.tag = referralsTag then
      return { r with referrals := ← decodeReferrals referrals }
    else throw (.unknownTag "response" referrals.tag)

end Response

/-! ## Bind -/

/-- The answer to a bind. -/
structure BindResponse where
  response : Response
  saslCredentials : Option (List UInt8)
  deriving DecidableEq, Repr

namespace BindResponse

def tag : Tag := 0x61
def saslCredentialsTag : Tag := 0x87

/-- The answer to a bind as an element. The referrals stand before the credentials. -/
def encode (r : BindResponse) : Element :=
  .constructed tag
    (r.response.members ++ r.saslCredentials.toList.map (⟨saslCredentialsTag, ·⟩))

/-- Reads one optional member; a later one of the same tag replaces it. -/
def decodeOptional (r : BindResponse) (e : Element) : Except ProtocolError BindResponse := do
  if e.tag = Response.referralsTag then
    return { r with response.referrals := ← Response.decodeReferrals e }
  else if e.tag = saslCredentialsTag then return { r with saslCredentials := some e.content }
  else throw (.unknownTag "bind response" e.tag)

/-- Reads the answer to a bind: the head, and up to two members told apart by their tags. -/
def decode (e : Element) : Except ProtocolError BindResponse := do
  let members ← e.asSequenceTagged tag
  checkCount "bind response" 3 (some 5) members
  let (response, rest) ← Response.decodeHead "bind response" members
  rest.foldlM decodeOptional ⟨response, none⟩

end BindResponse

/-! ## Extended -/

/-- The answer to an extended request, or a notification that no request asked for. -/
structure ExtendedResponse where
  response : Response
  oid : Option String
  value : Option (List UInt8)
  deriving DecidableEq, Repr

namespace ExtendedResponse

def tag : Tag := 0x78
def oidTag : Tag := 0x8A
def valueTag : Tag := 0x8B

/-- Names the notification that the server is about to close the connection. -/
def disconnectionOid : String := "1.3.6.1.4.1.1466.20036"

def encode (r : ExtendedResponse) : Element :=
  .constructed tag
    (r.response.members ++ r.oid.toList.map (.stringTagged oidTag)
      ++ r.value.toList.map (⟨valueTag, ·⟩))

/-- Reads one optional member; a later one of the same tag replaces it. -/
def decodeOptional (r : ExtendedResponse) (e : Element) :
    Except ProtocolError ExtendedResponse := do
  if e.tag = Response.referralsTag then
    return { r with response.referrals := ← Response.decodeReferrals e }
  else if e.tag = oidTag then return { r with oid := some (← e.asStringTagged oidTag) }
  else if e.tag = valueTag then return { r with value := some e.content }
  else throw (.unknownTag "extended response" e.tag)

/-- Reads an extended response: the head, and up to three members told apart by their tags. -/
def decode (e : Element) : Except ProtocolError ExtendedResponse := do
  let members ← e.asSequenceTagged tag
  checkCount "extended response" 3 (some 6) members
  let (response, rest) ← Response.decodeHead "extended response" members
  rest.foldlM decodeOptional ⟨response, none, none⟩

end ExtendedResponse

/-! ## Intermediate -/

/-- A response that does not end its operation. -/
structure IntermediateResponse where
  oid : Option String
  value : Option (List UInt8)
  deriving DecidableEq, Repr

namespace IntermediateResponse

def tag : Tag := 0x79
def oidTag : Tag := 0x80
def valueTag : Tag := 0x81

def encode (r : IntermediateResponse) : Element :=
  .constructed tag
    (r.oid.toList.map (.stringTagged oidTag) ++ r.value.toList.map (⟨valueTag, ·⟩))

/-- Reads one optional member; a later one of the same tag replaces it. -/
def decodeOptional (r : IntermediateResponse) (e : Element) :
    Except ProtocolError IntermediateResponse := do
  if e.tag = oidTag then return { r with oid := some (← e.asStringTagged oidTag) }
  else if e.tag = valueTag then return { r with value := some e.content }
  else throw (.unknownTag "intermediate response" e.tag)

/-- Reads an intermediate response, which may have no members. -/
def decode (e : Element) : Except ProtocolError IntermediateResponse := do
  let members ← e.asSequenceTagged tag
  checkCount "intermediate response" 0 (some 2) members
  members.foldlM decodeOptional ⟨none, none⟩

end IntermediateResponse
end Ldap
