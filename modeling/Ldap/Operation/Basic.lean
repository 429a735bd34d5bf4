import Ldap.Operation.Kind
import Ldap.Operation.Request
import Ldap.Operation.Response

/-!
# Operations

A message carries one request or one response. Its tag tells which; `Operation.decode` reads the
element that `Operation.encode` writes.
-/

namespace Ldap

open Ber (Element Tag)

/-- The kinds of final response that have no fields of their own. -/
inductive DoneKind where
  | search
  | modify
  | add
  | delete
  | modifyDn
  | compare
  deriving DecidableEq, Repr

namespace DoneKind

def all : List DoneKind := [.search, .modify, .add, .delete, .modifyDn, .compare]

def tag : DoneKind → Tag
  | .search => 0x65
  | .modify => 0x67
  | .add => 0x69
  | .delete => 0x6B
  | .modifyDn => 0x6D
  | .compare => 0x6F

def name : DoneKind → String
  | .search => "SearchResultDone"
  | .modify => "ModifyResponse"
  | .add => "AddResponse"
  | .delete => "DelResponse"
  | .modifyDn => "ModifyDNResponse"
  | .compare => "CompareResponse"

/-- The kind of operation that a response ends. -/
def kind : DoneKind → OperationKind
  | .search => .search
  | .modify => .modify
  | .add => .add
  | .delete => .delete
  | .modifyDn => .modifyDn
  | .compare => .compare

/-- The kind of response with a tag. -/
def ofTag? (t : Tag) : Option DoneKind :=
  all.find? (·.tag = t)

end DoneKind

/-- What a message carries. -/
inductive Operation where
  | bindRequest (request : BindRequest)
  | bindResponse (response : BindResponse)
  | unbindRequest
  | searchRequest (request : SearchRequest)
  | entry (entry : Entry)
  | reference (reference : Reference)
  | modifyRequest (request : ModifyRequest)
  | addRequest (request : AddRequest)
  | deleteRequest (request : DeleteRequest)
  | modifyDnRequest (request : ModifyDnRequest)
  | compareRequest (request : CompareRequest)
  | abandonRequest (request : AbandonRequest)
  | extendedRequest (request : ExtendedRequest)
  | extendedResponse (response : ExtendedResponse)
  | intermediateResponse (response : IntermediateResponse)
  | done (kind : DoneKind) (response : Response)
  deriving DecidableEq, Repr

namespace Operation

def unbindTag : Tag := 0x42

/-- The tag of an operation. -/
def tag : Operation → Tag
  | bindRequest _ => BindRequest.tag
  | bindResponse _ => BindResponse.tag
  | unbindRequest => unbindTag
  | searchRequest _ => SearchRequest.tag
  | entry _ => Entry.tag
  | reference _ => Reference.tag
  | modifyRequest _ => ModifyRequest.tag
  | addRequest _ => AddRequest.tag
  | deleteRequest _ => DeleteRequest.tag
  | modifyDnRequest _ => ModifyDnRequest.tag
  | compareRequest _ => CompareRequest.tag
  | abandonRequest _ => AbandonRequest.tag
  | extendedRequest _ => ExtendedRequest.tag
  | extendedResponse _ => ExtendedResponse.tag
  | intermediateResponse _ => IntermediateResponse.tag
  | done kind _ => kind.tag

/-- The name of an operation. -/
def name : Operation → String
  | bindRequest _ => "BindRequest"
  | bindResponse _ => "BindResponse"
  | unbindRequest => "UnbindRequest"
  | searchRequest _ => "SearchRequest"
  | entry _ => "SearchResultEntry"
  | reference _ => "SearchResultReference"
  | modifyRequest _ => "ModifyRequest"
  | addRequest _ => "AddRequest"
  | deleteRequest _ => "DelRequest"
  | modifyDnRequest _ => "ModifyDNRequest"
  | compareRequest _ => "CompareRequest"
  | abandonRequest _ => "AbandonRequest"
  | extendedRequest _ => "ExtendedRequest"
  | extendedResponse _ => "ExtendedResponse"
  | intermediateResponse _ => "IntermediateResponse"
  | done kind _ => kind.name

/-- The kind of operation that a request starts or a response belongs to. An intermediate response
may belong to any. -/
def kind? : Operation → Option OperationKind
  | bindRequest _ | bindResponse _ => some .bind
  | unbindRequest => some .unbind
  | searchRequest _ | entry _ | reference _ => some .search
  | modifyRequest _ => some .modify
  | addRequest _ => some .add
  | deleteRequest _ => some .delete
  | modifyDnRequest _ => some .modifyDn
  | compareRequest _ => some .compare
  | abandonRequest _ => some .abandon
  | extendedRequest _ | extendedResponse _ => some .extended
  | intermediateResponse _ => none
  | done kind _ => some kind.kind

/-- The outcome that a final response reports. -/
def response? : Operation → Option Response
  | bindResponse r => some r.response
  | extendedResponse r => some r.response
  | done _ r => some r
  | _ => none

/-- Whether an operation is a response that ends its request. -/
def isFinal (op : Operation) : Bool :=
  op.response?.isSome

/-- Whether an operation is a request. -/
def isRequest : Operation → Bool
  | bindRequest _ | unbindRequest | searchRequest _ | modifyRequest _ | addRequest _
  | deleteRequest _ | modifyDnRequest _ | compareRequest _ | abandonRequest _
  | extendedRequest _ => true
  | _ => false

/-- An operation for a reader's eye. -/
def text (op : Operation) : String :=
  match op.response? with
  | some r => op.name ++ "(resultCode=" ++ r.code.text ++ ")"
  | none => op.name

/-- An operation as an element. -/
def encode : Operation → Element
  | bindRequest r => r.encode
  | bindResponse r => r.encode
  | unbindRequest => ⟨unbindTag, []⟩
  | searchRequest r => r.encode
  | entry e => e.encode
  | reference r => r.encode
  | modifyRequest r => r.encode
  | addRequest r => r.encode
  | deleteRequest r => r.encode
  | modifyDnRequest r => r.encode
  | compareRequest r => r.encode
  | abandonRequest r => r.encode
  | extendedRequest r => r.encode
  | extendedResponse r => r.encode
  | intermediateResponse r => r.encode
  | done kind r => r.encode kind.tag

/-- Reads the operation that a tag stands for. -/
def decodeTagged (tag : Tag) (e : Element) : Except ProtocolError Operation := do
  if tag = BindRequest.tag then return bindRequest (← BindRequest.decode e)
  else if tag = BindResponse.tag then return bindResponse (← BindResponse.decode e)
  else if tag = unbindTag then
    e.asNullTagged unbindTag
    return unbindRequest
  else if tag = SearchRequest.tag then return searchRequest (← SearchRequest.decode e)
  else if tag = Entry.tag then return entry (← Entry.decode e)
  else if tag = Reference.tag then return reference (← Reference.decode e)
  else if tag = ModifyRequest.tag then return modifyRequest (← ModifyRequest.decode e)
  else if tag = AddRequest.tag then return addRequest (← AddRequest.decode e)
  else if tag = DeleteRequest.tag then return deleteRequest (← DeleteRequest.decode e)
  else if tag = ModifyDnRequest.tag then return modifyDnRequest (← ModifyDnRequest.decode e)
  else if tag = CompareRequest.tag then return compareRequest (← CompareRequest.decode e)
  else if tag = AbandonRequest.tag then return abandonRequest (← AbandonRequest.decode e)
  else if tag = ExtendedRequest.tag then return extendedRequest (← ExtendedRequest.decode e)
  else if tag = ExtendedResponse.tag then return extendedResponse (← ExtendedResponse.decode e)
  else if tag = IntermediateResponse.tag then
    return intermediateResponse (← IntermediateResponse.decode e)
  else
    match DoneKind.ofTag? tag with
    | some kind => return done kind (← Response.decode e kind.tag)
    | none => throw (.unknownTag "protocol op" tag)

/-- Reads an operation. -/
def decode (e : Element) : Except ProtocolError Operation :=
  decodeTagged e.tag e

end Operation
end Ldap
