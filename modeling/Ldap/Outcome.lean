import Ldap.Message

/-!
# Outcomes

How an operation ended: the response with its controls, the identifier and kind of the request, and
what only some kinds of operation have. `Outcome.ofMessage?` reads a final response; the outcomes
that a client finds out by itself are made by `Outcome.clientSide`.
-/

namespace Ldap

/-- Entries and references that were kept while a search ran. -/
structure Found where
  entries : List Entry
  references : List Reference
  deriving DecidableEq, Repr

/-- What an outcome has beyond its response. -/
inductive OutcomeDetail where
  | plain
  /-- How much the search found, and what, if it was kept. -/
  | search (entries references : Nat) (found : Option Found)
  | compare
  | extended (oid : Option String) (value : Option (List UInt8))
  | bind (saslCredentials : Option (List UInt8))
  deriving DecidableEq, Repr

/-- How an operation ended. -/
structure Outcome where
  id : Int32
  kind : OperationKind
  response : Response
  controls : List Control
  detail : OutcomeDetail
  deriving DecidableEq, Repr

namespace OutcomeDetail

/-- The name of a kind of detail. -/
def name : OutcomeDetail → String
  | plain => "Generic"
  | search .. => "Search"
  | compare => "Compare"
  | extended .. => "Extended"
  | bind _ => "Bind"

/-- What the outcome of a kind of operation has when there is no response to take it from. -/
def ofKind (kind : OperationKind) (entries references : Nat) : OutcomeDetail :=
  match kind with
  | .search => search entries references none
  | .compare => compare
  | .extended => extended none none
  | .bind => bind none
  | _ => plain

/-- What the outcome has that a final response reports. What a search found counts for its numbers
if it was kept. -/
def ofResponse (op : Operation) (entries references : Nat) (found : Option Found) :
    OutcomeDetail :=
  match op with
  | .done .search _ =>
    match found with
    | some f => search f.entries.length f.references.length (some f)
    | none => search entries references none
  | .done .compare _ => compare
  | .extendedResponse r => extended r.oid r.value
  | .bindResponse r => bind r.saslCredentials
  | _ => plain

end OutcomeDetail

namespace Outcome

/-- An outcome whose detail goes by the kind of operation. -/
def ofKind (id : Int32) (kind : OperationKind) (response : Response) (controls : List Control)
    (entries references : Nat) : Outcome :=
  ⟨id, kind, response, controls, .ofKind kind entries references⟩

/-- An outcome that the client finds out by itself. -/
def clientSide (id : Int32) (kind : OperationKind) (code : ResultCode) (diagnostic : String)
    (entries references : Nat) : Outcome :=
  ofKind id kind ⟨code, none, some diagnostic, []⟩ [] entries references

/-- The outcome that a message reports, if it holds a final response. -/
def ofMessage? (m : Message) (entries references : Nat) (found : Option Found) :
    Option Outcome := do
  let response ← m.op.response?
  let kind ← m.op.kind?
  return ⟨m.id, kind, response, m.controls, .ofResponse m.op entries references found⟩

/-- The first control with an identifier. -/
def control? (o : Outcome) (oid : String) : Option Control :=
  o.controls.find? (·.oid == oid)

/-- Whether the assertion of a compare holds, if the compare tells. -/
def matched? (o : Outcome) : Option Bool :=
  if o.response.code = .compareTrue then some true
  else if o.response.code = .compareFalse then some false
  else none

/-- The entries that were kept. -/
def entries (o : Outcome) : List Entry :=
  match o.detail with
  | .search _ _ (some found) => found.entries
  | _ => []

/-- The response of an outcome for a reader's eye. -/
def responseText (o : Outcome) : String :=
  let part (name : String) (s : Option String) :=
    s.elim "" fun s => ", " ++ name ++ "='" ++ s ++ "'"
  "LDAPResult(resultCode=" ++ o.response.code.text ++ ", messageID=" ++ toString o.id.toInt
    ++ ", opType='" ++ o.kind.name ++ "'" ++ part "diagnosticMessage" o.response.diagnostic
    ++ part "matchedDN" o.response.matchedDn
    ++ (if o.response.referrals.isEmpty then ""
        else ", referralURLs=\x7b" ++ ", ".intercalate o.response.referrals ++ "\x7d")
    ++ (if o.controls.isEmpty then ""
        else ", responseControls=" ++ Message.oidsText o.controls) ++ ")"

/-- An outcome for a reader's eye. -/
def text (o : Outcome) : String :=
  match o.detail with
  | .search entries references _ =>
    "SearchResult(resultCode=" ++ o.response.code.text ++ ", entriesReturned="
      ++ toString entries ++ ", referencesReturned=" ++ toString references ++ ")"
  | _ => o.responseText

end Outcome
end Ldap
