import Ldap.Outcome
import Ldap.SessionError

/-!
# Responses and where they wait

A request hears of its entries, references and intermediate responses, and last of its outcome.
Whoever sent the request may take these events one by one from an inbox, or wait for the outcome
and get with it what came before.
-/

namespace Ldap

/-- What comes before an outcome. -/
inductive Delivery where
  | entry (entry : Entry)
  | reference (reference : Reference)
  | intermediate (response : IntermediateResponse)
  deriving DecidableEq, Repr

/-- What a request hears of. -/
inductive Event where
  | delivery (delivery : Delivery)
  | result (outcome : Outcome)
  deriving DecidableEq, Repr

/-- The kinds of event. -/
inductive EventKind where
  | entry
  | reference
  | intermediate
  | result
  deriving DecidableEq, Repr

def Delivery.kind : Delivery → EventKind
  | entry _ => .entry
  | reference _ => .reference
  | intermediate _ => .intermediate

def Event.kind : Event → EventKind
  | .delivery d => d.kind
  | .result _ => .result

/-- The events of a request that were not taken yet. -/
structure Inbox where
  events : List Event
  /-- Whether more events can come. -/
  attached : Bool
  /-- Whether the outcome was taken. -/
  finished : Bool
  deriving DecidableEq, Repr

/-- What is there to be taken. -/
inductive Awaited (α : Type) where
  | ready (value : α)
  | waiting
  deriving DecidableEq, Repr

namespace Inbox

/-- The inbox of a new request. -/
def empty : Inbox := ⟨[], true, false⟩

/-- The identifier of the request for a reader's eye. -/
def idText (id : Int32) : String :=
  "AsyncRequestID(messageID=" ++ toString id.toInt ++ ")"

/-- Puts an event in. -/
def put (i : Inbox) (e : Event) : Inbox :=
  { i with events := i.events ++ [e] }

/-- Takes the next event; none after the outcome. -/
def next (i : Inbox) : Except SessionError (Awaited (Option Event)) × Inbox :=
  if i.finished then (.ok (.ready none), i)
  else
    match i.events with
    | e :: events => (.ok (.ready (some e)), { i with events, finished := e.kind = .result })
    | [] => (if i.attached then .ok .waiting else .error .connectionClosed, i)

/-- Adds what was found before it to the outcome of a search. -/
def collect (found : Found) (o : Outcome) : Outcome :=
  match o.detail with
  | .search .. =>
    { o with
      detail := .search found.entries.length found.references.length (some found) }
  | _ => o

/-- The outcome among some events, with what was found before. -/
def resultAmong (found : Found) : List Event → Option Outcome
  | [] => none
  | .delivery (.entry e) :: events =>
    resultAmong { found with entries := found.entries ++ [e] } events
  | .delivery (.reference r) :: events =>
    resultAmong { found with references := found.references ++ [r] } events
  | .delivery (.intermediate _) :: events => resultAmong found events
  | .result o :: _ => some (collect found o)

/-- The outcome, with what was found and not taken before. -/
def result (i : Inbox) : Except SessionError (Awaited Outcome) :=
  if i.finished then .error .connectionClosed
  else
    match resultAmong ⟨[], []⟩ i.events with
    | some o => .ok (.ready o)
    | none => if i.attached then .ok .waiting else .error .connectionClosed

end Inbox
end Ldap
