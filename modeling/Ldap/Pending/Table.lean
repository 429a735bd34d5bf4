import Ldap.Inbox
import Ldap.Pending.Timer

/-!
# Pending operations

Every request that waits for a response is registered until its outcome is known. The table keeps
all registrations that were ever made, each with its stage; a registration is named by its place in
that list, so one that is over is never mistaken for a later one with the same message identifier.
The operations that are pending are those of stage `pending`.

While a listener hears an event it may call the table again. `agenda` holds what is still to be
done for the calls in progress, the innermost first.
-/

namespace Ldap

/-! ## Outcomes -/

/-- What is known about an operation when its outcome is made. -/
structure Progress where
  id : Int32
  kind : OperationKind
  entries : Nat
  references : Nat
  /-- Milliseconds since the operation was registered. -/
  elapsed : Nat
  deriving DecidableEq, Repr

/-- What ends an operation. -/
inductive Verdict where
  /-- The client itself. -/
  | clientSide (code : ResultCode) (diagnostic : String)
  /-- A message from the server. -/
  | response (message : Message)
  /-- Its time is up; `abandoned` tells whether the server hears of it. -/
  | timeout (abandoned : Bool)
  deriving DecidableEq, Repr

namespace Progress

/-- An outcome that the client finds out by itself. -/
def clientSide (p : Progress) (code : ResultCode) (diagnostic : String) : Outcome :=
  .clientSide p.id p.kind code diagnostic p.entries p.references

/-- The wording of a timeout. -/
def timeoutText (p : Progress) (abandoned : Bool) : String :=
  "The asynchronous operation with message ID " ++ toString p.id.toInt
    ++ " did not complete within "
    ++ (if abandoned then toString p.elapsed ++ " ms and has been abandoned"
        else "the maximum response time (" ++ toString p.elapsed ++ " ms)")

/-- The outcome when a response does not fit the request. -/
def unexpected (p : Progress) (m : Message) : Outcome :=
  p.clientSide .decodingError
    ("unexpected " ++ m.op.name ++ " in response to message " ++ toString m.id.toInt)

/-- The outcome that a verdict leads to. A message has to hold a final response of the kind of the
operation. -/
def outcome (p : Progress) : Verdict → Outcome
  | .clientSide code diagnostic => p.clientSide code diagnostic
  | .timeout abandoned => p.clientSide .timeout (p.timeoutText abandoned)
  | .response m =>
    if m.op.kind? = some p.kind then
      (Outcome.ofMessage? m p.entries p.references none).getD (p.unexpected m)
    else p.unexpected m

end Progress

/-! ## Registrations -/

/-- How far a registration is. -/
inductive Stage where
  /-- It stands in the table. -/
  | pending
  /-- It was taken out of the table to be failed. -/
  | drained
  /-- Its listener hears nothing more once the event in progress is over. -/
  | over
  deriving DecidableEq, Repr

/-- A request that waits, or waited, for its outcome. -/
structure Registration (L : Type) where
  id : Int32
  kind : OperationKind
  created : Nat
  listener : L
  stage : Stage
  /-- The entries that came for it. -/
  entries : Nat
  /-- The references that came for it. -/
  references : Nat
  timer : Option Timer
  deriving Repr

namespace Registration

variable {L : Type}

/-- Whether a registration is the pending one with an identifier. -/
def isPending (r : Registration L) (id : Int32) : Bool :=
  r.stage = .pending && r.id = id

/-- What is known about a registration at some time. -/
def progress (r : Registration L) (now : Nat) : Progress :=
  ⟨r.id, r.kind, r.entries, r.references, now - r.created⟩

/-- Counts what came for a registration. -/
def count (r : Registration L) : Delivery → Registration L
  | .entry _ => { r with entries := r.entries + 1 }
  | .reference _ => { r with references := r.references + 1 }
  | .intermediate _ => r

/-- Whether something may come for an operation of the kind of a registration. -/
def admits (r : Registration L) : Delivery → Bool
  | .intermediate _ => true
  | _ => r.kind = .search

/-- Ends a registration. Its timer is cancelled unless it is what ends it. -/
def finish (r : Registration L) (byTimer : Bool) : Registration L :=
  { r with stage := .over, timer := if byTimer then r.timer else r.timer.map Timer.cancel }

/-- Takes a registration out of the table. -/
def drain (r : Registration L) : Registration L :=
  if r.stage = .pending then { r with stage := .drained } else r

end Registration

/-! ## The table -/

/-- The answer to a call. -/
inductive Reply where
  | registered (id : Int32)
  | refused (error : SessionError)
  | flag (value : Bool)
  /-- What the outcome was made from, if there was an operation to complete. -/
  | completed (progress : Option Progress)
  | count (operations : Nat)
  | kind (kind : Option OperationKind)
  | text (text : String)
  | done
  deriving DecidableEq, Repr

/-- Something still to be done for a call. -/
inductive Activity where
  /-- The listener of the registration at a place hears an event. -/
  | hearing (owner : Nat)
  /-- Registrations are failed one by one; `finished` counts those that were not over. -/
  | failing (owners : List Nat) (code : ResultCode) (diagnostic : String) (finished : Nat)
  /-- Timers that are due go off one by one. -/
  | ringing
  /-- A call is over but for its answer. -/
  | answering (reply : Reply)
  deriving DecidableEq, Repr

/-- What can be seen of the table from outside. -/
inductive Sign where
  /-- The listener of a registration begins to hear an event. -/
  | heard (owner : Nat) (id : Int32) (event : Event)
  /-- The server is to be told that nobody waits for an operation. -/
  | abandoning (owner : Nat) (id : Int32)
  /-- A call gives its answer. -/
  | answered (reply : Reply)
  deriving DecidableEq, Repr

/-- The table of pending operations, with a clock and what is still to be done. -/
structure Table (L : Type) where
  registrations : List (Registration L)
  now : Nat
  scheduler : Scheduler
  /-- Whether the server is told of operations whose time is up. -/
  abandons : Bool
  agenda : List Activity
  deriving Repr

namespace Table

variable {L : Type}

/-- A table without operations. -/
def empty (scheduler : Scheduler) (abandons : Bool) : Table L :=
  ⟨[], 0, scheduler, abandons, []⟩

/-- The place of the pending registration with an identifier. -/
def find? (t : Table L) (id : Int32) : Option Nat :=
  t.registrations.findIdx? (·.isPending id)

/-- Whether an operation with an identifier is pending. -/
def contains (t : Table L) (id : Int32) : Bool :=
  t.registrations.any (·.isPending id)

/-- The kind of the pending operation with an identifier. -/
def kind? (t : Table L) (id : Int32) : Option OperationKind :=
  (t.registrations.find? (·.isPending id)).map (·.kind)

/-- The number of pending operations. -/
def size (t : Table L) : Nat :=
  t.registrations.countP (·.stage = .pending)

/-- The timers in the order in which they were armed. -/
def timers (t : Table L) : List Timer :=
  t.registrations.filterMap (·.timer)

/-- Whether the registration at a place may still hear something. -/
def isLive (t : Table L) (owner : Nat) : Bool :=
  (t.registrations[owner]?).any (·.stage ≠ .over)

/-- A table for a reader's eye. -/
def describe (t : Table L) : String :=
  "PendingOperations \x7b pending: " ++ toString t.size ++ ", scheduler: " ++ t.scheduler.name
    ++ ", abandon_on_timeout: " ++ toString t.abandons ++ " \x7d"

end Table
end Ldap
