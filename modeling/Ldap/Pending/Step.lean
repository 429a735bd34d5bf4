import Ldap.Pending.Table

/-!
# Calls to the table of pending operations

A call changes the table at once and puts on the agenda what remains: listeners that hear an event,
operations that are failed one after the other, an answer. `Table.proceed` does the next thing on
the agenda. Between two steps a listener that is hearing an event may make a call of its own, and
operations that are being failed may change places, as no order of theirs is promised; `Move` says
which of these happens, and `Table.run` follows any list of moves.
-/

namespace Ldap

/-- A call to the table. `L` is the type of listeners. -/
inductive Call (L : Type) where
  /-- Registers an operation; without a timeout, or with one of zero, it waits for ever. -/
  | register (id : Int32) (kind : OperationKind) (timeout : Option Nat) (listener : L)
  | deliver (id : Int32) (delivery : Delivery)
  | complete (id : Int32) (verdict : Verdict)
  /-- Ends an operation as if its time were up. -/
  | timeout (id : Int32)
  /-- Forgets an operation; its listener hears nothing more. -/
  | abandon (id : Int32)
  /-- Ends every pending operation. -/
  | failAll (code : ResultCode) (diagnostic : String)
  /-- Makes a timer go off, named by its place in the order of arming. -/
  | fire (timer : Nat)
  /-- Moves the clock, and makes the timers go off that are due then. -/
  | advance (time : Nat)
  | query (id : Int32)
  | describe
  deriving Repr

/-- The name of a call for a reader's eye. -/
def Call.name {L : Type} : Call L → String
  | register .. => "register"
  | deliver _ (.entry _) => "entry"
  | deliver _ (.reference _) => "reference"
  | deliver _ (.intermediate _) => "intermediate"
  | complete .. => "complete"
  | timeout _ => "timeout"
  | abandon _ => "abandon"
  | failAll .. => "fail_all"
  | fire _ => "fire"
  | advance _ => "advance"
  | query _ => "contains"
  | describe => "debug"

namespace Table

variable {L : Type}

/-- Replaces the registration at a place. -/
def put (t : Table L) (owner : Nat) (r : Registration L) : Table L :=
  { t with registrations := t.registrations.set owner r }

/-! ## Ends of operations -/

/-- Ends the registration at a place, unless it is over, and lets its listener hear the outcome.
When a timer ends it, the server is told first if the table abandons. -/
def finish (t : Table L) (owner : Nat) (byTimer : Bool) (verdict : Verdict) :
    Option (Progress × Table L × List Sign) :=
  match t.registrations[owner]? with
  | none => none
  | some r =>
    if r.stage = .over then none
    else
      let progress := r.progress t.now
      some (progress, t.put owner (r.finish byTimer),
        (if byTimer && t.abandons then [.abandoning owner r.id] else [])
          ++ [.heard owner r.id (.result (progress.outcome verdict))])

/-- Lets the time of the registration at a place be up. Tells whether that ended it. -/
def expire (t : Table L) (owner : Nat) : Bool × Table L × List Sign :=
  match t.finish owner true (.timeout t.abandons) with
  | some (_, t, signs) => (true, t, signs)
  | none => (false, t, [])

/-- Ends a pending operation. -/
def complete (t : Table L) (id : Int32) (verdict : Verdict) :
    Option Progress × Table L × List Sign :=
  match (t.find? id).bind fun owner => t.finish owner false verdict with
  | some (progress, t, signs) => (some progress, t, signs)
  | none => (none, t, [])

/-- Lets the time of a pending operation be up. -/
def timeout (t : Table L) (id : Int32) : Bool × Table L × List Sign :=
  match t.find? id with
  | some owner => t.expire owner
  | none => (false, t, [])

/-- Forgets a pending operation. -/
def abandon (t : Table L) (id : Int32) : Bool × Table L :=
  match t.find? id with
  | none => (false, t)
  | some owner =>
    match t.registrations[owner]? with
    | none => (false, t)
    | some r => (true, t.put owner (r.finish false))

/-- Takes every operation out of the table, to be failed one by one. -/
def failAll (t : Table L) (code : ResultCode) (diagnostic : String) : Table L :=
  let owners := (List.range t.registrations.length).filter fun owner =>
    (t.registrations[owner]?).any (·.stage = .pending)
  { t with
    registrations := t.registrations.map Registration.drain
    agenda := .failing owners code diagnostic 0 :: t.agenda }

/-! ## Beginnings of operations, and what comes for them -/

/-- Registers an operation and arms its timer. -/
def register (t : Table L) (id : Int32) (kind : OperationKind) (timeout : Option Nat)
    (listener : L) : Except SessionError (Table L × List Sign) :=
  if !kind.expectsResponse then .error (.unanswered kind)
  else if id ≤ 0 then .error (.unusableId id)
  else if t.contains id then .error (.duplicateId id)
  else
    let add (timer : Option Timer) : Table L := { t with
      registrations := t.registrations ++ [⟨id, kind, t.now, listener, .pending, 0, 0, timer⟩] }
    match timeout.filter (0 < ·) with
    | none => .ok (add none, [])
    | some delay =>
      if t.scheduler = .immediate then .ok ((add none).expire t.registrations.length).2
      else .ok (add (some ⟨delay, t.now + delay, .armed⟩), [])

/-- Passes on what came for a pending operation. It counts for the progress of the operation even
if the operation is of a kind that it may not come for. -/
def deliver (t : Table L) (id : Int32) (delivery : Delivery) : Bool × Table L × List Sign :=
  match t.find? id with
  | none => (false, t, [])
  | some owner =>
    match t.registrations[owner]? with
    | none => (false, t, [])
    | some r =>
      if r.admits delivery then
        (true, t.put owner (r.count delivery), [.heard owner id (.delivery delivery)])
      else (false, t.put owner (r.count delivery), [])

/-! ## Timers -/

/-- The places of the registrations that have a timer, in the order of arming. -/
def timerOwners (t : Table L) : List Nat :=
  (List.range t.registrations.length).filter fun owner =>
    (t.registrations[owner]?).any (·.timer.isSome)

/-- Makes the timer of the registration at a place go off, also when it was cancelled. Tells
whether it had not gone off before. -/
def ring (t : Table L) (owner : Nat) : Bool × Table L × List Sign :=
  match t.registrations[owner]? with
  | none => (false, t, [])
  | some r =>
    match r.timer with
    | none => (false, t, [])
    | some timer =>
      if timer.state = .fired then (false, t, [])
      else (true, ((t.put owner { r with timer := some timer.fire }).expire owner).2)

/-- The timer at a place in the order of arming goes off. -/
def fire (t : Table L) (timer : Nat) : Bool × Table L × List Sign :=
  match t.timerOwners[timer]? with
  | some owner => t.ring owner
  | none => (false, t, [])

/-- The deadline of the registration at a place if its timer has to go off. -/
def due? (t : Table L) (owner : Nat) : Option Nat :=
  match (t.registrations[owner]?).bind (·.timer) with
  | some timer => if timer.isDue t.now then some timer.deadline else none
  | none => none

/-- The registration whose timer has to go off next: among those that are due the one with the
earliest deadline, and of equal ones the one armed first. -/
def nextDue? (t : Table L) : Option Nat :=
  let due := t.timerOwners.filterMap fun owner => (t.due? owner).map (·, owner)
  ((due.mergeSort fun a b => a.1 ≤ b.1).head?).map (·.2)

/-! ## Steps -/

/-- The listeners that begin to hear an event. -/
def hearings (signs : List Sign) : List Activity :=
  signs.filterMap fun
    | .heard owner _ _ => some (.hearing owner)
    | _ => none

/-- Puts on the agenda the listeners that begin to hear an event, and after them something else. -/
def resume (t : Table L) (signs : List Sign) (rest : List Activity) : Table L × List Sign :=
  ({ t with agenda := hearings signs ++ rest ++ t.agenda }, signs)

/-- Makes a call. -/
def call (t : Table L) : Call L → Table L × List Sign
  | .register id kind timeout listener =>
    match t.register id kind timeout listener with
    | .ok (t, signs) => t.resume signs [.answering (.registered id)]
    | .error e => t.resume [] [.answering (.refused e)]
  | .deliver id delivery =>
    let (b, t, signs) := t.deliver id delivery
    t.resume signs [.answering (.flag b)]
  | .complete id verdict =>
    let (progress, t, signs) := t.complete id verdict
    t.resume signs [.answering (.completed progress)]
  | .timeout id =>
    let (b, t, signs) := t.timeout id
    t.resume signs [.answering (.flag b)]
  | .abandon id =>
    let (b, t) := t.abandon id
    t.resume [] [.answering (.flag b)]
  | .failAll code diagnostic => (t.failAll code diagnostic, [])
  | .fire timer =>
    let (b, t, signs) := t.fire timer
    t.resume signs [.answering (.flag b)]
  | .advance time => { t with now := t.now + time }.resume [] [.ringing, .answering .done]
  | .query id => t.resume [] [.answering (.kind (t.kind? id))]
  | .describe => t.resume [] [.answering (.text t.describe)]

/-- Does one thing. -/
def perform (t : Table L) : Activity → Table L × List Sign
  | .hearing _ => (t, [])
  | .answering reply => (t, [.answered reply])
  | .failing [] _ _ finished => t.resume [] [.answering (.count finished)]
  | .failing (owner :: owners) code diagnostic finished =>
    match t.finish owner false (.clientSide code diagnostic) with
    | some (_, t, signs) => t.resume signs [.failing owners code diagnostic (finished + 1)]
    | none => t.resume [] [.failing owners code diagnostic finished]
  | .ringing =>
    match t.nextDue? with
    | none => (t, [])
    | some owner =>
      let (_, t, signs) := t.ring owner
      t.resume signs [.ringing]

/-- Does the next thing on the agenda. -/
def proceed (t : Table L) : Table L × List Sign :=
  match t.agenda with
  | [] => (t, [])
  | activity :: agenda => { t with agenda }.perform activity

/-- Puts the operations that are to be failed next into another order. -/
def rearrange (t : Table L) (owners : List Nat) : Table L :=
  match t.agenda with
  | .failing listed code diagnostic finished :: agenda =>
    if owners.isPerm listed then
      { t with agenda := .failing owners code diagnostic finished :: agenda }
    else t
  | _ => t

/-- Whether a call may be made: nothing is in progress, or a listener is hearing an event. -/
def isListening (t : Table L) : Bool :=
  match t.agenda with
  | [] | .hearing _ :: _ => true
  | _ => false

end Table

/-- What happens next. -/
inductive Move (L : Type) where
  /-- Somebody makes a call: the owner of the table or, from within, the listener in progress. -/
  | call (call : Call L)
  /-- The next thing on the agenda is done. -/
  | proceed
  /-- The operations that are to be failed change places. -/
  | rearrange (owners : List Nat)
  deriving Repr

namespace Table

variable {L : Type}

/-- Follows a move. A call that nobody is there to make is left out. -/
def step (t : Table L) : Move L → Table L × List Sign
  | .call c => if t.isListening then t.call c else (t, [])
  | .proceed => t.proceed
  | .rearrange owners => (t.rearrange owners, [])

/-- Follows moves and gathers the signs. -/
def run (t : Table L) : List (Move L) → Table L × List Sign
  | [] => (t, [])
  | m :: ms =>
    let (t, signs) := t.step m
    let (t, later) := t.run ms
    (t, signs ++ later)

end Table
end Ldap
