import Ldap.Connection.Options
import Ldap.Pending.Step

/-!
# Connections

A connection joins the requests of its owner with the messages of a server. Requests are registered
in the table of pending operations, and their messages wait in the outbox for the writer; what the
server sends waits for the reader. This module has what the owner does; reader and writer are in
`Ldap.Connection.Tasks`.
-/

namespace Ldap

/-- Who hears of a request. -/
inductive Listener where
  /-- Somebody who is told of every event. -/
  | observer
  /-- An inbox, in which events wait to be taken. -/
  | inbox (inbox : Inbox)
  deriving DecidableEq, Repr

namespace Listener

/-- Lets a listener hear an event. -/
def hear : Listener → Event → Listener
  | observer, _ => observer
  | inbox i, e => inbox (i.put e)

/-- The inbox of a listener. -/
def inbox? : Listener → Option Inbox
  | observer => none
  | inbox i => some i

end Listener

/-- Work for the writer. -/
inductive Outgoing where
  | message (message : Message)
  /-- Nothing more will be written. -/
  | close
  deriving DecidableEq, Repr

/-- What can be seen of a connection from outside. -/
inductive Occurrence where
  /-- The listener of a request begins to hear an event. -/
  | heard (owner : Nat) (id : Int32) (event : Event)
  /-- The server says something that was not asked for. -/
  | noticed (outcome : Outcome)
  /-- A message is handed to the writer. -/
  | queued (message : Message)
  deriving DecidableEq, Repr

/-- A connection. -/
structure Connection where
  options : Options
  table : Table Listener
  ids : MessageIds
  /-- Whether no more requests are accepted. -/
  closed : Bool
  outbox : List Outgoing
  /-- Whether the writer takes more work. -/
  writing : Bool
  /-- Whether the writer has failed and is gone once nothing is in progress. -/
  writerLeaving : Bool
  /-- The bytes that the writer has written. -/
  written : List UInt8
  /-- Whether the writer has given its side of the stream up. If that fails, nothing comes of it. -/
  shutDown : Bool
  /-- What writing fails with from now on. -/
  writeFault : Option String
  /-- The bytes that the reader has yet to take. -/
  inbound : List UInt8
  /-- How the stream stops, once it does. -/
  ending : Option Ber.Ending
  /-- Whether the reader reads on. -/
  reading : Bool
  /-- What the server said without being asked, while somebody hears of it. -/
  notice : Option Outcome
  deriving Repr

namespace Connection

/-- A new connection. Its timers go off when they are made to, or when their time has passed, and
never while they are armed: a scheduler that runs its task at once (`Scheduler.immediate`), though a
table may have one, is left out of connections. -/
def start (options : Options) : Connection where
  options
  table := .empty .manual options.abandons
  ids := .startingAt options.initialId
  closed := false
  outbox := []
  writing := true
  writerLeaving := false
  written := []
  shutDown := false
  writeFault := none
  inbound := []
  ending := none
  reading := true
  notice := none

/-! ## The outbox -/

/-- Hands work to the writer, unless the writer is gone. -/
def enqueue (c : Connection) (w : Outgoing) : Bool × Connection :=
  if c.writing then (true, { c with outbox := c.outbox ++ [w] }) else (false, c)

/-- Hands a message to the writer. -/
def send (c : Connection) (m : Message) : Bool × Connection × List Occurrence :=
  let (sent, c) := c.enqueue (.message m)
  (sent, c, if sent then [.queued m] else [])

/-- Tells the server that nobody waits for an operation. -/
def sendAbandon (c : Connection) (target : Int32) : Bool × Connection × List Occurrence :=
  let (id, ids) := c.ids.draw
  { c with ids }.send ⟨id, .abandonRequest ⟨target⟩, []⟩

/-! ## The table -/

/-- Follows a sign of the table. -/
def follow (c : Connection) : Sign → Connection × List Occurrence
  | .heard owner id event =>
    match c.table.registrations[owner]? with
    | none => (c, [])
    | some r =>
      ({ c with table := c.table.put owner { r with listener := r.listener.hear event } },
        [.heard owner id event])
  | .abandoning _ id => (c.sendAbandon id).2
  | .answered _ => (c, [])

/-- Follows signs of the table. -/
def followAll (c : Connection) : List Sign → Connection × List Occurrence
  | [] => (c, [])
  | s :: signs =>
    let (c, seen) := c.follow s
    let (c, later) := c.followAll signs
    (c, seen ++ later)

/-- Takes over what became of the table. -/
def withTable (c : Connection) (x : Table Listener × List Sign) : Connection × List Occurrence :=
  { c with table := x.1 }.followAll x.2

/-- Makes a call to the table. -/
def callTable (c : Connection) (call : Call Listener) : Connection × List Occurrence :=
  c.withTable (c.table.call call)

/-- Fails every pending operation and accepts no more. -/
def shut (c : Connection) (code : ResultCode) (diagnostic : String) :
    Connection × List Occurrence :=
  { c with closed := true }.callTable (.failAll code diagnostic)

/-! ## What the owner does -/

/-- Sends a request, whose responses go to a listener. Nothing else happens while it is registered,
as no timer goes off when it is armed, so that a connection found open here is still open when the
message is handed to the writer, and is not asked again. -/
def submit (c : Connection) (op : Operation) (controls : List Control) (listener : Listener) :
    Except SessionError Int32 × Connection × List Occurrence :=
  match if op.isRequest then op.kind? else none with
  | none => (.error (.notARequest op.name), c, [])
  | some kind =>
    if c.closed then (.error .connectionClosed, c, [])
    else
      let (id, ids) := c.ids.drawFree c.table.contains c.table.size
      let c := { c with ids }
      match c.table.register id kind (c.options.timeoutFor kind) listener with
      | .error e => (.error e, c, [])
      | .ok (table, _) =>
        let (sent, c, seen) := { c with table }.send ⟨id, op, controls⟩
        if sent then (.ok id, c, seen)
        else (.error .connectionClosed, { c with table := (c.table.abandon id).2 }, seen)

/-- Tells the server that nobody waits for an operation, whether or not it is pending. Its listener
hears nothing more. -/
def abandon (c : Connection) (id : Int32) :
    Except SessionError Unit × Connection × List Occurrence :=
  let (sent, c, seen) := { c with table := (c.table.abandon id).2 }.sendAbandon id
  (if sent then .ok () else .error .connectionClosed, c, seen)

/-- Takes leave of the server. -/
def unbind (c : Connection) : Except SessionError Unit × Connection × List Occurrence :=
  if c.closed then (.error .connectionClosed, c, [])
  else
    let (id, ids) := c.ids.draw
    let (sent, c, seen) := { c with ids }.send ⟨id, .unbindRequest, []⟩
    let (c, later) := (c.enqueue .close).2.shut .userCanceled
      "the connection was closed by an unbind request"
    (if sent then .ok () else .error .connectionClosed, c, seen ++ later)

/-- Gives the connection up. Listeners hear nothing more; the writer finishes its work. All
registrations end at once here, as they do where the outbox is empty. A writer with work left keeps
the table until that is done: what a listener could hear in this time, of a timer that goes off or a
message that cannot be written, is left out. -/
def drop (c : Connection) : Connection :=
  { (c.enqueue .close).2 with
    reading := false
    table := { c.table with
      registrations := c.table.registrations.map (·.finish false)
      agenda := [] } }

/-- The inbox of a request, which is named by the place of its registration. -/
def inbox? (c : Connection) (owner : Nat) : Option Inbox := do
  let r ← c.table.registrations[owner]?
  let i ← r.listener.inbox?
  return { i with attached := c.table.isLive owner }

/-- Replaces the inbox of a request. -/
def putInbox (c : Connection) (owner : Nat) (i : Inbox) : Connection :=
  match c.table.registrations[owner]? with
  | none => c
  | some r => { c with table := c.table.put owner { r with listener := .inbox i } }

/-- Takes the next event from the inbox of a request. -/
def next (c : Connection) (owner : Nat) :
    Except SessionError (Awaited (Option Event)) × Connection :=
  match c.inbox? owner with
  | none => (.error .connectionClosed, c)
  | some i =>
    let (e, i) := i.next
    (e, c.putInbox owner i)

/-- The outcome of a request, with what was found and not taken before. -/
def result (c : Connection) (owner : Nat) : Except SessionError (Awaited Outcome) :=
  match c.inbox? owner with
  | none => .error .connectionClosed
  | some i => i.result

/-- A connection for a reader's eye. -/
def describe (c : Connection) : String :=
  "Connection \x7b pending: " ++ toString c.table.size ++ ", closed: " ++ toString c.closed
    ++ ", .. \x7d"

end Connection
end Ldap
