import Ldap.Connection.Tasks

/-!
# Runs of a connection

A run is a list of moves: the owner, or a listener that is hearing an event, does something; time
passes; bytes arrive; the next thing in progress goes on; or, when nothing is in progress, reader
or writer do their next piece of work. `Connection.settle` lets all work be done that there is.
-/

namespace Ldap

/-- What the owner of a connection, or a listener, may do. -/
inductive Request where
  | submit (op : Operation) (controls : List Control) (listener : Listener)
  | abandon (id : Int32)
  | unbind
  /-- Makes a timer go off, named by its place in the order of arming. -/
  | fire (timer : Nat)
  /-- Lets time pass. -/
  | advance (time : Nat)
  deriving DecidableEq, Repr

/-- What happens to a stream from outside. -/
inductive StreamChange where
  | arrive (bytes : List UInt8)
  | stop (ending : Ber.Ending)
  | failWriting (reason : String)
  deriving DecidableEq, Repr

/-- What happens next to a connection. -/
inductive ConnectionMove where
  | request (request : Request)
  | stream (change : StreamChange)
  /-- The next thing in progress goes on. -/
  | proceed
  /-- The operations that are to be failed change places. -/
  | rearrange (owners : List Nat)
  | read
  | write
  deriving DecidableEq, Repr

namespace Connection

/-- Whether a call is in progress. -/
def isBusy (c : Connection) : Bool :=
  !c.table.agenda.isEmpty || c.notice.isSome

/-- Whether somebody is there to make a request. -/
def isListening (c : Connection) : Bool :=
  c.table.isListening

/-- Does what is requested. -/
def request (c : Connection) : Request → Connection × List Occurrence
  | .submit op controls listener => (c.submit op controls listener).2
  | .abandon id => (c.abandon id).2
  | .unbind => c.unbind.2
  | .fire timer => c.callTable (.fire timer)
  | .advance time => c.callTable (.advance time)

/-- Changes the stream. What stopped stays so. -/
def change (c : Connection) : StreamChange → Connection
  | .arrive bytes => if c.ending.isNone then { c with inbound := c.inbound ++ bytes } else c
  | .stop ending => { c with ending := c.ending <|> some ending }
  | .failWriting reason => { c with writeFault := some reason }

/-- Goes on with what is in progress: the calls to the table first, then the notice that somebody
hears of. -/
def proceed (c : Connection) : Connection × List Occurrence :=
  match c.table.agenda, c.notice with
  | [], none => (c, [])
  | [], some o => { c with notice := none }.afterNotice o
  | _ :: _, _ =>
    let (c, seen) := c.withTable c.table.proceed
    (c.releaseWriter, seen)

/-- Follows a move. What cannot happen now is left out. -/
def step (c : Connection) : ConnectionMove → Connection × List Occurrence
  | .request r => if c.isListening then c.request r else (c, [])
  | .stream change => (c.change change, [])
  | .proceed => c.proceed
  | .rearrange owners => ({ c with table := c.table.rearrange owners }, [])
  | .read => if c.isBusy then (c, []) else (c.read?).getD (c, [])
  | .write => if c.isBusy then (c, []) else (c.write?).getD (c, [])

/-- Follows moves. -/
def run (c : Connection) : List ConnectionMove → Connection × List Occurrence
  | [] => (c, [])
  | m :: ms =>
    let (c, seen) := c.step m
    let (c, later) := c.run ms
    (c, seen ++ later)

/-- The next work to be done: first what is in progress, then the writer's, then the reader's. -/
def work? (c : Connection) : Option (Connection × List Occurrence) :=
  if c.isBusy then some c.proceed else c.write? <|> c.read?

/-- Does work until there is none, at most `fuel` times. -/
def settleWithin : Nat → Connection → Connection × List Occurrence
  | 0, c => (c, [])
  | fuel + 1, c =>
    match c.work? with
    | none => (c, [])
    | some (c, seen) =>
      let (c, later) := c.settleWithin fuel
      (c, seen ++ later)

/-- Does all the work that there is. Each frame and each message leads to at most three pieces of
work for every registration and some more; a frame has at least two bytes, and each registration
whose time is up leads to one message. -/
def settle (c : Connection) : Connection × List Occurrence :=
  let registrations := c.table.registrations.length
  c.settleWithin
    ((c.inbound.length + c.outbox.length + registrations + 8) * (3 * registrations + 8))

end Connection
end Ldap
