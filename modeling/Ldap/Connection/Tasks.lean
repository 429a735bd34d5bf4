import Ldap.Connection.Basic
import Ldap.Frame

/-!
# Reader and writer of a connection

The writer takes work from the outbox, the reader takes frames off the stream and passes their
messages on. Each does one thing at a time, and both stop for good at the first failure.
-/

namespace Ldap.Connection

/-! ## The writer -/

/-- The writer does the next piece of work, if there is one. A message that cannot be written
closes the connection; the writer is gone when all listeners have heard of that. -/
def write? (c : Connection) : Option (Connection × List Occurrence) :=
  if !c.writing then none
  else
    match c.outbox with
    | [] => none
    | .close :: _ =>
      some ({ c with outbox := [], writing := false, shutDown := true }, [])
    | .message m :: outbox =>
      match c.writeFault with
      | none => some ({ c with outbox, written := c.written ++ m.encode }, [])
      | some reason =>
        some ({ c with outbox, writerLeaving := true }.shut .serverDown
          ("an error occurred while writing to the connection: " ++ reason))

/-- Lets a writer that has failed go, with the work that it was given, if nothing is in progress. -/
def releaseWriter (c : Connection) : Connection :=
  if c.writerLeaving && c.table.agenda.isEmpty then
    { c with outbox := [], writing := false, writerLeaving := false }
  else c

/-! ## What the server says -/

/-- Passes on a message that belongs to no request. All but extended responses are ignored. -/
def notify (c : Connection) (m : Message) : Connection × List Occurrence :=
  match Outcome.ofMessage? m 0 0 none with
  | some o =>
    match o.detail with
    | .extended .. => ({ c with notice := some o }, [.noticed o])
    | _ => (c, [])
  | none => (c, [])

/-- Goes on after somebody heard of a notice. A notice of disconnection closes the connection. -/
def afterNotice (c : Connection) (o : Outcome) : Connection × List Occurrence :=
  match o.detail with
  | .extended (some oid) _ =>
    if oid = ExtendedResponse.disconnectionOid then
      c.shut .serverDown ("the server sent a notice of disconnection: "
        ++ o.response.diagnostic.getD "no reason given")
    else (c, [])
  | _ => (c, [])

/-- Passes on a message to the operation that it belongs to. -/
def dispatch (c : Connection) (m : Message) : Connection × List Occurrence :=
  if m.id = 0 then c.notify m
  else
    match m.op with
    | .entry e => c.callTable (.deliver m.id (.entry e))
    | .reference r => c.callTable (.deliver m.id (.reference r))
    | .intermediateResponse r => c.callTable (.deliver m.id (.intermediate r))
    | _ => c.callTable (.complete m.id (.response m))

/-- Ends the operation that a message belongs to which cannot be decoded, if that is known. -/
def fail (c : Connection) (e : ProtocolError) : Connection × List Occurrence :=
  match e.messageId?.filter (0 < ·) with
  | some id => c.callTable (.complete id (.clientSide .decodingError e.message))
  | none => (c, [])

/-- The reader stops, and with it the connection. -/
def stopReading (c : Connection) (reason : String) : Connection × List Occurrence :=
  { c with reading := false }.shut .serverDown reason

/-- Passes on what is in a frame. -/
def accept (c : Connection) (frame : List UInt8) : Connection × List Occurrence :=
  match Message.decodeWithin c.options.maxMessage frame with
  | .ok m => c.dispatch m
  | .error e =>
    if e.isFraming then
      c.stopReading ("the connection received a malformed message: " ++ e.message)
    else c.fail e

/-! ## The reader -/

/-- What the reader finds on the stream. -/
inductive Arrival where
  /-- A frame, and the bytes after it. -/
  | frame (bytes rest : List UInt8)
  /-- The end of the stream. -/
  | ended
  | failed (error : SessionError)
  /-- A part of a frame at most. -/
  | waiting
  deriving DecidableEq, Repr

/-- Looks for the next frame. As long as the stream has not stopped, what is missing of a frame may
still come. -/
def arrival (c : Connection) : Arrival :=
  let stream : Ber.Source := ⟨(Ber.Source.ofBytes c.inbound).pieces, c.ending.getD .endOfInput⟩
  match (Frame.read c.options.maxMessage).run.run stream, c.ending with
  | (.ok (some frame), rest), _ => .frame frame rest.bytes
  | (.ok none, _), some _ => .ended
  | (.error (.stream _), _), none | (.ok none, _), none => .waiting
  | (.error e, _), _ => .failed e

/-- The reader takes the next frame or finds that the stream has stopped. -/
def read? (c : Connection) : Option (Connection × List Occurrence) :=
  if !c.reading then none
  else
    match c.arrival with
    | .waiting => none
    | .frame frame inbound => some ({ c with inbound }.accept frame)
    | .ended => some (c.stopReading "the server closed the connection")
    | .failed e =>
      some (c.stopReading ("an error occurred while reading from the connection: " ++ e.message))

end Ldap.Connection
