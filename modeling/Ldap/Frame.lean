import Ldap.Message
import Ldap.SessionError

/-!
# Frames

A frame is the bytes of one message. Frames are cut off a stream by their tag and length alone, so
a message that cannot be decoded leaves the stream in step. An interruption of the stream is an
error here as any other failure, and leaves it out of use.
-/

namespace Ldap

open Ber (Source Tag)

/-- Reading of frames. -/
abbrev FrameM := ExceptT SessionError (StateM Source)

namespace Frame

/-- Lets an error of a header be an error of the session. -/
def ofHeader {α : Type} (x : Except Ber.Error α) : FrameM α :=
  MonadExcept.ofExcept (x.mapError fun e => .protocol (.ber e))

/-- The error of a request that was turned away. -/
def interrupted : SessionError :=
  .stream "operation interrupted"

/-- The next byte; none at the end of the stream. The request is not repeated after an
interruption. -/
def byte? : FrameM (Option UInt8) := do
  let (reading, source) := (← get).read 0
  set source
  match reading with
  | .bytes b _ => return some b
  | .ended => return none
  | .interrupted => throw interrupted
  | .failed reason => throw (.stream reason)

/-- Requests bytes until there are `n` of them. The first request that gets none ends it, be it by
an interruption alone: unlike `Source.fill`, this does not ask again. -/
def gather (s : Source) (n : Nat) : Except SessionError (List UInt8) × Source :=
  match n with
  | 0 => (.ok [], s)
  | room + 1 =>
    match h : s.read room with
    | (.bytes b bs, s') =>
      have : s'.weight < s.weight := Source.weight_lt_of_read_bytes h
      let (more, s'') := gather s' (room - bs.length)
      (more.map (b :: bs ++ ·), s'')
    | (.ended, s') => (.error (.stream "early eof"), s')
    | (.interrupted, s') => (.error interrupted, s')
    | (.failed reason, s') => (.error (.stream reason), s')
termination_by s.weight

/-- The next `n` bytes. -/
def exactly (n : Nat) : FrameM (List UInt8) := do
  let (bytes, source) := gather (← get) n
  set source
  MonadExcept.ofExcept bytes

/-- The next frame, with content of at most `limit` bytes; none at the end of the stream. -/
def read (limit : Nat) : FrameM (Option (List UInt8)) := do
  match ← byte? with
  | none => return none
  | some tag =>
    match ← byte? with
    | none => throw (.stream "stream ended inside a frame")
    | some first =>
      let count ← ofHeader (Ber.Length.continuationCount first)
      let rest ← exactly count
      let length := Ber.Length.assemble first rest
      if limit < length then throw (.protocol (.ber (.elementTooLarge length limit)))
      let content ← exactly length
      return some (tag :: first :: rest ++ content)

/-- The next message; none at the end of the stream. -/
def readMessage (limit : Nat) : FrameM (Option Message) := do
  match ← read limit with
  | none => return none
  | some frame =>
    let m ← MonadExcept.ofExcept ((Message.decodeWithin limit frame).mapError .protocol)
    return some m

/-- Reads until the end of the stream or an error, at most `fuel` times. What ends the reading is
none at the end of the stream. -/
def readAll {α : Type} (read : FrameM (Option α)) : Nat → Source → List α × Option SessionError
  | 0, _ => ([], none)
  | fuel + 1, source =>
    match read.run.run source with
    | (.ok (some a), source) =>
      let (as, e) := readAll read fuel source
      (a :: as, e)
    | (.ok none, _) => ([], none)
    | (.error e, _) => ([], some e)

end Frame
end Ldap
