import Ldap.Connection.Run

/-!
# What reader and writer can do

A piece of work of the reader or the writer comes down to one of a few things: the table is called,
the connection is shut, or something outside the table changes. They are listed here, each with the
conditions under which it is done, so that what every piece of work preserves is proved by going
through the list.
-/

namespace Ldap

/-- What comes with an operation for a request that goes on. -/
def Operation.delivery? : Operation → Option Delivery
  | .entry e => some (.entry e)
  | .reference r => some (.reference r)
  | .intermediateResponse r => some (.intermediate r)
  | _ => none

namespace Connection

/-! ## The table -/

theorem table_enqueue (c : Connection) (w : Outgoing) : (c.enqueue w).2.table = c.table := by
  unfold enqueue
  split <;> rfl

theorem table_releaseWriter (c : Connection) : c.releaseWriter.table = c.table := by
  unfold releaseWriter
  split <;> rfl

theorem notice_releaseWriter (c : Connection) : c.releaseWriter.notice = c.notice := by
  unfold releaseWriter
  split <;> rfl

/-! ## Notices -/

/-- A message that belongs to no request is ignored, or it is an extended response and somebody
hears of it. -/
theorem notify_cases (c : Connection) (m : Message) :
    (∀ r, m.op ≠ .extendedResponse r) ∧ c.notify m = (c, []) ∨
      ∃ r o, m.op = .extendedResponse r ∧ o.detail = .extended r.oid r.value ∧
        c.notify m = ({ c with notice := some o }, [.noticed o]) := by
  rcases m with ⟨id, op, controls⟩
  cases op with
  | extendedResponse r => exact .inr ⟨r, _, rfl, rfl, rfl⟩
  | done kind r => exact .inl ⟨nofun, by cases kind <;> rfl⟩
  | _ => exact .inl ⟨nofun, rfl⟩

/-- After somebody heard of a notice the connection is shut, or nothing happens. -/
theorem afterNotice_cases (c : Connection) (o : Outcome) :
    (∃ value diagnostic, o.detail = .extended (some ExtendedResponse.disconnectionOid) value ∧
      c.afterNotice o = c.shut .serverDown diagnostic) ∨
    (∀ value, o.detail ≠ .extended (some ExtendedResponse.disconnectionOid) value) ∧
      c.afterNotice o = (c, []) := by
  unfold afterNotice
  split
  · next oid value hdetail =>
    split
    · next hoid => exact .inl ⟨value, _, hoid ▸ hdetail, rfl⟩
    · next hoid => exact .inr ⟨by simp [hdetail, hoid], rfl⟩
  · next hdetail => exact .inr ⟨hdetail _, rfl⟩

/-! ## The reader -/

/-- What is done with a frame. -/
inductive FrameEffect (c : Connection) (frame : List UInt8) : Connection × List Occurrence → Prop
  /-- The message belongs to no request. -/
  | notify (m : Message) (decoded : Message.decodeWithin c.options.maxMessage frame = .ok m)
      (unsolicited : m.id = 0) : FrameEffect c frame (c.notify m)
  | deliver (m : Message) (d : Delivery)
      (decoded : Message.decodeWithin c.options.maxMessage frame = .ok m)
      (solicited : m.id ≠ 0) (brings : m.op.delivery? = some d) :
      FrameEffect c frame (c.callTable (.deliver m.id d))
  | complete (m : Message) (decoded : Message.decodeWithin c.options.maxMessage frame = .ok m)
      (solicited : m.id ≠ 0) (brings : m.op.delivery? = none) :
      FrameEffect c frame (c.callTable (.complete m.id (.response m)))
  /-- The stream makes no sense from here on. -/
  | stop (e : ProtocolError) (reason : String)
      (decoded : Message.decodeWithin c.options.maxMessage frame = .error e)
      (framing : e.isFraming = true) : FrameEffect c frame (c.stopReading reason)
  /-- The operation is known that the message belongs to. -/
  | fail (e : ProtocolError) (id : Int32)
      (decoded : Message.decodeWithin c.options.maxMessage frame = .error e)
      (framing : e.isFraming = false) (known : e.messageId? = some id) (pos : 0 < id) :
      FrameEffect c frame (c.callTable (.complete id (.clientSide .decodingError e.message)))
  | ignore (e : ProtocolError)
      (decoded : Message.decodeWithin c.options.maxMessage frame = .error e)
      (framing : e.isFraming = false) (unknown : ∀ id, e.messageId? = some id → id ≤ 0) :
      FrameEffect c frame (c, [])

theorem frameEffect_accept (c : Connection) (frame : List UInt8) :
    c.FrameEffect frame (c.accept frame) := by
  unfold accept
  split
  · next m hm =>
    unfold dispatch
    split
    · next hid => exact .notify m hm hid
    · next hid =>
      split
      · next hop => exact .deliver m _ hm hid (by rw [hop, Operation.delivery?])
      · next hop => exact .deliver m _ hm hid (by rw [hop, Operation.delivery?])
      · next hop => exact .deliver m _ hm hid (by rw [hop, Operation.delivery?])
      · next hentry hreference hintermediate =>
        refine .complete m hm hid ?_
        unfold Operation.delivery?
        split
        · next hop => exact absurd hop (hentry _)
        · next hop => exact absurd hop (hreference _)
        · next hop => exact absurd hop (hintermediate _)
        · rfl
  · next e he =>
    split
    · next hframing => exact .stop e _ he hframing
    · next hframing =>
      replace hframing := Bool.eq_false_iff.2 hframing
      unfold Connection.fail
      split
      · next id hid =>
        obtain ⟨hknown, hpos⟩ := Option.filter_eq_some_iff.1 hid
        exact .fail e id he hframing hknown (by simpa using hpos)
      · next hnone =>
        rw [Option.filter_eq_none_iff] at hnone
        exact .ignore e he hframing fun id hid => by simpa using hnone id hid

/-- The reader passes on a frame, or stops. -/
theorem read?_cases {c : Connection} {x : Connection × List Occurrence} (hx : c.read? = some x) :
    c.reading = true ∧
      ((∃ frame inbound, x = { c with inbound }.accept frame) ∨
        ∃ reason, x = c.stopReading reason) := by
  unfold read? at hx
  split at hx
  · cases hx
  next hreading =>
  refine ⟨by simpa using hreading, ?_⟩
  split at hx
  · cases hx
  · cases hx
    exact .inl ⟨_, _, rfl⟩
  · cases hx
    exact .inr ⟨_, rfl⟩
  · cases hx
    exact .inr ⟨_, rfl⟩

/-! ## The writer -/

/-- What the writer does. -/
inductive WriteEffect (c : Connection) : Connection × List Occurrence → Prop
  /-- The writer ends. -/
  | close (later : List Outgoing) (next : c.outbox = .close :: later) :
      WriteEffect c ({ c with outbox := [], writing := false, shutDown := true }, [])
  | write (m : Message) (outbox : List Outgoing) (next : c.outbox = .message m :: outbox)
      (intact : c.writeFault = none) :
      WriteEffect c ({ c with outbox, written := c.written ++ m.encode }, [])
  /-- What cannot be written closes the connection. -/
  | fail (m : Message) (outbox : List Outgoing) (diagnostic : String)
      (next : c.outbox = .message m :: outbox) (fault : c.writeFault ≠ none) :
      WriteEffect c ({ c with outbox, writerLeaving := true }.shut .serverDown diagnostic)

theorem writeEffect_of_write? {c : Connection} {x : Connection × List Occurrence}
    (hx : c.write? = some x) : c.WriteEffect x := by
  unfold write? at hx
  split at hx
  · cases hx
  split at hx
  · cases hx
  · next hnext =>
    cases hx
    exact .close _ hnext
  · next m outbox hnext =>
    split at hx
    · next hintact =>
      cases hx
      exact .write m outbox hnext hintact
    · next hfault =>
      cases hx
      exact .fail m outbox _ hnext (by simp [hfault])

/-! ## Moves -/

/-- A request that nobody is there to make is left out. -/
theorem step_request (c : Connection) (r : Request) :
    c.step (.request r) = (c, []) ∨
      c.isListening = true ∧ c.step (.request r) = c.request r := by
  simp only [step]
  split
  · next hlistening => exact .inr ⟨hlistening, rfl⟩
  · exact .inl rfl

/-- The reader does nothing, or what it has to do next. -/
theorem step_read (c : Connection) :
    c.step .read = (c, []) ∨ c.read? = some (c.step .read) := by
  simp only [step]
  split
  · exact .inl rfl
  · cases c.read? with
    | none => exact .inl rfl
    | some x => exact .inr rfl

/-- The writer does nothing, or what it has to do next, if nothing is in progress. -/
theorem step_write (c : Connection) :
    c.step .write = (c, []) ∨ c.isBusy = false ∧ c.write? = some (c.step .write) := by
  simp only [step]
  split
  · exact .inl rfl
  · next hidle =>
    cases c.write? with
    | none => exact .inl rfl
    | some x => exact .inr ⟨Bool.eq_false_iff.2 hidle, rfl⟩

/-! ## What the reader takes -/

/-- The frame that the reader takes in a move, and the bytes after it. -/
def taken? (c : Connection) : ConnectionMove → Option (List UInt8 × List UInt8)
  | .read =>
    if c.isBusy || !c.reading then none
    else
      match c.arrival with
      | .frame frame inbound => some (frame, inbound)
      | .ended | .failed _ | .waiting => none
  | .request _ | .stream _ | .proceed | .rearrange _ | .write => none

/-- What a frame brings for a request that goes on, with the identifier of the request. -/
def brought? (c : Connection) (frame : List UInt8) : Option (Int32 × Delivery) :=
  match Message.decodeWithin c.options.maxMessage frame with
  | .ok m => if m.id = 0 then none else m.op.delivery?.map (m.id, ·)
  | .error _ => none

/-- What a move brings for a request that goes on, with the identifier of the request. -/
def passed? (c : Connection) (m : ConnectionMove) : Option (Int32 × Delivery) :=
  (c.taken? m).bind fun x => c.brought? x.1

/-- The reader passes on the frame that it takes. -/
theorem step_read_of_taken {c : Connection} {frame inbound : List UInt8}
    (h : c.taken? .read = some (frame, inbound)) :
    c.step .read = accept { c with inbound } frame := by
  simp only [taken?] at h
  split at h
  · cases h
  next hready =>
  rw [Bool.or_eq_true, not_or, Bool.not_eq_true, Bool.not_eq_true'] at hready
  split at h
  · next hframe =>
    cases h
    simp [step, read?, hready.1, hready.2, hframe]
  all_goals cases h

/-- A reader that takes no frame does nothing, or stops. -/
theorem step_read_of_not_taken {c : Connection} (h : c.taken? .read = none) :
    c.step .read = (c, []) ∨ ∃ reason, c.step .read = c.stopReading reason := by
  simp only [taken?] at h
  simp only [step, read?]
  split
  · exact .inl rfl
  next hidle =>
  split
  · exact .inl rfl
  next hreading =>
  rw [if_neg (by simpa [hidle] using hreading)] at h
  cases harrival : c.arrival with
  | waiting => exact .inl rfl
  | frame frame inbound =>
    rw [harrival] at h
    cases h
  | ended => exact .inr ⟨_, rfl⟩
  | failed e => exact .inr ⟨_, rfl⟩

end Connection
end Ldap
