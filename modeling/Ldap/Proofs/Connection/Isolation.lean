import Ldap.Proofs.Connection.Settling
import Ldap.Proofs.Message.Grammar
import Ldap.Proofs.Pending.Reuse

/-!
# What a frame does to pending operations

A frame that arrives on an open connection concerns one pending operation, or none, or all of them.
`frame_concerns_one_none_or_all` says which, by what the frame decodes to, and what becomes of the
operations that it concerns; the others are left as they are.

The reader hands the frame over in one step, and what is in progress after it goes on alone, since
listeners make no calls here. The invariant `Handling` says what that can be.
-/

namespace Ldap

open Deed (lifeOf ofSigns ofOccurrences)

/-! ## What frames decode to -/

/-- Whether a frame belongs to requests of an identifier: it holds a message with it, or one with it
that cannot be decoded, of which the end is known all the same. -/
def BelongsTo (decoded : Except ProtocolError Message) (id : Int32) : Prop :=
  match decoded with
  | .ok m => m.id = id
  | .error e => e.isFraming = false ∧ e.messageId? = some id

/-- Whether a message tells that the server is about to disconnect. -/
def Message.isDisconnection (m : Message) : Bool :=
  match m.op with
  | .extendedResponse r => m.id = 0 && r.oid = some ExtendedResponse.disconnectionOid
  | _ => false

/-- Whether a frame ends the connection. -/
def Disconnects : Except ProtocolError Message → Bool
  | .ok m => m.isDisconnection
  | .error e => e.isFraming

/-- Whether an outcome is a notice of disconnection. -/
def Outcome.isDisconnection (o : Outcome) : Bool :=
  match o.detail with
  | .extended oid _ => oid = some ExtendedResponse.disconnectionOid
  | _ => false

/-- What comes from the server belongs to one identifier at most. -/
theorem BelongsTo.eq {decoded : Except ProtocolError Message} {id id' : Int32}
    (h : BelongsTo decoded id) (h' : BelongsTo decoded id') : id = id' := by
  cases decoded with
  | ok m => exact h.symm.trans h'
  | error e => exact Option.some.inj (h.2.symm.trans h'.2)

/-- Only messages that answer no request tell of a disconnection. -/
theorem Message.isDisconnection_of_id_ne {m : Message} (hid : m.id ≠ 0) :
    m.isDisconnection = false := by
  unfold isDisconnection
  split <;> simp [hid]

theorem Message.isDisconnection_eq_false {m : Message} (h : ∀ r, m.op ≠ .extendedResponse r) :
    m.isDisconnection = false := by
  unfold isDisconnection
  split
  · next r hr => exact absurd hr (h r)
  · rfl

/-- An outcome tells of a disconnection only if it is a response under the name of this notice. -/
theorem Outcome.isDisconnection_eq_false {o : Outcome}
    (h : ∀ value, o.detail ≠ .extended (some ExtendedResponse.disconnectionOid) value) :
    o.isDisconnection = false := by
  unfold isDisconnection
  split
  · next oid value hdetail =>
    refine decide_eq_false fun hoid => h value ?_
    rw [hdetail, hoid]
  · rfl

/-- A notice is of disconnection if the message is. -/
theorem Outcome.isDisconnection_of_extended {o : Outcome} {m : Message} {r : ExtendedResponse}
    (hid : m.id = 0) (hop : m.op = .extendedResponse r)
    (hdetail : o.detail = .extended r.oid r.value) : o.isDisconnection = m.isDisconnection := by
  simp [isDisconnection, Message.isDisconnection, hid, hop, hdetail]

/-- A frame that belongs to some request leaves the connection open. -/
theorem BelongsTo.not_disconnects {decoded : Except ProtocolError Message} {id : Int32}
    (h : BelongsTo decoded id) (hpos : 0 < id) : Disconnects decoded = false := by
  cases decoded with
  | ok m =>
    obtain rfl : m.id = id := h
    exact Message.isDisconnection_of_id_ne (Int32.ne_of_lt hpos).symm
  | error e => exact h.1

/-! ## Registrations that are spared -/

theorem Deed.lifeOf_eq_nil_of_sublist {owner : Nat} {a b : List Deed} (h : a.Sublist b)
    (hb : lifeOf owner b = []) : lifeOf owner a = [] :=
  List.sublist_nil.1 (hb ▸ h.filter _)

/-- A life in which an outcome is heard ends with it. -/
theorem Deed.eq_last_of_result_mem {owner : Nat} {ds : List Delivery} {last : Option Deed}
    {o : Outcome} (h : heard owner (.result o) ∈ life owner ds last) :
    last = some (heard owner (.result o)) := by
  simpa [life] using h

/-- What befalls a request that waits, when it hears nothing but that the connection goes down, is
one outcome if it is over then. -/
theorem Deed.eq_singleton_of_life {owner : Nat} {ds ds' : List Delivery} {new : List Deed}
    {d : Deed} (h : life owner ds none ++ new = life owner ds' (some d)) (hd : IsLast owner d)
    (hnew : ∀ x ∈ new, ∃ o, x = heard owner (.result o)) : new = [d] := by
  have hdelivery {es : List Delivery} {x : Deed} {o : Outcome} (hx : x = heard owner (.result o)) :
      x ∉ es.map fun d => heard owner (.delivery d) := by simp [hx]
  simp only [life, Option.toList_none, List.append_nil, Option.toList_some, List.cons_append,
    List.cons.injEq, true_and] at h
  -- the last deed is the last of the new ones, and no delivery is new
  rcases List.eq_nil_or_concat new with rfl | ⟨init, x, rfl⟩
  · have hmem : d ∈ ds.map fun d => heard owner (.delivery d) := by
      rw [← List.append_nil (ds.map _), h]
      simp
    rcases hd with rfl | ⟨o, ho⟩
    · simp at hmem
    · exact absurd hmem (hdelivery ho)
  · rw [List.concat_eq_append, ← List.append_assoc] at h
    obtain ⟨hinit, hx⟩ := List.append_inj' h rfl
    cases init with
    | nil => simpa using hx
    | cons y ys =>
      obtain ⟨o, ho⟩ := hnew y (by simp)
      exact absurd (hinit ▸ by simp : y ∈ ds'.map fun d => heard owner (.delivery d)) (hdelivery ho)

/-- The registration at a place is as it was before, and no deed befell it. -/
structure Spares {L : Type} (rs : List (Registration L)) (owner : Nat) (deeds : List Deed)
    (rs' : List (Registration L)) : Prop where
  same : rs'[owner]? = rs[owner]?
  unheard : lifeOf owner deeds = []

namespace Spares

variable {L : Type} {rs rs' rs'' : List (Registration L)} {owner : Nat} {deeds later : List Deed}

theorem refl (rs : List (Registration L)) (owner : Nat) : Spares rs owner [] rs :=
  ⟨rfl, rfl⟩

theorem trans (h : Spares rs owner deeds rs') (h' : Spares rs' owner later rs'') :
    Spares rs owner (deeds ++ later) rs'' :=
  ⟨h'.same.trans h.same, by rw [Deed.lifeOf_append, h.unheard, h'.unheard]; rfl⟩

end Spares

/-- What concerns one registration spares the others. -/
theorem Table.Confined.spares {L : Type} {t t' : Table L} {place : Option Nat} {signs : List Sign}
    (h : t.Confined place signs t') {owner : Nat} (hne : place ≠ some owner) :
    Spares t.registrations owner (ofSigns signs) t'.registrations where
  same := h.others owner hne
  unheard := List.filter_eq_nil_iff.2 fun d hd => by
    obtain ⟨s, hs, hsign⟩ := List.mem_filterMap.1 hd
    obtain ⟨hplace, -⟩ := h.told s hs d.owner (Deed.owner?_of_ofSign? hsign)
    simp only [decide_eq_true_eq]
    rintro rfl
    exact hne hplace

namespace Connection

/-! ## The reader of an open connection -/

/-- The same bytes wait for the reader of another connection, and are understood alike. -/
structure SameStream (c c' : Connection) : Prop where
  inbound : c'.inbound = c.inbound
  options : c'.options = c.options

/-- The reader of another connection reads on if this one's does, and the same bytes. -/
structure SameReader (c c' : Connection) : Prop extends SameStream c c' where
  reading : c'.reading = c.reading

theorem SameReader.refl (c : Connection) : c.SameReader c :=
  ⟨⟨rfl, rfl⟩, rfl⟩

/-- The reader of a connection is the same after two moves if it is after each. -/
theorem SameReader.trans {c c' c'' : Connection} (h : c.SameReader c') (h' : c'.SameReader c'') :
    c.SameReader c'' :=
  ⟨⟨h'.inbound.trans h.inbound, h'.options.trans h.options⟩, h'.reading.trans h.reading⟩

/-- To send is no business of the reader. -/
theorem sameReader_send (c : Connection) (m : Message) : c.SameReader (c.send m).2.1 := by
  rcases c.send_cases m with ⟨-, h⟩ | ⟨-, h⟩ <;> rw [h] <;> exact ⟨⟨rfl, rfl⟩, rfl⟩

theorem sameReader_follow (c : Connection) (s : Sign) : c.SameReader (c.follow s).1 := by
  cases s with
  | heard owner id event =>
    simp only [follow]
    split <;> exact ⟨⟨rfl, rfl⟩, rfl⟩
  | abandoning owner id =>
    have hsent := sameReader_send { c with ids := c.ids.draw.2 }
      ⟨c.ids.draw.1, .abandonRequest ⟨id⟩, []⟩
    exact ⟨⟨hsent.inbound, hsent.options⟩, hsent.reading⟩
  | answered reply => exact .refl c

theorem sameReader_followAll (c : Connection) (signs : List Sign) :
    c.SameReader (c.followAll signs).1 := by
  induction signs generalizing c with
  | nil => exact .refl c
  | cons s signs ih => exact (sameReader_follow c s).trans (ih (c.follow s).1)

theorem sameReader_withTable (c : Connection) (x : Table Listener × List Sign) :
    c.SameReader (c.withTable x).1 :=
  have h := sameReader_followAll { c with table := x.1 } x.2
  ⟨⟨h.inbound, h.options⟩, h.reading⟩

theorem sameReader_shut (c : Connection) (code : ResultCode) (diagnostic : String) :
    c.SameReader (c.shut code diagnostic).1 :=
  ⟨⟨rfl, rfl⟩, rfl⟩

theorem sameReader_enqueue (c : Connection) (w : Outgoing) : c.SameReader (c.enqueue w).2 := by
  unfold enqueue
  split <;> exact ⟨⟨rfl, rfl⟩, rfl⟩

/-- Nor is any request. -/
theorem sameReader_request (c : Connection) (r : Request) :
    c.SameReader (c.request r).1 := by
  cases r with
  | submit op controls listener =>
    simp only [request, submit]
    split
    · exact .refl c
    · split
      · exact .refl c
      · split
        · exact ⟨⟨rfl, rfl⟩, rfl⟩
        · have hsent (ids : MessageIds) (table : Table Listener) (m : Message) :
              c.SameReader (send { c with ids, table } m).2.1 :=
            have h := sameReader_send { c with ids, table } m
            ⟨⟨h.inbound, h.options⟩, h.reading⟩
          split
          · exact hsent _ _ _
          · exact ⟨⟨(hsent _ _ _).inbound, (hsent _ _ _).options⟩, (hsent _ _ _).reading⟩
  | abandon id =>
    have h := sameReader_send { c with table := (c.table.abandon id).2, ids := c.ids.draw.2 }
      ⟨c.ids.draw.1, .abandonRequest ⟨id⟩, []⟩
    exact ⟨⟨h.inbound, h.options⟩, h.reading⟩
  | unbind =>
    simp only [request, unbind]
    split
    · exact .refl c
    · have h := sameReader_send { c with ids := c.ids.draw.2 } ⟨c.ids.draw.1, .unbindRequest, []⟩
      have hsent : c.SameReader _ := ⟨⟨h.inbound, h.options⟩, h.reading⟩
      exact (hsent.trans (sameReader_enqueue _ _)).trans (sameReader_shut _ _ _)
  | fire timer => exact sameReader_withTable _ _
  | advance time => exact sameReader_withTable _ _

theorem sameReader_proceed (c : Connection) : c.SameReader c.proceed.1 := by
  unfold proceed
  split
  · exact .refl c
  · next o _ _ =>
    rcases afterNotice_cases { c with notice := none } o with ⟨_, diagnostic, -, heq⟩ | ⟨-, heq⟩
    · rw [heq]
      exact ⟨⟨rfl, rfl⟩, rfl⟩
    · rw [heq]
      exact ⟨⟨rfl, rfl⟩, rfl⟩
  · have hrelease (c : Connection) : c.SameReader c.releaseWriter := by
      unfold releaseWriter
      split <;> exact ⟨⟨rfl, rfl⟩, rfl⟩
    exact (sameReader_withTable _ _).trans (hrelease _)

theorem sameReader_write? {c : Connection} {x : Connection × List Occurrence}
    (hx : c.write? = some x) : c.SameReader x.1 := by
  cases writeEffect_of_write? hx with
  | close => exact ⟨⟨rfl, rfl⟩, rfl⟩
  | write => exact ⟨⟨rfl, rfl⟩, rfl⟩
  | fail => exact ⟨⟨rfl, rfl⟩, rfl⟩

/-- The reader stops only to close the connection. -/
theorem reading_or_closed_read? {c : Connection} {x : Connection × List Occurrence}
    (hx : c.read? = some x) : x.1.reading = true ∨ x.1.closed = true := by
  rcases read?_cases hx with ⟨hreading, ⟨frame, inbound, rfl⟩ | ⟨reason, rfl⟩⟩
  case inr => exact .inr rfl
  have heffect := frameEffect_accept { c with inbound } frame
  generalize accept { c with inbound } frame = x at heffect ⊢
  cases heffect with
  | notify m =>
    left
    rcases notify_cases { c with inbound } m with ⟨-, heq⟩ | ⟨r, o, -, -, heq⟩
    all_goals
      rw [heq]
      exact hreading
  | deliver => exact .inl ((sameReader_withTable _ _).reading.trans hreading)
  | complete => exact .inl ((sameReader_withTable _ _).reading.trans hreading)
  | stop => exact .inr rfl
  | fail => exact .inl ((sameReader_withTable _ _).reading.trans hreading)
  | ignore => exact .inl hreading

/-- A connection does not stop reading without being closed. -/
theorem reading_or_closed_step {c : Connection} (h : c.reading = true ∨ c.closed = true)
    (m : ConnectionMove) : (c.step m).1.reading = true ∨ (c.step m).1.closed = true := by
  rcases h with h | h
  case inr => exact .inr (closed_step h m)
  cases m with
  | request r =>
    rcases c.step_request r with heq | ⟨-, heq⟩
    · rw [heq]
      exact .inl h
    · rw [heq]
      exact .inl ((sameReader_request c r).reading.trans h)
  | stream change =>
    simp only [step, Connection.change]
    repeat' split
    all_goals exact .inl h
  | proceed => exact .inl ((sameReader_proceed c).reading.trans h)
  | rearrange owners => exact .inl h
  | read =>
    rcases c.step_read with heq | hx
    · rw [heq]
      exact .inl h
    · exact reading_or_closed_read? hx
  | write =>
    rcases c.step_write with heq | ⟨-, hx⟩
    · rw [heq]
      exact .inl h
    · exact .inl ((sameReader_write? hx).reading.trans h)

theorem reading_or_closed_run {c : Connection} (h : c.reading = true ∨ c.closed = true)
    (ms : List ConnectionMove) : (c.run ms).1.reading = true ∨ (c.run ms).1.closed = true := by
  induction ms generalizing c with
  | nil => exact h
  | cons m ms ih => exact ih (reading_or_closed_step h m)

/-- The reader of an open connection reads on. -/
theorem reading_of_open (options : Options) (ms : List ConnectionMove)
    (h : ((start options).run ms).1.closed = false) :
    ((start options).run ms).1.reading = true := by
  simpa [h] using reading_or_closed_run (c := start options) (.inl rfl) ms

end Connection

/-! ## What is in progress after a frame -/

/-- The deed of failing an operation because the connection goes down. -/
def Deed.IsDown (d : Deed) : Prop :=
  ∃ owner o, d = .heard owner (.result o) ∧ o.response.code = .serverDown

/-- Whether something may be on the agenda after a frame arrived. `down` tells whether the
connection goes down with it. -/
def Activity.Handles (down : Bool) : Activity → Prop
  | .hearing _ | .answering _ => True
  | .failing _ code _ _ => down = true ∧ code = .serverDown
  | .ringing => False

/-- A listener that is told of something handles what it was told of before it goes on with the
rest. -/
theorem Table.handles_resume {L : Type} {t : Table L} {down : Bool} {rest : List Activity}
    (signs : List Sign) (ht : ∀ a ∈ t.agenda, a.Handles down) (hrest : ∀ a ∈ rest, a.Handles down) :
    ∀ a ∈ (t.resume signs rest).1.agenda, a.Handles down := by
  intro a ha
  simp only [Table.resume, List.mem_append] at ha
  rcases ha with (ha | ha) | ha
  · -- a listener hears something
    obtain ⟨owner, rfl⟩ := exists_hearing_of_mem a ha
    trivial
  · exact hrest a ha
  · exact ht a ha

/-- What is done for a frame lets nobody hear anything but that the connection goes down. -/
theorem Table.handles_perform {L : Type} {t : Table L} {down : Bool} {a : Activity}
    (ha : a.Handles down) (ht : ∀ b ∈ t.agenda, b.Handles down) :
    (∀ b ∈ (t.perform a).1.agenda, b.Handles down) ∧
      (∀ d ∈ ofSigns (t.perform a).2, down = true ∧ d.IsDown) ∧
      (down = false → (t.perform a).1.registrations = t.registrations) := by
  cases a with
  | hearing _ => exact ⟨ht, by simp [perform], fun _ => rfl⟩
  | answering reply => exact ⟨ht, by simp [perform], fun _ => rfl⟩
  | ringing => exact ha.elim
  | failing owners code diagnostic finished =>
    obtain ⟨rfl, rfl⟩ := ha
    cases owners with
    | nil =>
      exact ⟨handles_resume _ ht (by simp [Activity.Handles]), by simp [perform, resume], by simp⟩
    | cons owner owners =>
      have hrest (n : Nat) : ∀ b ∈ [Activity.failing owners .serverDown diagnostic n],
          b.Handles true := by simp [Activity.Handles]
      simp only [perform]
      split
      · next p t' signs h =>
        have hagenda : t'.agenda = t.agenda := (evolves_finish h).agenda
        refine ⟨handles_resume _ (hagenda ▸ ht) (hrest _), fun d hd => ⟨trivial, ?_⟩, by simp⟩
        -- the one deed is the outcome of the operation that is failed
        obtain ⟨r, -, -, -, -, rfl⟩ := exists_live_of_finish h
        simp only [resume, Bool.false_and, Bool.false_eq_true, if_false, List.nil_append,
          Deed.ofSigns_heard, List.mem_singleton] at hd
        exact ⟨owner, _, hd, rfl⟩
      · exact ⟨handles_resume _ ht (hrest _), by simp [resume], by simp⟩

/-- Whether a move lets only what is in progress go on: listeners make no calls, and nothing comes
from outside. -/
def ConnectionMove.IsInternal : ConnectionMove → Prop
  | .proceed | .rearrange _ => True
  | .request _ | .stream _ | .read | .write => False

namespace Connection

/-- What the table tells of registrations is all that befalls them. -/
theorem ofOccurrences_followAll_sublist (c : Connection) (signs : List Sign) :
    (ofOccurrences (c.followAll signs).2).Sublist (ofSigns signs) := by
  induction signs generalizing c with
  | nil => exact .slnil
  | cons s signs ih =>
    rw [← List.singleton_append, Deed.ofSigns_append]
    simp only [List.singleton_append, followAll, Deed.ofOccurrences_append]
    refine .append ?_ (ih _)
    cases s with
    | heard owner id event =>
      simp only [follow]
      split
      · exact List.nil_sublist _
      · exact .refl _
    | abandoning owner id =>
      exact (ofOccurrences_sendAbandon c id).symm ▸ List.nil_sublist _
    | answered reply => exact List.nil_sublist _

/-- A registration that hears nothing is spared when signs are followed. -/
theorem spares_followAll (c : Connection) {signs : List Sign} {owner : Nat}
    (h : lifeOf owner (ofSigns signs) = []) :
    Spares c.table.registrations owner (ofOccurrences (c.followAll signs).2)
      (c.followAll signs).1.table.registrations := by
  refine ⟨?_, Deed.lifeOf_eq_nil_of_sublist (ofOccurrences_followAll_sublist c signs) h⟩
  induction signs generalizing c with
  | nil => rfl
  | cons s signs ih =>
    rw [← List.singleton_append, Deed.ofSigns_append, Deed.lifeOf_append,
      List.append_eq_nil_iff] at h
    refine (ih (c.follow s).1 h.2).trans ?_
    cases s with
    | heard place id event =>
      simp only [follow]
      split
      · rfl
      · refine List.getElem?_set_ne fun heq => ?_
        simp [lifeOf, Deed.owner, heq] at h
    | abandoning place id =>
      have htable : (c.follow (.abandoning place id)).1.table = c.table := table_send _ _
      rw [htable]
    | answered reply => rfl

/-- What the table leaves alone the connection does. -/
theorem spares_withTable {c : Connection} {x : Table Listener × List Sign} {owner : Nat}
    (h : Spares c.table.registrations owner (ofSigns x.2) x.1.registrations) :
    Spares c.table.registrations owner (ofOccurrences (c.withTable x).2)
      (c.withTable x).1.table.registrations := by
  have hfollowed := spares_followAll { c with table := x.1 } h.unheard
  exact ⟨hfollowed.same.trans h.same, hfollowed.unheard⟩

/-- What a connection is like while a frame is handled. `down` tells whether the connection goes
down with it: then it is closed as soon as nobody hears of the notice any more. -/
structure Handling (down : Bool) (c : Connection) : Prop where
  agenda : ∀ a ∈ c.table.agenda, a.Handles down
  notice : ∀ o ∈ c.notice, o.isDisconnection = down
  closed : c.closed = (down && c.notice.isNone)

/-- A part of the handling of a frame: who is not failed is spared. -/
structure Handled (down : Bool) (c : Connection) (deeds : List Deed) (c' : Connection) : Prop where
  handling : c'.Handling down
  failed : ∀ d ∈ deeds, down = true ∧ d.IsDown
  spares : down = false → ∀ owner, Spares c.table.registrations owner deeds c'.table.registrations

theorem Handled.refl {down : Bool} {c : Connection} (h : c.Handling down) : c.Handled down [] c :=
  ⟨h, by simp, fun _ owner => .refl _ owner⟩

/-- What was handled in two steps was handled in one. -/
theorem Handled.trans {down : Bool} {c c' c'' : Connection} {deeds later : List Deed}
    (h : c.Handled down deeds c') (h' : c'.Handled down later c'') :
    c.Handled down (deeds ++ later) c'' :=
  ⟨h'.handling, List.forall_mem_append.2 ⟨h.failed, h'.failed⟩,
    fun hdown owner => (h.spares hdown owner).trans (h'.spares hdown owner)⟩

theorem Handling.withTable {down : Bool} {c : Connection} (h : c.Handling down)
    (x : Table Listener × List Sign) (hx : ∀ a ∈ x.1.agenda, a.Handles down) :
    (c.withTable x).1.Handling down := by
  have hq := queues_followAll { c with table := x.1 } x.2
  unfold Connection.withTable
  refine ⟨?_, ?_, ?_⟩
  · rw [hq.table.agenda]
    exact hx
  · rw [hq.notice]
    exact h.notice
  · rw [hq.closed, hq.notice]
    exact h.closed

/-- A connection that goes down fails its operations. -/
theorem handling_shut {c : Connection} (h : ∀ a ∈ c.table.agenda, a.Handles true)
    (hnotice : c.notice = none) (diagnostic : String) :
    (c.shut .serverDown diagnostic).1.Handling true := by
  have heq : c.shut .serverDown diagnostic =
      ({ c with closed := true, table := c.table.failAll .serverDown diagnostic }, []) := rfl
  rw [heq]
  exact ⟨List.forall_mem_cons.2 ⟨⟨rfl, rfl⟩, h⟩, by simp [hnotice], by simp [hnotice]⟩

/-- What follows a notice is a failure of everything exactly if the notice is one of disconnection.
-/
theorem Handling.afterNotice {down : Bool} {c : Connection} {o : Outcome} (h : c.Handling down)
    (ho : c.notice = some o) :
    c.Handled down (ofOccurrences (({ c with notice := none } : Connection).afterNotice o).2)
      (({ c with notice := none } : Connection).afterNotice o).1 := by
  have hdown := h.notice o ho
  have hopen : c.closed = false := by simpa [ho] using h.closed
  -- a notice that is not of disconnection leaves all as it is
  have hquiet (hd : down = false) : c.Handled down [] { c with notice := none } :=
    ⟨⟨h.agenda, by simp, by simp [hopen, hd]⟩, by simp, fun _ owner => .refl _ owner⟩
  rcases afterNotice_cases { c with notice := none } o with
    ⟨value, diagnostic, hdetail, heq⟩ | ⟨hnot, heq⟩
  · obtain rfl : down = true := by simpa [Outcome.isDisconnection, hdetail] using hdown.symm
    rw [heq]
    exact ⟨handling_shut (c := { c with notice := none }) h.agenda rfl _,
      fun d hd => absurd hd (List.not_mem_nil (a := d)), by simp⟩
  · rw [heq]
    exact hquiet (hdown.symm.trans (Outcome.isDisconnection_eq_false hnot))

/-- A listener that goes on stays within what is handled. -/
theorem Handling.proceed {down : Bool} {c : Connection} (h : c.Handling down) :
    c.Handled down (ofOccurrences c.proceed.2) c.proceed.1 := by
  unfold Connection.proceed
  split
  · exact .refl h
  · next o _ hnotice => exact h.afterNotice hnotice
  · next a agenda hagenda =>
    have hproceed : c.table.proceed = { c.table with agenda }.perform a := by
      simp [Table.proceed, hagenda]
    obtain ⟨hnext, hdeeds, hsame⟩ := Table.handles_perform (t := { c.table with agenda })
      (h.agenda a (by simp [hagenda])) fun b hb => h.agenda b (by simp [hagenda, hb])
    rw [← hproceed] at hnext hdeeds hsame
    have hrelease (c : Connection) (hc : c.Handling down) : c.releaseWriter.Handling down := by
      unfold releaseWriter
      split
      · exact ⟨hc.agenda, hc.notice, hc.closed⟩
      · exact hc
    refine ⟨hrelease _ (h.withTable _ hnext), fun d hd => ?_, fun hdown owner => ?_⟩
    · exact hdeeds d ((ofOccurrences_followAll_sublist _ _).subset hd)
    · have hnone : ofSigns c.table.proceed.2 = [] := by
        refine List.eq_nil_iff_forall_not_mem.2 fun d hd => ?_
        have hd := (hdeeds d hd).1
        simp [hdown] at hd
      rw [table_releaseWriter]
      refine spares_withTable ⟨?_, ?_⟩
      · rw [hsame hdown]
      · rw [hnone]
        rfl

theorem Handling.rearrange {down : Bool} {c : Connection} (h : c.Handling down)
    (owners : List Nat) :
    c.Handled down [] { c with table := c.table.rearrange owners } := by
  unfold Table.rearrange
  split
  · next listed code diagnostic n agenda hagenda =>
    split
    · have hall := h.agenda
      rw [hagenda, List.forall_mem_cons] at hall
      exact ⟨⟨List.forall_mem_cons.2 hall, h.notice, h.closed⟩, by simp, fun _ _ => .refl _ _⟩
    · exact .refl h
  · exact .refl h

theorem Handling.step {down : Bool} {c : Connection} (h : c.Handling down) {m : ConnectionMove}
    (hm : m.IsInternal) : c.Handled down (c.deeds m) (c.step m).1 := by
  cases m with
  | proceed => exact h.proceed
  | rearrange owners => exact h.rearrange owners
  | request | stream | read | write => exact hm.elim

/-- So does all that follows from a frame until the next one comes. -/
theorem Handling.run {down : Bool} {c : Connection} (h : c.Handling down)
    {ms : List ConnectionMove} (hms : ∀ m ∈ ms, m.IsInternal) :
    c.Handled down (c.chronicle ms) (c.run ms).1 := by
  induction ms generalizing c with
  | nil => exact .refl h
  | cons m ms ih =>
    rw [List.forall_mem_cons] at hms
    have hstep := h.step hms.1
    exact hstep.trans (ih hstep.handling hms.2)

/-! ## The frame itself -/

/-- What comes for an operation, and what ends it, lets its listener hear of it and does nothing
else. -/
theorem handling_callTable {c : Connection} (h : c.Handling false) {x : Table Listener × List Sign}
    {t : Table Listener} (ht : t.agenda = c.table.agenda) (signs : List Sign) (reply : Reply)
    (hx : x = t.resume signs [.answering reply]) : (c.withTable x).1.Handling false := by
  subst hx
  exact h.withTable _ (Table.handles_resume signs (ht ▸ h.agenda) (by simp [Activity.Handles]))

theorem handling_deliver {c : Connection} (h : c.Handling false) (id : Int32) (d : Delivery) :
    (c.callTable (.deliver id d)).1.Handling false :=
  handling_callTable h (Table.evolves_deliver c.table id d).agenda _ _ rfl

theorem handling_complete {c : Connection} (h : c.Handling false) (id : Int32) (v : Verdict) :
    (c.callTable (.complete id v)).1.Handling false :=
  handling_callTable h (Table.evolves_complete c.table id v).agenda _ _ rfl

/-- After a frame, an idle connection that is open has a disconnection to handle exactly if the
frame tells of one. -/
theorem handling_accept {c : Connection} (hidle : c.isBusy = false) (hopen : c.closed = false)
    (frame : List UInt8) :
    (c.accept frame).1.Handling
      (Disconnects (Message.decodeWithin c.options.maxMessage frame)) := by
  obtain ⟨hagenda, hnotice⟩ := idle_of_not_busy hidle
  have h : c.Handling false := ⟨by simp [hagenda], by simp [hnotice], by simp [hopen]⟩
  have heffect := c.frameEffect_accept frame
  generalize c.accept frame = x at heffect ⊢
  cases heffect with
  | notify m decoded unsolicited =>
    rw [decoded, Disconnects]
    rcases c.notify_cases m with ⟨hother, heq⟩ | ⟨r, o, hop, hdetail, heq⟩
    · rw [heq, Message.isDisconnection_eq_false hother]
      exact h
    · have ho := Outcome.isDisconnection_of_extended unsolicited hop hdetail
      rw [heq]
      exact ⟨by simp [hagenda], by simp [ho], by simp [hopen]⟩
  | deliver m d decoded solicited =>
    rw [decoded, Disconnects, Message.isDisconnection_of_id_ne solicited]
    exact handling_deliver h _ _
  | complete m decoded solicited =>
    rw [decoded, Disconnects, Message.isDisconnection_of_id_ne solicited]
    exact handling_complete h _ _
  | stop e reason decoded framing =>
    rw [decoded, Disconnects, framing]
    exact handling_shut (c := { c with reading := false }) (by simp [hagenda]) hnotice _
  | fail e id decoded framing =>
    rw [decoded, Disconnects, framing]
    exact handling_complete h _ _
  | ignore e decoded framing =>
    rw [decoded, Disconnects, framing]
    exact h

/-- A frame spares every operation that it does not belong to, unless it ends the connection. -/
theorem spares_accept {c : Connection} {frame : List UInt8} {owner : Nat}
    (hdown : Disconnects (Message.decodeWithin c.options.maxMessage frame) = false)
    (howner : ∀ id, 0 < id → BelongsTo (Message.decodeWithin c.options.maxMessage frame) id →
      c.table.find? id ≠ some owner) :
    Spares c.table.registrations owner (ofOccurrences (c.accept frame).2)
      (c.accept frame).1.table.registrations := by
  have hmessage {m : Message} (hm : Message.decodeWithin c.options.maxMessage frame = .ok m)
      (hid : m.id ≠ 0) : c.table.find? m.id ≠ some owner := by
    obtain ⟨-, es, -, -, -, hspells⟩ := Message.decodeWithin_eq_ok_iff.1 hm
    obtain ⟨-, -, -, -, hnonneg, -⟩ := hspells
    exact howner m.id (Int32.lt_of_le_of_ne hnonneg (Ne.symm hid)) (by rw [hm]; rfl)
  have heffect := c.frameEffect_accept frame
  generalize c.accept frame = x at heffect ⊢
  cases heffect with
  | notify m =>
    rcases c.notify_cases m with ⟨-, heq⟩ | ⟨r, o, -, -, heq⟩
    all_goals
      rw [heq]
      exact .refl _ owner
  | deliver m d decoded solicited =>
    exact spares_withTable ((Table.confined_deliver _ _ d).spares (hmessage decoded solicited))
  | complete m decoded solicited =>
    exact spares_withTable ((Table.confined_complete _ _ _).spares (hmessage decoded solicited))
  | stop e reason decoded framing =>
    rw [decoded, Disconnects, framing] at hdown
    cases hdown
  | fail e id decoded framing known pos =>
    rw [decoded] at howner
    exact spares_withTable
      ((Table.confined_complete _ _ _).spares (howner id pos ⟨framing, known⟩))
  | ignore => exact .refl _ owner

/-- Nobody hears of a frame that ends the connection until the operations are failed. -/
theorem ofOccurrences_accept_of_disconnects {c : Connection} {frame : List UInt8}
    (h : Disconnects (Message.decodeWithin c.options.maxMessage frame) = true) :
    ofOccurrences (c.accept frame).2 = [] := by
  have heffect := c.frameEffect_accept frame
  generalize c.accept frame = x at heffect ⊢
  cases heffect with
  | notify m =>
    rcases c.notify_cases m with ⟨-, heq⟩ | ⟨r, o, -, -, heq⟩
    all_goals
      rw [heq]
      rfl
  | deliver m d decoded solicited =>
    rw [decoded, Disconnects, Message.isDisconnection_of_id_ne solicited] at h
    cases h
  | complete m decoded solicited =>
    rw [decoded, Disconnects, Message.isDisconnection_of_id_ne solicited] at h
    cases h
  | stop => rfl
  | fail e id decoded framing =>
    rw [decoded, Disconnects, framing] at h
    cases h
  | ignore => rfl

/-- The operation that a message belongs to which cannot be decoded hears so. -/
theorem ofOccurrences_fail {c : Connection} {e : ProtocolError} {id : Int32} {owner : Nat}
    (hid : e.messageId? = some id) (hpos : 0 < id)
    (howner : c.table.find? id = some owner) :
    ∃ o, o.response.code = .decodingError ∧
      ofOccurrences (c.fail e).2 = [.heard owner (.result o)] := by
  obtain ⟨r, hr, hpending, -⟩ := Table.pending_of_find? howner
  have hlt := (List.getElem?_eq_some_iff.1 hr).1
  have hfail : c.fail e = c.callTable (.complete id (.clientSide .decodingError e.message)) := by
    simp [fail, hid, Option.filter, hpos]
  refine ⟨(r.progress c.table.now).outcome (.clientSide .decodingError e.message), rfl, ?_⟩
  rw [hfail]
  simp only [callTable, withTable, Table.call, Table.complete, Table.finish, Table.resume, howner,
    hr, hpending, Option.bind_some, reduceCtorEq, if_false, Bool.false_and, Bool.false_eq_true,
    List.nil_append, followAll, follow, Table.put, List.getElem?_set_self hlt]
  rfl

/-! ## All that a frame leads to -/

section

variable {c : Connection} {told : List Deed} {frame : List UInt8} {ms : List ConnectionMove}

/-- The deeds of a frame and of what is done for it. -/
def chronicleOfFrame (c : Connection) (frame : List UInt8) (ms : List ConnectionMove) : List Deed :=
  ofOccurrences (c.accept frame).2 ++ (c.accept frame).1.chronicle ms

/-- Once a frame is handled, the connection is closed if the frame ends it. -/
theorem closed_of_frame (hidle : c.isBusy = false) (hopen : c.closed = false)
    (hms : ∀ m ∈ ms, m.IsInternal) (hdone : ((c.accept frame).1.run ms).1.isBusy = false) :
    ((c.accept frame).1.run ms).1.closed =
      Disconnects (Message.decodeWithin c.options.maxMessage frame) := by
  have hclosed := ((handling_accept hidle hopen frame).run hms).handling.closed
  rw [hclosed, (idle_of_not_busy hdone).2]
  simp

/-- A registration that a frame does not belong to is left alone, by the frame and by all that
follows from it. -/
theorem spares_of_frame (hidle : c.isBusy = false) (hopen : c.closed = false)
    (hms : ∀ m ∈ ms, m.IsInternal) {owner : Nat}
    (hdown : Disconnects (Message.decodeWithin c.options.maxMessage frame) = false)
    (howner : ∀ id, 0 < id → BelongsTo (Message.decodeWithin c.options.maxMessage frame) id →
      c.table.find? id ≠ some owner) :
    Spares c.table.registrations owner (c.chronicleOfFrame frame ms)
      ((c.accept frame).1.run ms).1.table.registrations :=
  (spares_accept hdown howner).trans
    (((handling_accept hidle hopen frame).run hms).spares hdown owner)

/-- A sound connection stays so when a frame comes, and while it is handled. -/
theorem sound_of_frame (hsound : c.Sound told) (frame : List UInt8) (ms : List ConnectionMove) :
    ((c.accept frame).1.run ms).1.Sound (told ++ c.chronicleOfFrame frame ms) := by
  rw [chronicleOfFrame, ← List.append_assoc]
  exact (hsound.accept frame).run ms

/-- A request that waits has lived up to now without a last deed. -/
theorem Sound.life_of_find? (hsound : c.Sound told) (hidle : c.isBusy = false) {id : Int32}
    {owner : Nat} (howner : c.table.find? id = some owner) :
    ∃ ds, lifeOf owner told = Deed.life owner ds none := by
  rcases hsound.table.life owner with ⟨hle, -⟩ | ⟨ds, last, hlife, -, hlast⟩
  · obtain ⟨r, hr, -⟩ := Table.pending_of_find? howner
    exact absurd (List.getElem?_eq_some_iff.1 hr).1 (Nat.not_lt.2 hle)
  · rw [(hlast (idle_of_not_busy hidle).1).1 ⟨id, howner⟩] at hlife
    exact ⟨ds, hlife⟩

/-- A message that cannot be decoded ends the operation that it belongs to, and nothing else is told
of it. -/
theorem ended_of_frame (hsound : c.Sound told) (hidle : c.isBusy = false) (hopen : c.closed = false)
    (hms : ∀ m ∈ ms, m.IsInternal) (hdone : ((c.accept frame).1.run ms).1.isBusy = false)
    {e : ProtocolError} (he : Message.decodeWithin c.options.maxMessage frame = .error e)
    {id : Int32} (hpos : 0 < id) (hid : BelongsTo (.error e) id) {owner : Nat}
    (howner : c.table.find? id = some owner) :
    ((c.accept frame).1.run ms).1.table.find? id = none ∧
      ∃ o, o.response.code = .decodingError ∧
        lifeOf owner (c.chronicleOfFrame frame ms) = [.heard owner (.result o)] := by
  have hdown : Disconnects (.error e) = false := hid.not_disconnects hpos
  have haccept : c.accept frame = c.fail e := by
    unfold accept
    simp only [he, show e.isFraming = false from hdown, Bool.false_eq_true, if_false]
  obtain ⟨o, hcode, hheard⟩ := ofOccurrences_fail hid.2 hpos howner
  have hrun := (handling_accept hidle hopen frame).run hms
  rw [he, hdown] at hrun
  have hlife : lifeOf owner (c.chronicleOfFrame frame ms) = [.heard owner (.result o)] := by
    rw [chronicleOfFrame, Deed.lifeOf_append, (hrun.spares rfl owner).unheard, haccept, hheard]
    simp [lifeOf, Deed.owner]
  refine ⟨Option.eq_none_iff_forall_ne_some.2 fun other hother => ?_, o, hcode, hlife⟩
  have hsound' := sound_of_frame hsound frame ms
  by_cases heq : other = owner
  · -- its life ended with the outcome
    subst heq
    obtain ⟨ds, hnow⟩ := hsound'.life_of_find? hdone hother
    have hmem : Deed.heard other (.result o) ∈ Deed.life other ds none := by
      rw [← hnow, Deed.lifeOf_append, hlife]
      simp
    cases Deed.eq_last_of_result_mem hmem
  · -- the others are as they were, under other identifiers
    have hspares : Spares c.table.registrations other (c.chronicleOfFrame frame ms)
        ((c.accept frame).1.run ms).1.table.registrations := by
      refine spares_of_frame hidle hopen hms (he ▸ hdown) fun id' _ hid' hother' => heq ?_
      rw [he] at hid'
      rw [hid'.eq hid, howner] at hother'
      exact (Option.some.inj hother').symm
    obtain ⟨s, hs, hp, hsid⟩ := Table.pending_of_find? hother
    have hother := hsound.table.find?_eq_some_iff.2 ⟨s, hspares.same ▸ hs, hp, hsid⟩
    exact heq (Option.some.inj (hother.symm.trans howner))

/-- A frame that ends the connection ends every operation. -/
theorem downed_of_frame (hsound : c.Sound told) (hidle : c.isBusy = false)
    (hopen : c.closed = false) (hms : ∀ m ∈ ms, m.IsInternal)
    (hdone : ((c.accept frame).1.run ms).1.isBusy = false)
    (hdown : Disconnects (Message.decodeWithin c.options.maxMessage frame) = true)
    {id : Int32} {owner : Nat} (howner : c.table.find? id = some owner) :
    ∃ o, o.response.code = .serverDown ∧
      lifeOf owner (c.chronicleOfFrame frame ms) = [.heard owner (.result o)] := by
  have hsound' := sound_of_frame hsound frame ms
  have hclosed := (closed_of_frame hidle hopen hms hdone).trans hdown
  have hdowned : ∀ d ∈ lifeOf owner (c.chronicleOfFrame frame ms),
      ∃ o, d = .heard owner (.result o) ∧ o.response.code = .serverDown := by
    intro d hd
    obtain ⟨hd, howner'⟩ := List.mem_filter.1 hd
    rw [chronicleOfFrame, ofOccurrences_accept_of_disconnects hdown, List.nil_append] at hd
    obtain ⟨-, other, o, rfl, ho⟩ := ((handling_accept hidle hopen frame).run hms).failed d hd
    obtain rfl : other = owner := of_decide_eq_true howner'
    exact ⟨o, rfl, ho⟩
  -- the life that it had lived goes on by one outcome at most, and is over at the end
  obtain ⟨ds, hbefore⟩ := hsound.life_of_find? hidle howner
  rcases hsound'.table.life owner with ⟨-, hnil⟩ | ⟨ds', last, hafter, hlast, hpending⟩
  · rw [Deed.lifeOf_append, hbefore] at hnil
    cases hnil
  · rw [Deed.lifeOf_append, hbefore] at hafter
    cases last with
    | none =>
      obtain ⟨id', hid'⟩ := (hpending (idle_of_not_busy hdone).1).2 rfl
      rw [(hsound'.settled hclosed).find?_eq_none] at hid'
      cases hid'
    | some d =>
      have honly := Deed.eq_singleton_of_life hafter (hlast d rfl) fun x hx =>
        let ⟨o, ho, _⟩ := hdowned x hx
        ⟨o, ho⟩
      obtain ⟨o, rfl, ho⟩ := hdowned d (honly ▸ List.mem_singleton_self d)
      exact ⟨o, ho, honly⟩

end

/-- On an open connection with no call in progress, all that a frame leads to comes to an end if
listeners make no calls; and then, in whatever order operations were failed: if the frame belongs to
an identifier, by its message or by the error with which it cannot be decoded, only the operation
that is pending under it may have changed or heard something, an error was its outcome and took it
out of the table, and the connection is open; if it belongs to none, nothing has changed; and if its
end is not where it says, or it holds a notice of disconnection, every operation heard that the
server is down, once, and the connection is closed. -/
theorem frame_concerns_one_none_or_all (options : Options) (before : List ConnectionMove)
    (frame rest : List UInt8) :
    let c := ((start options).run before).1
    let decoded := Message.decodeWithin c.options.maxMessage frame
    c.isBusy = false → c.closed = false → c.arrival = .frame frame rest →
    (∃ n, (c.run (.read :: List.replicate n .proceed)).1.isBusy = false) ∧
    ∀ ms : List ConnectionMove, (∀ m ∈ ms, m.IsInternal) →
      let c' := (c.run (.read :: ms)).1
      let deeds := c.chronicle (.read :: ms)
      c'.isBusy = false →
      (∀ id, 0 < id → BelongsTo decoded id →
        c'.closed = false ∧
        (∀ owner, c.table.find? id ≠ some owner →
          Spares c.table.registrations owner deeds c'.table.registrations) ∧
        ∀ e owner, decoded = .error e → c.table.find? id = some owner →
          c'.table.find? id = none ∧
          ∃ o, o.response.code = .decodingError ∧ lifeOf owner deeds = [.heard owner (.result o)]) ∧
      (Disconnects decoded = false → (∀ id, 0 < id → ¬ BelongsTo decoded id) →
        c'.closed = false ∧
        ∀ owner, Spares c.table.registrations owner deeds c'.table.registrations) ∧
      (Disconnects decoded = true →
        c'.closed = true ∧ c'.table.size = 0 ∧
        ∀ id owner, c.table.find? id = some owner →
          ∃ o, o.response.code = .serverDown ∧
            lifeOf owner deeds = [.heard owner (.result o)]) := by
  intro c decoded hidle hopen harrival
  have hsound : c.Sound ((start options).chronicle before) := (sound_start options).run before
  -- the reader takes the frame off the stream and hands it over
  let d : Connection := { c with inbound := rest }
  have hd : d.Sound ((start options).chronicle before) :=
    ⟨hsound.table, hsound.scheduler, hsound.settled, hsound.writer⟩
  have hread : c.step .read = d.accept frame := by
    have hreading : c.reading = true := reading_of_open options before hopen
    simp [step, hidle, read?, hreading, harrival, d]
  refine ⟨?_, fun ms hms => ?_⟩
  · obtain ⟨n, hn⟩ := exists_settled (c.step .read).1
    exact ⟨n, hn⟩
  have hrun : (c.run (.read :: ms)).1 = ((d.accept frame).1.run ms).1 := by
    rw [← hread]
    rfl
  have hchronicle : c.chronicle (.read :: ms) = d.chronicleOfFrame frame ms := by
    rw [chronicleOfFrame, ← hread]
    rfl
  rw [hrun, hchronicle]
  intro c' deeds hdone
  have hclosed : c'.closed = Disconnects decoded := closed_of_frame (c := d) hidle hopen hms hdone
  refine ⟨fun id hpos hid => ?_, fun hdown hnone => ?_, fun hdown => ?_⟩
  · have hdown := hid.not_disconnects hpos
    refine ⟨hclosed.trans hdown, fun owner howner => ?_, fun e owner he howner => ?_⟩
    · exact spares_of_frame (c := d) hidle hopen hms hdown fun id' _ hid' => hid'.eq hid ▸ howner
    · exact ended_of_frame hd hidle hopen hms hdone he hpos (he ▸ hid) howner
  · exact ⟨hclosed.trans hdown, fun owner => spares_of_frame (c := d) hidle hopen hms hdown
      fun id hpos hid => absurd hid (hnone id hpos)⟩
  · have hshut := hclosed.trans hdown
    exact ⟨hshut, ((sound_of_frame hd frame ms).settled hshut).size_eq_zero,
      fun id owner howner => downed_of_frame hd hidle hopen hms hdone hdown howner⟩

/-- The second of two requests is spared by a message for the first one that cannot be decoded, and
both end with a frame whose end is not where it says. -/
theorem frame_of_unknown_operation_and_of_long_element :
    let awaiting (frame : List UInt8) := ((start .usual).run
      [.request (.submit (.deleteRequest ⟨"cn=a"⟩) [] .observer),
        .request (.submit (.deleteRequest ⟨"cn=b"⟩) [] .observer),
        .stream (.arrive frame)]).1
    let unknown := awaiting [0x30, 0x05, 0x02, 0x01, 0x01, 0x7e, 0x00]
    let long := awaiting [0x30, 0x03, 0x02, 0x05, 0x01]
    (unknown.table.find? 1 = some 0 ∧ unknown.table.find? 2 = some 1 ∧
      Spares unknown.table.registrations 1 (unknown.chronicle [.read, .proceed, .proceed])
        (unknown.run [.read, .proceed, .proceed]).1.table.registrations ∧
      (∃ o, o.response.code = .decodingError ∧
        lifeOf 0 (unknown.chronicle [.read, .proceed, .proceed]) = [.heard 0 (.result o)])) ∧
    (long.table.find? 1 = some 0 ∧ long.table.find? 2 = some 1 ∧
      (long.run (.read :: List.replicate 6 .proceed)).1.closed = true ∧
      ∀ owner ∈ [0, 1], ∃ o, o.response.code = .serverDown ∧
        lifeOf owner (long.chronicle (.read :: List.replicate 6 .proceed)) =
          [.heard owner (.result o)]) := by
  intro awaiting unknown long
  constructor
  · obtain ⟨-, hdone⟩ := frame_concerns_one_none_or_all .usual
      [.request (.submit (.deleteRequest ⟨"cn=a"⟩) [] .observer),
        .request (.submit (.deleteRequest ⟨"cn=b"⟩) [] .observer),
        .stream (.arrive [0x30, 0x05, 0x02, 0x01, 0x01, 0x7e, 0x00])]
      [0x30, 0x05, 0x02, 0x01, 0x01, 0x7e, 0x00] [] (by decide) (by decide) (by decide +kernel)
    obtain ⟨hone, -, -⟩ := hdone [.proceed, .proceed] (by simp [ConnectionMove.IsInternal])
      (by decide +kernel)
    have hdecoded : Message.decodeWithin unknown.options.maxMessage
        [0x30, 0x05, 0x02, 0x01, 0x01, 0x7e, 0x00] =
          .error (.inMessage 1 (.unknownTag "protocol op" 0x7e)) := by
      decide +kernel
    obtain ⟨-, hspared, hended⟩ := hone 1 (by decide) (by rw [hdecoded]; exact ⟨rfl, rfl⟩)
    have hfirst : unknown.table.find? 1 = some 0 := by decide
    exact ⟨hfirst, by decide, hspared 1 (by rw [hfirst]; decide), (hended _ 0 hdecoded hfirst).2⟩
  · obtain ⟨-, hdone⟩ := frame_concerns_one_none_or_all .usual
      [.request (.submit (.deleteRequest ⟨"cn=a"⟩) [] .observer),
        .request (.submit (.deleteRequest ⟨"cn=b"⟩) [] .observer),
        .stream (.arrive [0x30, 0x03, 0x02, 0x05, 0x01])]
      [0x30, 0x03, 0x02, 0x05, 0x01] [] (by decide) (by decide) (by decide +kernel)
    obtain ⟨-, -, hall⟩ := hdone (List.replicate 6 .proceed) (by simp [ConnectionMove.IsInternal])
      (by decide +kernel)
    obtain ⟨hclosed, -, hended⟩ := hall (by decide +kernel)
    have hfirst : long.table.find? 1 = some 0 := by decide
    have hsecond : long.table.find? 2 = some 1 := by decide
    refine ⟨hfirst, hsecond, hclosed, ?_⟩
    simp only [List.mem_cons, List.not_mem_nil, or_false, forall_eq_or_imp, forall_eq]
    exact ⟨hended 1 0 hfirst, hended 2 1 hsecond⟩

end Connection
end Ldap
