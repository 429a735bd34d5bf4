import Ldap.Proofs.Connection.Effects
import Ldap.Proofs.Pending.Life

/-!
# What becomes of requests, and of a connection that is closed

A connection keeps the requests that it accepted in its table, so that the life of a request is that
of its registration. `requests_accounted_and_closed_for_good` adds what the connection itself sees
to: whoever closes it, the server, the writer or the owner, no operation is left pending, and
nothing is accepted from then on.

Each move is followed through `Sound`, which joins what holds of the table with what closing means.
-/

namespace Ldap

/-! ## Tables without pending operations -/

namespace Table

variable {L : Type}

/-- Nothing is pending. -/
def NonePending (t : Table L) : Prop :=
  ∀ (owner : Nat) (r : Registration L), t.registrations[owner]? = some r → r.stage ≠ .pending

/-- Signs tell what listeners hear and what is ended, never that a registration was made. -/
theorem registered_not_mem_ofSigns (owner : Nat) (signs : List Sign) :
    Deed.registered owner ∉ Deed.ofSigns signs := by
  intro h
  obtain ⟨s, -, hs⟩ := List.mem_filterMap.1 h
  cases s <;> cases hs

/-- What is not pending does not become so, unless it is registered. -/
theorem NonePending.advances {t t' : Table L} {signs : List Sign} (h : t.NonePending)
    (ha : t.Advances (Deed.ofSigns signs) t') : t'.NonePending := by
  intro owner s hs hp
  rcases ha.changes.origin hs (by simp [hp]) with ⟨r, hr, hstage, -⟩ | ⟨-, hmem⟩
  · exact h owner r hr (hstage.trans hp)
  · exact registered_not_mem_ofSigns owner signs hmem

theorem NonePending.advances_nil {t t' : Table L} (h : t.NonePending) (ha : t.Advances [] t') :
    t'.NonePending :=
  h.advances (show t.Advances (Deed.ofSigns []) t' from ha)

/-- When everything is failed, nothing is left that is pending. -/
theorem nonePending_failAll (t : Table L) (code : ResultCode) (diagnostic : String) :
    (t.failAll code diagnostic).NonePending := by
  intro owner s hs
  replace hs : (t.registrations.map Registration.drain)[owner]? = some s := hs
  rw [List.getElem?_map, Option.map_eq_some_iff] at hs
  rcases hs with ⟨r, -, rfl⟩
  unfold Registration.drain
  split <;> simp_all

/-- A call that registers nothing leaves nothing pending where nothing was. -/
theorem NonePending.call {t : Table L} (h : t.NonePending) {c : Call L}
    (hc : t.deedsOfCall c = []) : (t.call c).1.NonePending := by
  rcases t.advances_call c with ⟨code, diagnostic, rfl⟩ | ha
  · exact nonePending_failAll t code diagnostic
  · rw [hc, List.nil_append] at ha
    exact h.advances ha

theorem NonePending.proceed {t : Table L} (h : t.NonePending) : t.proceed.1.NonePending := by
  unfold Table.proceed
  split
  · exact h
  · next a agenda _ =>
    have hagenda : ({ t with agenda } : Table L).NonePending := h
    exact hagenda.advances (advances_perform _ a)

/-- A table without pending registrations is an empty one. -/
theorem NonePending.size_eq_zero {t : Table L} (h : t.NonePending) : t.size = 0 := by
  refine List.countP_eq_zero.2 fun r hr => ?_
  obtain ⟨owner, howner⟩ := List.getElem?_of_mem hr
  simpa using h owner r howner

theorem NonePending.find?_eq_none {t : Table L} (h : t.NonePending) (id : Int32) :
    t.find? id = none := by
  cases hf : t.find? id with
  | none => rfl
  | some owner =>
    obtain ⟨r, hr, hp, -⟩ := pending_of_find? hf
    exact absurd hp (h owner r hr)

/-- Who makes timers go off stays the same. -/
theorem scheduler_call (t : Table L) (c : Call L) : (t.call c).1.scheduler = t.scheduler := by
  rcases t.advances_call c with ⟨code, diagnostic, rfl⟩ | ha
  · rfl
  · exact ha.scheduler

/-- What is done for calls in progress leaves the scheduler as it is. -/
theorem scheduler_proceed (t : Table L) : t.proceed.1.scheduler = t.scheduler := by
  unfold Table.proceed
  split
  · rfl
  · next a agenda _ => exact (advances_perform { t with agenda } a).scheduler

/-- A timer that does not go off while it is armed lets the listener hear nothing yet. -/
theorem register_quiet {t t' : Table L} {id : Int32} {kind : OperationKind} {timeout : Option Nat}
    {listener : L} {signs : List Sign} (hs : t.scheduler ≠ .immediate)
    (h : t.register id kind timeout listener = .ok (t', signs)) : signs = [] := by
  obtain ⟨r, -, -, -, -, -, -, ⟨-, rfl⟩ | ⟨himmediate, -⟩⟩ := register_cases h
  · rfl
  · exact absurd himmediate hs

end Table

/-! ## Deeds on a connection -/

/-- The deed that can be seen of an occurrence. -/
def Deed.ofOccurrence? : Occurrence → Option Deed
  | .heard owner _ event => some (heard owner event)
  | .noticed _ | .queued _ => none

/-- The deeds that can be seen of occurrences. -/
def Deed.ofOccurrences (seen : List Occurrence) : List Deed :=
  seen.filterMap ofOccurrence?

@[simp] theorem Deed.ofOccurrences_nil : ofOccurrences [] = [] := rfl

@[simp] theorem Deed.ofOccurrences_append (a b : List Occurrence) :
    ofOccurrences (a ++ b) = ofOccurrences a ++ ofOccurrences b :=
  List.filterMap_append

namespace Connection

/-- The deeds of a request that can be told by its answer: a submission that is accepted makes a
registration, and an abandonment takes out the operation that it finds. -/
def deedsOfRequest (c : Connection) : Request → List Deed
  | .submit op controls listener =>
    match (c.submit op controls listener).1 with
    | .ok _ => [.registered c.table.registrations.length]
    | .error _ => []
  | .abandon id => c.table.deedsOfAbandon id
  | _ => []

/-- What a move does to requests, in the order in which it happens. -/
def deeds (c : Connection) (m : ConnectionMove) : List Deed :=
  (match m with
    | .request r => if c.isListening then c.deedsOfRequest r else []
    | _ => []) ++ Deed.ofOccurrences (c.step m).2

/-- What moves do to requests, in the order in which it happens. -/
def chronicle (c : Connection) : List ConnectionMove → List Deed
  | [] => []
  | m :: ms => c.deeds m ++ (c.step m).1.chronicle ms

/-! ## Queues -/

/-- Another connection differs only in the identifiers drawn, in the messages that wait, and in what
listeners keep. -/
structure Queues (c c' : Connection) : Prop where
  table : c.table.Evolves [] c'.table
  closed : c'.closed = c.closed
  writing : c'.writing = c.writing
  leaving : c'.writerLeaving = c.writerLeaving
  notice : c'.notice = c.notice
  noClose : .close ∈ c'.outbox → .close ∈ c.outbox

theorem Queues.refl (c : Connection) : c.Queues c :=
  ⟨.refl _, rfl, rfl, rfl, rfl, id⟩

theorem Queues.trans {a b c : Connection} (h : a.Queues b) (h' : b.Queues c) : a.Queues c :=
  ⟨h.table.trans h'.table, h'.closed.trans h.closed, h'.writing.trans h.writing,
    h'.leaving.trans h.leaving, h'.notice.trans h.notice, fun hc => h.noClose (h'.noClose hc)⟩

/-- To send a message is to put it behind the others. -/
theorem queues_send (c : Connection) (m : Message) : c.Queues (c.send m).2.1 := by
  by_cases hw : c.writing = true
  · rw [send, enqueue, if_pos hw]
    exact ⟨.refl _, rfl, rfl, rfl, rfl, by simp⟩
  · rw [send, enqueue, if_neg hw]
    exact .refl c

/-- No listener hears of a message that is sent. -/
theorem ofOccurrences_send (c : Connection) (m : Message) :
    Deed.ofOccurrences (c.send m).2.2 = [] := by
  by_cases hw : c.writing = true
  · rw [send, enqueue, if_pos hw]
    rfl
  · rw [send, enqueue, if_neg hw]
    rfl

theorem queues_sendAbandon (c : Connection) (target : Int32) :
    c.Queues (c.sendAbandon target).2.1 := by
  have hids : c.Queues { c with ids := c.ids.draw.2 } := ⟨.refl _, rfl, rfl, rfl, rfl, id⟩
  exact hids.trans (queues_send _ _)

theorem ofOccurrences_sendAbandon (c : Connection) (target : Int32) :
    Deed.ofOccurrences (c.sendAbandon target).2.2 = [] :=
  ofOccurrences_send _ _

/-- Following a sign of the table leaves requests as they are. -/
theorem queues_follow (c : Connection) (s : Sign) : c.Queues (c.follow s).1 := by
  cases s with
  | heard owner id event =>
    simp only [follow]
    split
    · exact .refl c
    · next r hr =>
      -- the listener keeps what it heard, which is nothing that the table looks at
      exact ⟨.put (.adjust (r.listener.hear event) r.timer hr), rfl, rfl, rfl, rfl, fun h => h⟩
  | abandoning owner id => exact queues_sendAbandon c id
  | answered reply => exact .refl c

theorem queues_followAll (c : Connection) (signs : List Sign) : c.Queues (c.followAll signs).1 := by
  induction signs generalizing c with
  | nil => exact .refl c
  | cons s signs ih => exact (queues_follow c s).trans (ih _)

/-- What the table tells of registrations can be seen of the connection. -/
theorem ofOccurrences_follow (c : Connection) (s : Sign)
    (hs : ∀ d ∈ Deed.ofSigns [s], d.owner < c.table.registrations.length) :
    Deed.ofOccurrences (c.follow s).2 = Deed.ofSigns [s] := by
  cases s with
  | heard owner id event =>
    -- the listener is there to hear it, since its registration is
    have hlt : owner < c.table.registrations.length := hs (.heard owner event) (by simp)
    simp only [follow, List.getElem?_eq_getElem hlt]
    rfl
  | abandoning owner id => exact ofOccurrences_sendAbandon c id
  | answered reply => rfl

/-- What the connection does about signs tells exactly what the signs tell. -/
theorem ofOccurrences_followAll (c : Connection) (signs : List Sign)
    (hs : ∀ d ∈ Deed.ofSigns signs, d.owner < c.table.registrations.length) :
    Deed.ofOccurrences (c.followAll signs).2 = Deed.ofSigns signs := by
  induction signs generalizing c with
  | nil => rfl
  | cons s signs ih =>
    rw [← List.singleton_append, Deed.ofSigns_append] at hs ⊢
    have hlen := (queues_follow c s).table.changes.length_le
    have hfirst := ofOccurrences_follow c s fun d hd => hs d (List.mem_append_left _ hd)
    have hrest := ih (c.follow s).1 fun d hd =>
      lt_of_lt_of_le (hs d (List.mem_append_right _ hd)) hlen
    rw [← hfirst, ← hrest, ← Deed.ofOccurrences_append]
    rfl

/-! ## What holds in every run -/

/-- The table is sound and lets no timer go off while it is armed; nothing is pending once the
connection is closed; and it is closed before the writer goes. -/
structure Sound (c : Connection) (deeds : List Deed) : Prop where
  table : c.table.Sound deeds
  scheduler : c.table.scheduler = .manual
  settled : c.closed = true → c.table.NonePending
  writer : c.writing = false ∨ c.writerLeaving = true ∨ .close ∈ c.outbox → c.closed = true

namespace Sound

variable {c c' : Connection} {deeds new : List Deed}

/-- What is queued changes nothing. -/
theorem queues (h : c.Sound deeds) (hq : c.Queues c') : c'.Sound deeds := by
  have hadv := hq.table.advances
  refine ⟨by simpa using h.table.advances hadv, hadv.scheduler.trans h.scheduler, fun hc => ?_, ?_⟩
  · exact (h.settled (hq.closed ▸ hc)).advances_nil hadv
  · rw [hq.writing, hq.leaving, hq.closed]
    exact fun hw => h.writer (hw.imp_right (.imp_right hq.noClose))

/-- Every registration that a chronicle tells of exists. -/
theorem owner_lt (h : c.Sound (deeds ++ new)) {d : Deed} (hd : d ∈ new) :
    d.owner < c.table.registrations.length := by
  -- nothing befalls a place without registration
  by_contra hle
  have hnil := h.table.recorded.missing d.owner (by omega)
  have hmem : d ∈ Deed.lifeOf d.owner (deeds ++ new) := by simp [Deed.lifeOf, hd]
  rw [hnil] at hmem
  cases hmem

/-- What the table did is taken over. -/
theorem withTable (h : c.Sound deeds) {x : Table Listener × List Sign}
    (hx : x.1.Sound (deeds ++ Deed.ofSigns x.2)) (hs : x.1.scheduler = c.table.scheduler)
    (hp : c.closed = true → x.1.NonePending) :
    (c.withTable x).1.Sound (deeds ++ Deed.ofOccurrences (c.withTable x).2) := by
  have htaken : ({ c with table := x.1 } : Connection).Sound (deeds ++ Deed.ofSigns x.2) :=
    ⟨hx, hs.trans h.scheduler, hp, h.writer⟩
  have hseen := ofOccurrences_followAll { c with table := x.1 } x.2 fun d hd => htaken.owner_lt hd
  unfold Connection.withTable
  rw [hseen]
  exact htaken.queues (queues_followAll _ _)

/-- A call to the table keeps the story sound if it registers nothing. -/
theorem callTable (h : c.Sound deeds) (call : Call Listener)
    (hcall : c.table.deedsOfCall call = []) :
    (c.callTable call).1.Sound (deeds ++ Deed.ofOccurrences (c.callTable call).2) := by
  -- no call that is made here registers or forgets: those two are requests
  have hx := h.table.call call
  rw [hcall, List.nil_append] at hx
  exact h.withTable hx (Table.scheduler_call _ _) fun hc => (h.settled hc).call hcall

/-- Closing leaves nothing pending, at whatever moment it comes. -/
theorem shut (ht : c.table.Sound deeds) (hs : c.table.scheduler = .manual) (code : ResultCode)
    (diagnostic : String) :
    (c.shut code diagnostic).1.Sound
      (deeds ++ Deed.ofOccurrences (c.shut code diagnostic).2) := by
  have heq : c.shut code diagnostic =
      ({ c with closed := true, table := c.table.failAll code diagnostic }, []) := rfl
  rw [heq, Deed.ofOccurrences_nil, List.append_nil]
  exact ⟨ht.failAll code diagnostic, hs, fun _ => Table.nonePending_failAll _ _ _, fun _ => rfl⟩

/-- The writer of an open connection is there. -/
theorem writing (h : c.Sound deeds) (hc : c.closed = false) : c.writing = true := by
  by_contra hw
  rw [h.writer (.inl (Bool.eq_false_iff.2 hw))] at hc
  cases hc

/-! ### Requests -/

/-- A submission is refused and leaves all but the identifiers as it was, or is accepted: then one
registration is made, and one message is queued. -/
theorem submit_cases (h : c.Sound deeds) (op : Operation) (controls : List Control)
    (listener : Listener) :
    (∃ e ids, c.submit op controls listener = (.error e, { c with ids }, [])) ∨
      ∃ kind id ids table, op.kind? = some kind ∧ c.closed = false ∧
        c.table.register id kind (c.options.timeoutFor kind) listener = .ok (table, []) ∧
        c.submit op controls listener =
          (.ok id, { c with ids, table, outbox := c.outbox ++ [.message ⟨id, op, controls⟩] },
            [.queued ⟨id, op, controls⟩]) := by
  unfold Connection.submit
  split
  · exact .inl ⟨_, c.ids, rfl⟩
  · next kind hkind =>
    replace hkind : op.kind? = some kind := (Option.ite_none_right_eq_some.1 hkind).2
    by_cases hc : c.closed = true
    · rw [if_pos hc]
      exact .inl ⟨_, c.ids, rfl⟩
    · rw [if_neg hc]
      generalize c.ids.drawFree c.table.contains c.table.size = drawn
      rcases drawn with ⟨id, ids⟩
      dsimp only
      cases hr : c.table.register id kind (c.options.timeoutFor kind) listener with
      | error e => exact .inl ⟨e, ids, rfl⟩
      | ok x =>
        rcases x with ⟨table, signs⟩
        -- the timer cannot go off yet, and the writer is there as long as nobody closed
        obtain rfl := Table.register_quiet (by simp [h.scheduler]) hr
        replace hc := Bool.eq_false_iff.2 hc
        refine .inr ⟨kind, id, ids, table, hkind, hc, hr, ?_⟩
        simp [send, enqueue, h.writing hc]

/-- A submission adds the registration that it makes, of which nothing is heard yet. -/
theorem submit (h : c.Sound deeds) (op : Operation) (controls : List Control)
    (listener : Listener) :
    (c.submit op controls listener).2.1.Sound
      (deeds ++ (c.deedsOfRequest (.submit op controls listener)
        ++ Deed.ofOccurrences (c.submit op controls listener).2.2)) := by
  rcases h.submit_cases op controls listener with
    ⟨e, ids, heq⟩ | ⟨kind, id, ids, table, -, hc, hr, heq⟩
  · simp only [deedsOfRequest, heq, Deed.ofOccurrences_nil, List.append_nil]
    exact h.queues ⟨.refl _, rfl, rfl, rfl, rfl, fun hc => hc⟩
  · have hev := Table.evolves_register hr
    simp only [deedsOfRequest, heq]
    refine ⟨h.table.advances hev.advances, hev.scheduler.trans h.scheduler, ?_, ?_⟩
    · exact fun hclosed => absurd hclosed (by simp [hc])
    · intro hw
      exact h.writer (by simpa using hw)

/-- An abandonment adds the end of what it finds. -/
theorem abandon (h : c.Sound deeds) (id : Int32) :
    (c.abandon id).2.1.Sound
      (deeds ++ (c.deedsOfRequest (.abandon id) ++ Deed.ofOccurrences (c.abandon id).2.2)) := by
  have hev := Table.evolves_abandon c.table id
  have hforgot : ({ c with table := (c.table.abandon id).2 } : Connection).Sound
      (deeds ++ c.table.deedsOfAbandon id) := by
    refine ⟨h.table.advances hev.advances, hev.scheduler.trans h.scheduler, fun hc => ?_, h.writer⟩
    -- once closed there is nothing that could be found
    have hnone : c.table.deedsOfAbandon id = [] := by
      simp [Table.deedsOfAbandon, (h.settled hc).find?_eq_none]
    rw [hnone] at hev
    exact (h.settled hc).advances_nil hev.advances
  have hseen : Deed.ofOccurrences (c.abandon id).2.2 = [] := ofOccurrences_sendAbandon _ id
  rw [hseen, List.append_nil]
  exact hforgot.queues (queues_sendAbandon _ id)

/-- To unbind is to fail everything, and closes the connection. -/
theorem unbind (h : c.Sound deeds) :
    c.unbind.2.1.Sound (deeds ++ Deed.ofOccurrences c.unbind.2.2) := by
  unfold Connection.unbind
  split
  · simpa using h
  · -- the farewell is queued, then the closing mark, and all operations are failed
    have hids : c.Queues { c with ids := c.ids.draw.2 } := ⟨.refl _, rfl, rfl, rfl, rfl, id⟩
    have hsent := h.queues (hids.trans (queues_send _ ⟨c.ids.draw.1, .unbindRequest, []⟩))
    dsimp only
    rw [Deed.ofOccurrences_append, ofOccurrences_send, List.nil_append]
    exact shut (by rw [table_enqueue]; exact hsent.table)
      (by rw [table_enqueue]; exact hsent.scheduler) _ _

theorem request (h : c.Sound deeds) (r : Request) :
    (c.request r).1.Sound
      (deeds ++ (c.deedsOfRequest r ++ Deed.ofOccurrences (c.request r).2)) := by
  cases r with
  | submit op controls listener => exact h.submit op controls listener
  | abandon id => exact h.abandon id
  | unbind => exact h.unbind
  | fire timer => exact h.callTable (.fire timer) rfl
  | advance time => exact h.callTable (.advance time) rfl

/-! ### Tasks -/

/-- Forgetting what was noticed, or taking it up, leaves requests as they are. -/
theorem withNotice (h : c.Sound deeds) (notice : Option Outcome) :
    ({ c with notice } : Connection).Sound deeds :=
  ⟨h.table, h.scheduler, h.settled, h.writer⟩

/-- After a notice of disconnection everything is failed; after any other one nothing happens. -/
theorem afterNotice (h : c.Sound deeds) (o : Outcome) :
    (c.afterNotice o).1.Sound (deeds ++ Deed.ofOccurrences (c.afterNotice o).2) := by
  rcases c.afterNotice_cases o with ⟨_, diagnostic, -, heq⟩ | ⟨-, heq⟩
  · rw [heq]
    exact shut h.table h.scheduler _ _
  · rw [heq]
    simpa using h

theorem releaseWriter (h : c.Sound deeds) : c.releaseWriter.Sound deeds := by
  unfold Connection.releaseWriter
  split
  · next hleaving =>
    -- a writer leaves only a connection that is closed
    have hclosed := h.writer (.inr (.inl (by simp_all)))
    exact ⟨h.table, h.scheduler, h.settled, fun _ => hclosed⟩
  · exact h

/-- What is in progress goes on as the table has it, once the notice that came first is dealt with.
-/
theorem proceed (h : c.Sound deeds) :
    c.proceed.1.Sound (deeds ++ Deed.ofOccurrences c.proceed.2) := by
  unfold Connection.proceed
  split
  · simpa using h
  · next o _ _ => exact (h.withNotice none).afterNotice o
  · exact (h.withTable h.table.proceed (Table.scheduler_proceed _)
      fun hc => (h.settled hc).proceed).releaseWriter

theorem stopReading (h : c.Sound deeds) (reason : String) :
    (c.stopReading reason).1.Sound (deeds ++ Deed.ofOccurrences (c.stopReading reason).2) :=
  shut (c := { c with reading := false }) h.table h.scheduler _ _

/-- A frame is told to one listener, to all of them, or to none. -/
theorem accept (h : c.Sound deeds) (frame : List UInt8) :
    (c.accept frame).1.Sound (deeds ++ Deed.ofOccurrences (c.accept frame).2) := by
  have heffect := c.frameEffect_accept frame
  generalize c.accept frame = x at heffect ⊢
  cases heffect with
  | notify m =>
    rcases c.notify_cases m with ⟨-, heq⟩ | ⟨r, o, -, -, heq⟩
    · rw [heq]
      simpa using h
    · rw [heq, show Deed.ofOccurrences [.noticed o] = [] from rfl, List.append_nil]
      exact h.withNotice (some o)
  | deliver => exact h.callTable _ rfl
  | complete => exact h.callTable _ rfl
  | stop => exact h.stopReading _
  | fail => exact h.callTable _ rfl
  | ignore => simpa using h

/-- A read may end the stream, and then everything is failed. -/
theorem read? (h : c.Sound deeds) {x : Connection × List Occurrence} (hx : c.read? = some x) :
    x.1.Sound (deeds ++ Deed.ofOccurrences x.2) := by
  rcases read?_cases hx with ⟨-, ⟨frame, inbound, rfl⟩ | ⟨reason, rfl⟩⟩
  · have hrest : ({ c with inbound } : Connection).Sound deeds :=
      ⟨h.table, h.scheduler, h.settled, h.writer⟩
    exact hrest.accept frame
  · exact h.stopReading reason

/-- So may a write that fails. -/
theorem write? (h : c.Sound deeds) {x : Connection × List Occurrence} (hx : c.write? = some x) :
    x.1.Sound (deeds ++ Deed.ofOccurrences x.2) := by
  cases writeEffect_of_write? hx with
  | close later next =>
    -- the closing mark was queued when the connection was closed
    have hclosed := h.writer (.inr (.inr (by simp [next])))
    rw [Deed.ofOccurrences_nil, List.append_nil]
    exact ⟨h.table, h.scheduler, h.settled, fun _ => hclosed⟩
  | write m outbox next =>
    have hwriter : c.writing = false ∨ c.writerLeaving = true ∨ .close ∈ outbox →
        c.closed = true :=
      fun hw => h.writer (hw.imp_right (.imp_right fun hm => by simp [next, hm]))
    rw [Deed.ofOccurrences_nil, List.append_nil]
    exact ⟨h.table, h.scheduler, h.settled, hwriter⟩
  | fail m outbox =>
    -- what cannot be written closes the connection
    exact shut (c := { c with outbox, writerLeaving := true }) h.table h.scheduler _ _

/-! ### Moves -/

theorem change (h : c.Sound deeds) (change : StreamChange) : (c.change change).Sound deeds := by
  unfold Connection.change
  split
  · split
    · exact ⟨h.table, h.scheduler, h.settled, h.writer⟩
    · exact h
  · exact ⟨h.table, h.scheduler, h.settled, h.writer⟩
  · exact ⟨h.table, h.scheduler, h.settled, h.writer⟩

theorem rearrange (h : c.Sound deeds) (owners : List Nat) :
    ({ c with table := c.table.rearrange owners } : Connection).Sound deeds := by
  have hkept : (c.table.rearrange owners).registrations = c.table.registrations ∧
      (c.table.rearrange owners).scheduler = c.table.scheduler := by
    unfold Table.rearrange
    split
    · split <;> exact ⟨rfl, rfl⟩
    · exact ⟨rfl, rfl⟩
  refine ⟨h.table.rearrange owners, hkept.2.trans h.scheduler, fun hc => ?_, h.writer⟩
  intro owner r hr
  rw [hkept.1] at hr
  exact h.settled hc owner r hr

/-- Every move of a connection keeps its story sound. -/
theorem step (h : c.Sound deeds) (m : ConnectionMove) :
    (c.step m).1.Sound (deeds ++ c.deeds m) := by
  cases m with
  | request r =>
    simp only [Connection.step, Connection.deeds]
    split
    · exact h.request r
    · simpa using h
  | stream change => simpa [Connection.step, Connection.deeds] using h.change change
  | proceed => simpa [Connection.step, Connection.deeds] using h.proceed
  | rearrange owners => simpa [Connection.step, Connection.deeds] using h.rearrange owners
  | read =>
    simp only [Connection.deeds, List.nil_append]
    rcases c.step_read with heq | hx
    · simpa [heq] using h
    · exact h.read? hx
  | write =>
    simp only [Connection.deeds, List.nil_append]
    rcases c.step_write with heq | ⟨-, hx⟩
    · simpa [heq] using h
    · exact h.write? hx

/-- And so does every run. -/
theorem run (h : c.Sound deeds) (ms : List ConnectionMove) :
    (c.run ms).1.Sound (deeds ++ c.chronicle ms) := by
  induction ms generalizing c deeds with
  | nil => simpa [Connection.run, chronicle] using h
  | cons m ms ih =>
    have hrest := ih (h.step m)
    rw [List.append_assoc] at hrest
    exact hrest

end Sound

/-- At the start there is no story to tell. -/
theorem sound_start (options : Options) : (start options).Sound [] :=
  ⟨Table.sound_empty _ _, rfl, (fun h => by cases h), fun h => by simp [start] at h⟩

/-! ## Closed connections -/

theorem closed_withTable {c : Connection} (h : c.closed = true) (x : Table Listener × List Sign) :
    (c.withTable x).1.closed = true :=
  (queues_followAll _ _).closed.trans h

theorem closed_callTable {c : Connection} (h : c.closed = true) (call : Call Listener) :
    (c.callTable call).1.closed = true :=
  closed_withTable h _

/-- A closed connection accepts nothing, and changes nothing when it is asked to. What is no request
is not accepted by any connection. -/
theorem submit_closed {c : Connection} (h : c.closed = true) (op : Operation)
    (controls : List Control) (listener : Listener) :
    c.submit op controls listener =
      (.error (if op.isRequest then .connectionClosed else .notARequest op.name), c, []) := by
  unfold submit
  -- whether it is a request is looked at first
  by_cases hreq : op.isRequest = true
  · obtain ⟨kind, hkind⟩ : ∃ kind, op.kind? = some kind := by
      cases op <;> first | exact ⟨_, rfl⟩ | cases hreq
    simp [hreq, hkind, h]
  · simp [hreq]

/-- No request opens a connection again. -/
theorem closed_request {c : Connection} (h : c.closed = true) (r : Request) :
    (c.request r).1.closed = true := by
  cases r with
  | submit op controls listener =>
    rw [request, submit_closed h]
    exact h
  | abandon id => exact (queues_sendAbandon _ id).closed.trans h
  | unbind =>
    unfold request unbind
    rw [if_pos h]
    exact h
  | fire timer => exact closed_callTable h _
  | advance time => exact closed_callTable h _

theorem closed_afterNotice {c : Connection} (h : c.closed = true) (o : Outcome) :
    (c.afterNotice o).1.closed = true := by
  rcases c.afterNotice_cases o with ⟨_, diagnostic, -, heq⟩ | ⟨-, heq⟩
  · rw [heq]
    exact closed_callTable rfl _
  · rw [heq]
    exact h

theorem closed_releaseWriter {c : Connection} (h : c.closed = true) :
    c.releaseWriter.closed = true := by
  unfold releaseWriter
  split <;> exact h

/-- Nor does a listener that goes on. -/
theorem closed_proceed {c : Connection} (h : c.closed = true) : c.proceed.1.closed = true := by
  unfold proceed
  split
  · exact h
  · next o _ _ => exact closed_afterNotice (c := { c with notice := none }) h o
  · exact closed_releaseWriter (closed_withTable h _)

theorem closed_accept {c : Connection} (h : c.closed = true) (frame : List UInt8) :
    (c.accept frame).1.closed = true := by
  have heffect := c.frameEffect_accept frame
  generalize c.accept frame = x at heffect ⊢
  cases heffect with
  | notify m =>
    rcases c.notify_cases m with ⟨-, heq⟩ | ⟨r, o, -, -, heq⟩
    all_goals
      rw [heq]
      exact h
  | deliver => exact closed_callTable h _
  | complete => exact closed_callTable h _
  | stop => exact closed_callTable rfl _
  | fail => exact closed_callTable h _
  | ignore => exact h

/-- Nor does what still comes from the server. -/
theorem closed_read? {c : Connection} (h : c.closed = true) {x : Connection × List Occurrence}
    (hx : c.read? = some x) : x.1.closed = true := by
  rcases read?_cases hx with ⟨-, ⟨frame, inbound, rfl⟩ | ⟨reason, rfl⟩⟩
  · exact closed_accept (c := { c with inbound }) h frame
  · exact closed_callTable rfl _

theorem closed_write? {c : Connection} (h : c.closed = true) {x : Connection × List Occurrence}
    (hx : c.write? = some x) : x.1.closed = true := by
  cases writeEffect_of_write? hx with
  | close => exact h
  | write => exact h
  | fail => exact closed_callTable rfl _

/-- No move opens a connection again. -/
theorem closed_step {c : Connection} (h : c.closed = true) (m : ConnectionMove) :
    (c.step m).1.closed = true := by
  cases m with
  | request r =>
    rcases c.step_request r with heq | ⟨-, heq⟩
    · rwa [heq]
    · rw [heq]
      exact closed_request h r
  | stream change =>
    simp only [step, Connection.change]
    repeat' split
    all_goals exact h
  | proceed => exact closed_proceed h
  | rearrange owners => exact h
  | read =>
    rcases c.step_read with heq | hx
    · rwa [heq]
    · exact closed_read? h hx
  | write =>
    rcases c.step_write with heq | ⟨-, hx⟩
    · rwa [heq]
    · exact closed_write? h hx

/-- A connection that is closed stays so. -/
theorem closed_run {c : Connection} (h : c.closed = true) (ms : List ConnectionMove) :
    (c.run ms).1.closed = true := by
  induction ms generalizing c with
  | nil => exact h
  | cons m ms ih => exact ih (closed_step h m)

/-! ## Every run -/

/-- In every run, whatever listeners request in between, a request that was accepted has had
one outcome, or was taken out by an abandonment, or is pending, as soon as no call is in progress.
A closed connection stays closed with nothing pending; it refuses every submission, and neither
registers nor queues it. -/
theorem requests_accounted_and_closed_for_good (options : Options) (ms : List ConnectionMove) :
    let c := ((start options).run ms).1
    let chronicle := (start options).chronicle ms
    (c.isBusy = false → ∀ owner, .registered owner ∈ chronicle →
      ∃ (ds : List Delivery) (last : Option Deed),
        Deed.lifeOf owner chronicle =
          .registered owner :: ds.map (fun d => .heard owner (.delivery d)) ++ last.toList ∧
        (last = none ∧ (∃ id, c.table.find? id = some owner) ∨
          ((last = some (.abandoned owner) ∨ ∃ o, last = some (.heard owner (.result o))) ∧
            ∀ id, c.table.find? id ≠ some owner))) ∧
    (c.closed = true →
      (∀ later, (c.run later).1.closed = true) ∧ c.table.size = 0 ∧
        ∀ op controls listener, c.submit op controls listener =
          (.error (if op.isRequest then .connectionClosed else .notARequest op.name), c, [])) := by
  intro c chronicle
  have h : c.Sound chronicle := (sound_start options).run ms
  -- what becomes of requests, and what closing means
  constructor
  · intro hidle owner hmem
    have hagenda : c.table.agenda = [] := by
      simp only [isBusy, Bool.or_eq_false_iff, Bool.not_eq_eq_eq_not, Bool.not_false] at hidle
      exact List.isEmpty_iff.1 hidle.1
    -- that it was accepted is told in its life
    rcases h.table.life owner with ⟨-, hnil⟩ | ⟨ds, last, hlife, hlast, hpending⟩
    · have hin : Deed.registered owner ∈ Deed.lifeOf owner chronicle := by
        simp [Deed.lifeOf, hmem, Deed.owner]
      rw [hnil] at hin
      cases hin
    · refine ⟨ds, last, hlife, ?_⟩
      cases last with
      | none => exact .inl ⟨rfl, (hpending hagenda).2 rfl⟩
      | some d =>
        refine .inr ⟨?_, fun id hid => ?_⟩
        · rcases hlast d rfl with rfl | ⟨o, rfl⟩
          · exact .inl rfl
          · exact .inr ⟨o, rfl⟩
        · cases (hpending hagenda).1 ⟨id, hid⟩
  · intro hc
    exact ⟨fun later => closed_run hc later, (h.settled hc).size_eq_zero, submit_closed hc⟩

/-- What is no request is refused for that reason, even when the connection is closed. -/
theorem closed_names_what_is_no_request :
    let c := ((start .usual).run [.request .unbind, .proceed, .proceed]).1
    c.isBusy = false ∧ c.closed = true ∧
      (c.submit (.done .search ⟨⟨0⟩, none, none, []⟩) [] .observer).1
        = .error (.notARequest "SearchResultDone") ∧
      SessionError.notARequest "SearchResultDone" ≠ .connectionClosed := by
  decide

end Connection
end Ldap
