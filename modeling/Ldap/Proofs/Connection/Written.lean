import Ldap.Proofs.Connection.Identifiers
import Ldap.Proofs.Pending.Reuse

/-!
# What is written to the server

A call that is answered with success promises a message to the server, and so does an operation
whose time is up, if the connection abandons. The writer writes what was promised in the order of
the promises, up to the farewell (`written_of_promised`). What is promised behind the farewell waits
behind the mark that ends the writer, and is lost; only abandonments are promised then, since
everything else looks at whether the connection is closed (`abandonment_lost_behind_farewell`).

The account of a run is kept in a `Ledger`, which has a form for each stage of the writer.
-/

namespace Ldap

/-- A message by which an operation is abandoned. -/
def Message.Abandons (m : Message) : Prop :=
  ∃ target, m.op = .abandonRequest target

/-- The messages by which operations are abandoned, under the identifiers that come next. -/
def MessageIds.abandonments (ids : MessageIds) : List Int32 → List Message
  | [] => []
  | target :: targets =>
    ⟨ids.draw.1, .abandonRequest ⟨target⟩, []⟩ :: ids.draw.2.abandonments targets

theorem MessageIds.abandons_of_mem {ids : MessageIds} {targets : List Int32} {m : Message}
    (h : m ∈ ids.abandonments targets) : m.Abandons := by
  induction targets generalizing ids with
  | nil => cases h
  | cons target targets ih =>
    rcases List.mem_cons.1 h with rfl | h
    · exact ⟨_, rfl⟩
    · exact ih h

/-! ## Tables in which everything is over -/

namespace Table

/-- An operation that ends for another reason than that its time is up is not abandoned. -/
theorem targets_finish {L : Type} {t t' : Table L} {owner : Nat} {verdict : Verdict} {p : Progress}
    {signs : List Sign} (h : t.finish owner false verdict = some (p, t', signs)) :
    Sign.targets signs = [] := by
  obtain ⟨r, -, -, -, -, rfl⟩ := exists_live_of_finish h
  rfl

theorem targets_complete {L : Type} (t : Table L) (id : Int32) (verdict : Verdict) :
    Sign.targets (t.call (.complete id verdict)).2 = [] := by
  simp only [call, resume, complete]
  split
  · next h =>
    obtain ⟨owner, -, h⟩ := Option.bind_eq_some_iff.1 h
    exact targets_finish h
  · rfl

theorem targets_deliver {L : Type} (t : Table L) (id : Int32) (d : Delivery) :
    Sign.targets (t.call (.deliver id d)).2 = [] := by
  simp only [call, resume, deliver]
  split
  · rfl
  split
  · rfl
  split <;> rfl

variable {L : Type} {t t' : Table L}

/-- Every registration is over. -/
def AllOver (t : Table L) : Prop :=
  ∀ owner, ¬ t.isLive owner

theorem Confined.allOver {place : Option Nat} {signs : List Sign} (h : t.Confined place signs t')
    (hover : t.AllOver) : t'.AllOver :=
  fun owner hlive => hover owner (h.live owner hlive)

/-- Where everything is over, no time is up. -/
theorem Confined.targets_eq_nil {place : Option Nat} {signs : List Sign}
    (h : t.Confined place signs t') (hover : t.AllOver) : Sign.targets signs = [] := by
  refine List.eq_nil_iff_forall_not_mem.2 fun id hid => ?_
  obtain ⟨s, hs, htarget⟩ := List.mem_filterMap.1 hid
  cases s with
  | heard owner id event => cases htarget
  | answered reply => cases htarget
  | abandoning owner id => exact hover owner (h.told _ hs owner rfl).2

theorem AllOver.failAll (h : t.AllOver) (code : ResultCode) (diagnostic : String) :
    (t.failAll code diagnostic).AllOver := by
  intro owner hlive
  obtain ⟨s, hs, hsout⟩ := isLive_iff.1 hlive
  replace hs : (t.registrations.map Registration.drain)[owner]? = some s := hs
  rw [List.getElem?_map, Option.map_eq_some_iff] at hs
  obtain ⟨r, hr, rfl⟩ := hs
  refine h owner (isLive_iff.2 ⟨r, hr, fun hover => hsout ?_⟩)
  rw [Registration.drain, if_neg (by simp [hover]), hover]

/-- What is over stays so unless something is registered, and then no time is up either. -/
theorem AllOver.call (h : t.AllOver) {c : Call L}
    (hc : ∀ id kind timeout listener, c ≠ .register id kind timeout listener) :
    (t.call c).1.AllOver ∧ Sign.targets (t.call c).2 = [] := by
  rcases confined_call t c with ⟨code, diagnostic, rfl⟩ | hconfined | ⟨⟨_, _, _, _, heq⟩, -⟩
  · exact ⟨h.failAll code diagnostic, rfl⟩
  · exact ⟨hconfined.allOver h, hconfined.targets_eq_nil h⟩
  · exact absurd heq (hc _ _ _ _)

theorem AllOver.proceed (h : t.AllOver) :
    t.proceed.1.AllOver ∧ Sign.targets t.proceed.2 = [] :=
  ⟨(confined_proceed t).allOver h, (confined_proceed t).targets_eq_nil h⟩

/-- Between calls, what is not pending is over. -/
theorem Sound.allOver {deeds : List Deed} (h : t.Sound deeds) (hidle : t.agenda = [])
    (hnone : t.NonePending) : t.AllOver := by
  intro owner hlive
  obtain ⟨r, hr, hout⟩ := isLive_iff.1 hlive
  have hpending := hnone owner r hr
  have hdrained := h.not_drained hidle hr
  cases hstage : r.stage <;> contradiction

end Table

namespace Connection

/-! ## What is promised -/

/-- The messages that are promised when something is requested: one if the call is answered with
success, and one for each operation whose time is up, if the connection abandons it. -/
def promisedByRequest (c : Connection) : Request → List Message
  | .submit op controls listener =>
    match (c.submit op controls listener).1 with
    | .ok id => [⟨id, op, controls⟩]
    | .error _ => []
  | .abandon id =>
    match (c.abandon id).1 with
    | .ok _ => [⟨c.ids.next, .abandonRequest ⟨id⟩, []⟩]
    | .error _ => []
  | .unbind =>
    match c.unbind.1 with
    | .ok _ => [⟨c.ids.next, .unbindRequest, []⟩]
    | .error _ => []
  | .fire timer => c.ids.abandonments (Sign.targets (c.table.call (.fire timer)).2)
  | .advance time => c.ids.abandonments (Sign.targets (c.table.call (.advance time)).2)

/-- The messages that are promised by a move. -/
def promised (c : Connection) : ConnectionMove → List Message
  | .request r => if c.isListening then c.promisedByRequest r else []
  | .proceed => c.ids.abandonments (Sign.targets c.table.proceed.2)
  | .stream _ | .rearrange _ | .read | .write => []

/-- The messages that are promised by moves, in the order of the promises. -/
def promises (c : Connection) : List ConnectionMove → List Message
  | [] => []
  | m :: ms => c.promised m ++ (c.step m).1.promises ms

/-! ## What is sent -/

/-- Messages were handed to the writer, if the writer is there, and nothing was written. A
connection that is closed with nothing left in its table stays so. -/
structure Sends (c : Connection) (qs : List Message) (c' : Connection) : Prop where
  outbox : c'.outbox = c.outbox ++ if c.writing then qs.map .message else []
  written : c'.written = c.written
  writing : c'.writing = c.writing
  writerLeaving : c'.writerLeaving = c.writerLeaving
  writeFault : c'.writeFault = c.writeFault
  closed : c.closed = true → c'.closed = true
  allOver : c.closed = true → c.table.AllOver → c'.table.AllOver

namespace Sends

variable {c c' c'' : Connection} {qs qs' : List Message}

/-- Nothing was sent. -/
theorem quiet (outbox : c'.outbox = c.outbox) (written : c'.written = c.written)
    (writing : c'.writing = c.writing) (writerLeaving : c'.writerLeaving = c.writerLeaving)
    (writeFault : c'.writeFault = c.writeFault) (closed : c.closed = true → c'.closed = true)
    (allOver : c.closed = true → c.table.AllOver → c'.table.AllOver) : c.Sends [] c' :=
  ⟨by simp [outbox], written, writing, writerLeaving, writeFault, closed, allOver⟩

theorem refl (c : Connection) : c.Sends [] c :=
  .quiet rfl rfl rfl rfl rfl id fun _ => id

theorem trans (h : c.Sends qs c') (h' : c'.Sends qs' c'') : c.Sends (qs ++ qs') c'' where
  outbox := by
    rw [h'.outbox, h.outbox, h.writing]
    split <;> simp
  written := h'.written.trans h.written
  writing := h'.writing.trans h.writing
  writerLeaving := h'.writerLeaving.trans h.writerLeaving
  writeFault := h'.writeFault.trans h.writeFault
  closed hc := h'.closed (h.closed hc)
  allOver hc hover := h'.allOver (h.closed hc) (h.allOver hc hover)

end Sends

theorem sends_send (c : Connection) (m : Message) : c.Sends [m] (c.send m).2.1 := by
  rcases c.send_cases m with ⟨hw, h⟩ | ⟨hw, h⟩
  · rw [h]
    exact ⟨by simp [hw], rfl, rfl, rfl, rfl, id, fun _ => id⟩
  · rw [h]
    exact ⟨by simp [hw], rfl, rfl, rfl, rfl, id, fun _ => id⟩

/-- An abandonment is sent under the next identifier. -/
theorem sends_sendAbandon (c : Connection) (target : Int32) :
    c.Sends [⟨c.ids.next, .abandonRequest ⟨target⟩, []⟩] (c.sendAbandon target).2.1 := by
  have hdraw : c.Sends [] { c with ids := c.ids.draw.2 } :=
    .quiet rfl rfl rfl rfl rfl id fun _ => id
  exact hdraw.trans (sends_send _ _)

theorem sends_follow (c : Connection) (s : Sign) :
    c.Sends (c.ids.abandonments (Sign.targets [s])) (c.follow s).1 ∧
      ∀ signs, c.ids.abandonments (Sign.targets (s :: signs)) =
        c.ids.abandonments (Sign.targets [s]) ++
          (c.follow s).1.ids.abandonments (Sign.targets signs) := by
  cases s with
  | heard owner id event =>
    simp only [follow]
    split
    · exact ⟨.refl c, fun _ => rfl⟩
    · next r hr =>
      have hput : c.table.Confined (some owner) []
          (c.table.put owner { r with listener := r.listener.hear event }) := .put hr rfl fun h => h
      exact ⟨.quiet rfl rfl rfl rfl rfl (fun h => h) fun _ => hput.allOver, fun _ => rfl⟩
  | abandoning owner id =>
    refine ⟨sends_sendAbandon c id, fun signs => ?_⟩
    have hids : (c.follow (.abandoning owner id)).1.ids = c.ids.draw.2 := ids_send _ _
    rw [hids]
    rfl
  | answered reply => exact ⟨.refl c, fun _ => rfl⟩

theorem sends_followAll (c : Connection) (signs : List Sign) :
    c.Sends (c.ids.abandonments (Sign.targets signs)) (c.followAll signs).1 := by
  induction signs generalizing c with
  | nil => exact .refl c
  | cons s signs ih =>
    obtain ⟨hfirst, hsplit⟩ := sends_follow c s
    rw [hsplit]
    exact hfirst.trans (ih _)

/-- What the table does is followed by the abandonments that it asks for. -/
theorem sends_withTable {c : Connection} {x : Table Listener × List Sign}
    (hover : c.closed = true → c.table.AllOver → x.1.AllOver) :
    c.Sends (c.ids.abandonments (Sign.targets x.2)) (c.withTable x).1 := by
  have htaken : c.Sends [] { c with table := x.1 } := .quiet rfl rfl rfl rfl rfl id hover
  exact htaken.trans (sends_followAll { c with table := x.1 } x.2)

theorem sends_callTable (c : Connection) {call : Call Listener}
    (hcall : ∀ id kind timeout listener, call ≠ .register id kind timeout listener) :
    c.Sends (c.ids.abandonments (Sign.targets (c.table.call call).2)) (c.callTable call).1 :=
  sends_withTable fun _ hover => (hover.call hcall).1

theorem sends_callTable_nil {c : Connection} {call : Call Listener}
    (hcall : ∀ id kind timeout listener, call ≠ .register id kind timeout listener)
    (htargets : Sign.targets (c.table.call call).2 = []) : c.Sends [] (c.callTable call).1 := by
  have hsent := c.sends_callTable hcall
  rwa [htargets] at hsent

theorem sends_shut (c : Connection) (code : ResultCode) (diagnostic : String) :
    c.Sends [] (c.shut code diagnostic).1 :=
  .quiet rfl rfl rfl rfl rfl (fun _ => rfl) fun _ hover => hover.failAll code diagnostic

/-! ### Requests -/

/-- A writer that is gone is handed nothing, whatever is sent. -/
theorem Sends.of_not_writing {c c' : Connection} {qs : List Message} (h : c.Sends qs c')
    (hw : c.writing = false) (qs' : List Message) : c.Sends qs' c' :=
  { h with outbox := by rw [h.outbox, hw]; rfl }

theorem answer_abandon (c : Connection) (id : Int32) :
    (c.abandon id).1 = if c.writing then .ok () else .error .connectionClosed := by
  cases hw : c.writing <;> simp [abandon, sendAbandon, send, enqueue, hw]

/-- A connection takes leave once. -/
theorem unbind_closed {c : Connection} (hc : c.closed = true) :
    c.unbind = (.error .connectionClosed, c, []) := by
  rw [unbind, if_pos hc]

/-- The farewell is handed to the writer, and the mark that ends the writer behind it. -/
theorem unbind_open {c : Connection} (hc : c.closed = false) (hw : c.writing = true) :
    c.unbind.1 = .ok () ∧ ∃ ids table, c.unbind.2.1 =
      { c with
        ids, table, closed := true
        outbox := c.outbox ++ [.message ⟨c.ids.next, .unbindRequest, []⟩, .close] } := by
  have hid : c.ids.draw.1 = c.ids.next := rfl
  simp only [unbind, hc, send, enqueue, hw, shut, callTable, withTable, followAll, Table.call,
    if_true, if_false, Bool.false_eq_true, hid, List.append_assoc, List.cons_append,
    List.nil_append]
  exact ⟨trivial, _, _, rfl⟩

theorem sends_request {c : Connection} {deeds : List Deed} (h : c.Sound deeds) {r : Request}
    (hr : r = .unbind → c.closed = true) : c.Sends (c.promisedByRequest r) (c.request r).1 := by
  cases r with
  | submit op controls listener =>
    rcases h.submit_cases op controls listener with
      ⟨e, ids, heq⟩ | ⟨kind, id, ids, table, -, hc, -, heq⟩
    · simp only [promisedByRequest, request, heq]
      exact .quiet rfl rfl rfl rfl rfl (fun h => h) fun _ h => h
    · simp only [promisedByRequest, request, heq]
      refine ⟨by simp [h.writing hc], rfl, rfl, rfl, rfl, fun h => h, fun hclosed => ?_⟩
      rw [hc] at hclosed
      cases hclosed
  | abandon id =>
    have hforgot : c.Sends [] { c with table := (c.table.abandon id).2 } :=
      .quiet rfl rfl rfl rfl rfl (fun h => h) fun _ => (Table.confined_abandon c.table id).allOver
    have hsent := hforgot.trans (sends_sendAbandon _ id)
    simp only [promisedByRequest, answer_abandon]
    cases hw : c.writing with
    | true => exact hsent
    | false => exact hsent.of_not_writing hw _
  | unbind =>
    simp only [promisedByRequest, request, unbind_closed (hr rfl)]
    exact .refl c
  | fire timer => exact sends_callTable c (by simp)
  | advance time => exact sends_callTable c (by simp)

/-! ### Tasks -/

theorem sends_afterNotice (c : Connection) (o : Outcome) : c.Sends [] (c.afterNotice o).1 := by
  rcases c.afterNotice_cases o with ⟨_, diagnostic, -, heq⟩ | ⟨-, heq⟩
  · rw [heq]
    exact sends_shut c _ _
  · rw [heq]
    exact .refl c

theorem sends_proceed {c : Connection} (hleaving : c.writerLeaving = false) :
    c.Sends (c.ids.abandonments (Sign.targets c.table.proceed.2)) c.proceed.1 := by
  have hidle (hagenda : c.table.agenda = []) : c.table.proceed.2 = [] := by
    rw [Table.proceed, hagenda]
  unfold proceed
  split
  · next hagenda _ =>
    rw [hidle hagenda]
    exact .refl c
  · next o hagenda _ =>
    rw [hidle hagenda]
    have hheard : c.Sends [] { c with notice := none } :=
      .quiet rfl rfl rfl rfl rfl id fun _ => id
    exact hheard.trans (sends_afterNotice _ o)
  · have hsent := sends_withTable (c := c) fun _ hover => hover.proceed.1
    have hstays : (c.withTable c.table.proceed).1.releaseWriter
        = (c.withTable c.table.proceed).1 := by
      rw [releaseWriter, hsent.writerLeaving, hleaving]
      rfl
    dsimp only
    rw [hstays]
    exact hsent

theorem sends_stopReading (c : Connection) (reason : String) :
    c.Sends [] (c.stopReading reason).1 := by
  have hstopped : c.Sends [] { c with reading := false } :=
    .quiet rfl rfl rfl rfl rfl id fun _ => id
  exact hstopped.trans (sends_shut _ _ _)

theorem sends_accept (c : Connection) (frame : List UInt8) : c.Sends [] (c.accept frame).1 := by
  have heffect := c.frameEffect_accept frame
  generalize c.accept frame = x at heffect ⊢
  cases heffect with
  | notify m =>
    rcases c.notify_cases m with ⟨-, heq⟩ | ⟨r, o, -, -, heq⟩
    · rw [heq]
      exact .refl c
    · rw [heq]
      exact .quiet rfl rfl rfl rfl rfl id fun _ => id
  | deliver => exact sends_callTable_nil nofun (Table.targets_deliver _ _ _)
  | complete => exact sends_callTable_nil nofun (Table.targets_complete _ _ _)
  | stop => exact sends_stopReading c _
  | fail => exact sends_callTable_nil nofun (Table.targets_complete _ _ _)
  | ignore => exact .refl c

theorem sends_read? {c : Connection} {x : Connection × List Occurrence} (hx : c.read? = some x) :
    c.Sends [] x.1 := by
  rcases read?_cases hx with ⟨-, ⟨frame, inbound, rfl⟩ | ⟨reason, rfl⟩⟩
  · have htaken : c.Sends [] { c with inbound } := .quiet rfl rfl rfl rfl rfl id fun _ => id
    exact htaken.trans (sends_accept _ frame)
  · exact sends_stopReading c reason

/-! ### Moves -/

/-- Unless the writer does something or the connection takes leave, a move hands the writer what it
promises. -/
theorem sends_step {c : Connection} {deeds : List Deed} (h : c.Sound deeds)
    (hleaving : c.writerLeaving = false) {m : ConnectionMove} (hwrite : m ≠ .write)
    (hfault : ∀ reason, m ≠ .stream (.failWriting reason))
    (hunbind : m = .request .unbind → c.closed = true) :
    c.Sends (c.promised m) (c.step m).1 := by
  cases m with
  | request r =>
    simp only [promised, step]
    split
    · exact sends_request h fun heq => hunbind (congrArg _ heq)
    · exact .refl c
  | stream change =>
    cases change with
    | arrive bytes =>
      simp only [promised, step, Connection.change]
      split
      · exact .quiet rfl rfl rfl rfl rfl id fun _ => id
      · exact .refl c
    | stop ending => exact .quiet rfl rfl rfl rfl rfl id fun _ => id
    | failWriting reason => exact absurd rfl (hfault reason)
  | proceed => exact sends_proceed hleaving
  | rearrange owners =>
    exact .quiet rfl rfl rfl rfl rfl id fun _ => (Table.confined_rearrange _ owners).allOver
  | read =>
    rcases c.step_read with heq | hx
    · rw [heq]
      exact .refl c
    · exact sends_read? hx
  | write => exact absurd rfl hwrite

/-! ## The ledger -/

/-- A farewell is not accepted as a request. -/
theorem submit_farewell (c : Connection) (controls : List Control) (listener : Listener)
    (id : Int32) : (c.submit .unbindRequest controls listener).1 ≠ .ok id := by
  unfold submit
  simp only [Operation.isRequest, if_true, Operation.kind?]
  split
  · nofun
  · -- no response is expected to it, so that it cannot be registered
    generalize c.ids.drawFree c.table.contains c.table.size = drawn
    rcases drawn with ⟨id', ids⟩
    simp [Table.register, OperationKind.expectsResponse]

/-- What is promised is an abandonment, or the connection is not closed; and then it is no farewell
unless the connection takes leave. -/
theorem abandons_or_open_of_promised {c : Connection} {m : ConnectionMove} {q : Message}
    (hq : q ∈ c.promised m) :
    q.Abandons ∨ c.closed = false ∧ (q.op = .unbindRequest → m = .request .unbind) := by
  unfold promised at hq
  cases m with
  | stream _ | rearrange _ | read | write => cases hq
  | proceed => exact .inl (MessageIds.abandons_of_mem hq)
  | request r =>
    dsimp only at hq
    split at hq
    case isFalse => cases hq
    cases r with
    | fire timer => exact .inl (MessageIds.abandons_of_mem hq)
    | advance time => exact .inl (MessageIds.abandons_of_mem hq)
    | abandon id =>
      simp only [promisedByRequest] at hq
      split at hq
      · exact .inl ⟨_, congrArg Message.op (List.mem_singleton.1 hq)⟩
      · cases hq
    | unbind =>
      simp only [promisedByRequest] at hq
      cases hc : c.closed with
      | true =>
        rw [unbind_closed hc] at hq
        cases hq
      | false => exact .inr ⟨rfl, fun _ => rfl⟩
    | submit op controls listener =>
      simp only [promisedByRequest] at hq
      cases hc : c.closed with
      | true =>
        rw [submit_closed hc] at hq
        cases hq
      | false =>
        split at hq
        · next id hok =>
          obtain rfl := List.mem_singleton.1 hq
          refine .inr ⟨rfl, fun hfarewell => ?_⟩
          obtain rfl : op = .unbindRequest := hfarewell
          exact absurd hok (submit_farewell c controls listener id)
        · cases hq

/-- Nothing but taking leave promises a farewell. -/
theorem not_farewell_of_promised {c : Connection} {m : ConnectionMove}
    (hunbind : m = .request .unbind → c.closed = true) {q : Message} (hq : q ∈ c.promised m) :
    q.op ≠ .unbindRequest := by
  intro hfarewell
  rcases abandons_or_open_of_promised hq with ⟨target, htarget⟩ | ⟨hopen, hm⟩
  · cases hfarewell.symm.trans htarget
  · rw [hunbind (hm hfarewell)] at hopen
    cases hopen

/-- A connection that is closed promises nothing but abandonments. -/
theorem abandons_of_promised {c : Connection} (hc : c.closed = true) {m : ConnectionMove}
    {q : Message} (hq : q ∈ c.promised m) : q.Abandons := by
  rcases abandons_or_open_of_promised hq with habandons | ⟨hopen, -⟩
  · exact habandons
  · rw [hc] at hopen
    cases hopen

/-- Where the writer is gone and everything is over, nothing is promised. -/
theorem promised_eq_nil {c : Connection} (hc : c.closed = true) (hw : c.writing = false)
    (hover : c.table.AllOver) (m : ConnectionMove) : c.promised m = [] := by
  have hcall {call : Call Listener}
      (hcall : ∀ id kind timeout listener, call ≠ .register id kind timeout listener) :
      c.ids.abandonments (Sign.targets (c.table.call call).2) = [] := by
    rw [(hover.call hcall).2]
    rfl
  unfold promised
  cases m with
  | stream _ | rearrange _ | read | write => rfl
  | proceed =>
    dsimp only
    rw [hover.proceed.2]
    rfl
  | request r =>
    dsimp only
    split
    case isFalse => rfl
    cases r with
    | fire timer => exact hcall nofun
    | advance time => exact hcall nofun
    | abandon id => simp [promisedByRequest, answer_abandon, hw]
    | unbind => simp [promisedByRequest, unbind_closed hc]
    | submit op controls listener => simp [promisedByRequest, submit_closed hc]

/-- The writer writes a message. -/
theorem write?_message {c : Connection} {m : Message} {outbox : List Outgoing}
    (hw : c.writing = true) (houtbox : c.outbox = .message m :: outbox)
    (hfault : c.writeFault = none) :
    c.write? = some ({ c with outbox, written := c.written ++ m.encode }, []) := by
  unfold write?
  rw [hw, houtbox]
  dsimp only
  rw [hfault]
  rfl

/-- The writer ends. What waits behind the mark is lost. -/
theorem write?_close {c : Connection} {later : List Outgoing} (hw : c.writing = true)
    (houtbox : c.outbox = .close :: later) :
    c.write? = some ({ c with outbox := [], writing := false, shutDown := true }, []) := by
  unfold write?
  rw [hw, houtbox]
  rfl

/-- Messages of which the last is a farewell, and no other. -/
def EndsWithFarewell (qs : List Message) : Prop :=
  ∃ init id, qs = init ++ [⟨id, .unbindRequest, []⟩] ∧ ∀ q ∈ init, q.op ≠ .unbindRequest

/-- What became of the messages that were promised. -/
inductive Ledger (c : Connection) : List Message → Prop
  /-- They have been written or wait for the writer, and there is no farewell among them. -/
  | staying (sent waiting : List Message) (written : c.written = sent.flatMap Message.encode)
      (outbox : c.outbox = waiting.map .message) (writing : c.writing = true)
      (stays : ∀ q ∈ sent ++ waiting, q.op ≠ .unbindRequest) : Ledger c (sent ++ waiting)
  /-- The writer has yet to come to the farewell. What was promised later waits behind the mark that
  ends the writer. -/
  | leaving (sent waiting later : List Message) (written : c.written = sent.flatMap Message.encode)
      (outbox : c.outbox = waiting.map .message ++ .close :: later.map .message)
      (writing : c.writing = true) (closed : c.closed = true)
      (farewell : EndsWithFarewell (sent ++ waiting)) (abandons : ∀ q ∈ later, q.Abandons) :
      Ledger c (sent ++ waiting ++ later)
  /-- The writer has ended, and nothing will be promised any more. -/
  | gone (sent later : List Message) (written : c.written = sent.flatMap Message.encode)
      (writing : c.writing = false) (closed : c.closed = true) (allOver : c.table.AllOver)
      (farewell : EndsWithFarewell sent) (abandons : ∀ q ∈ later, q.Abandons) :
      Ledger c (sent ++ later)

namespace Ledger

variable {c c' : Connection} {qs new : List Message}

/-- What is promised and sent is entered. -/
theorem sends (h : c.Ledger qs) (hsent : c.Sends new c')
    (hstays : ∀ q ∈ new, q.op ≠ .unbindRequest)
    (habandons : c.closed = true → ∀ q ∈ new, q.Abandons)
    (hnil : c.closed = true → c.writing = false → c.table.AllOver → new = []) :
    c'.Ledger (qs ++ new) := by
  have hadded (hw : c.writing = true) : c'.outbox = c.outbox ++ new.map .message := by
    rw [hsent.outbox, if_pos hw]
  cases h with
  | staying sent waiting written outbox writing stays =>
    rw [List.append_assoc]
    refine .staying sent (waiting ++ new) (hsent.written.trans written) ?_
      (hsent.writing.trans writing) fun q hq => ?_
    · rw [hadded writing, outbox, List.map_append]
    · rw [← List.append_assoc] at hq
      exact (List.mem_append.1 hq).elim (stays q) (hstays q)
  | leaving sent waiting later written outbox writing closed farewell abandons =>
    rw [List.append_assoc]
    refine .leaving sent waiting (later ++ new) (hsent.written.trans written) ?_
      (hsent.writing.trans writing) (hsent.closed closed) farewell fun q hq => ?_
    · rw [hadded writing, outbox, List.map_append, List.append_assoc, List.cons_append]
    · exact (List.mem_append.1 hq).elim (abandons q) (habandons closed q)
  | gone sent later written writing closed allOver farewell abandons =>
    obtain rfl := hnil closed writing allOver
    rw [List.append_nil]
    exact .gone sent later (hsent.written.trans written) (hsent.writing.trans writing)
      (hsent.closed closed) (hsent.allOver closed allOver) farewell abandons

/-- The farewell is entered. -/
theorem unbind (h : c.Ledger qs) (hc : c.closed = false) (hw : c.writing = true) :
    c.unbind.2.1.Ledger (qs ++ [⟨c.ids.next, .unbindRequest, []⟩]) := by
  obtain ⟨-, ids, table, heq⟩ := unbind_open hc hw
  rw [heq]
  cases h with
  | staying sent waiting written outbox writing stays =>
    have hfarewell : EndsWithFarewell (sent ++ (waiting ++ [⟨c.ids.next, .unbindRequest, []⟩])) :=
      ⟨sent ++ waiting, c.ids.next, (List.append_assoc ..).symm, stays⟩
    rw [List.append_assoc, ← List.append_nil (sent ++ _)]
    refine .leaving sent (waiting ++ [⟨c.ids.next, .unbindRequest, []⟩]) [] ?_ ?_ ?_ rfl hfarewell
      nofun
    · exact written
    · simp [outbox]
    · exact writing
  | leaving _ _ _ _ _ _ closed =>
    rw [closed] at hc
    cases hc
  | gone _ _ _ _ closed =>
    rw [closed] at hc
    cases hc

/-- What the writer does is entered: it writes the next message, or ends. -/
theorem write? (h : c.Ledger qs) {deeds : List Deed} (hsound : c.Sound deeds)
    (hidle : c.table.agenda = []) (hfault : c.writeFault = none)
    {x : Connection × List Occurrence} (hx : c.write? = some x) : x.1.Ledger qs := by
  cases h with
  | staying sent waiting written outbox writing stays =>
    cases waiting with
    | nil => simp [Connection.write?, writing, outbox] at hx
    | cons q waiting =>
      rw [write?_message writing outbox hfault] at hx
      cases hx
      rw [List.append_cons sent q waiting] at stays ⊢
      refine .staying (sent ++ [q]) waiting ?_ rfl writing stays
      simp [written]
  | leaving sent waiting later written outbox writing closed farewell abandons =>
    cases waiting with
    | nil =>
      rw [write?_close writing outbox] at hx
      cases hx
      rw [List.append_nil] at farewell ⊢
      have hover := hsound.table.allOver hidle (hsound.settled closed)
      exact .gone sent later written rfl closed hover farewell abandons
    | cons q waiting =>
      rw [write?_message writing outbox hfault] at hx
      cases hx
      rw [List.append_cons sent q waiting] at farewell ⊢
      refine .leaving (sent ++ [q]) waiting later ?_ rfl writing closed farewell abandons
      simp [written]
  | gone _ _ _ writing => simp [Connection.write?, writing] at hx

end Ledger

/-- A ledger while no write has failed. -/
structure Keeps (c : Connection) (deeds : List Deed) (qs : List Message) : Prop where
  sound : c.Sound deeds
  writeFault : c.writeFault = none
  writerLeaving : c.writerLeaving = false
  ledger : c.Ledger qs

namespace Keeps

variable {c : Connection} {deeds : List Deed} {qs : List Message}

theorem write? (h : c.Keeps deeds qs) (hidle : c.isBusy = false)
    {x : Connection × List Occurrence} (hx : c.write? = some x) :
    x.1.Keeps (deeds ++ Deed.ofOccurrences x.2) qs := by
  have hledger := h.ledger.write? h.sound (idle_of_not_busy hidle).1 h.writeFault hx
  have hsound := h.sound.write? hx
  cases writeEffect_of_write? hx with
  | close => exact ⟨hsound, h.writeFault, h.writerLeaving, hledger⟩
  | write => exact ⟨hsound, h.writeFault, h.writerLeaving, hledger⟩
  | fail _ _ _ _ fault => exact absurd h.writeFault fault

/-- The connection takes leave. -/
theorem unbind (h : c.Keeps deeds qs) (hopen : c.closed = false) :
    (c.request .unbind).1.Keeps (deeds ++ Deed.ofOccurrences (c.request .unbind).2)
      (qs ++ c.promisedByRequest .unbind) := by
  have hw := h.sound.writing hopen
  obtain ⟨hok, ids, table, heq⟩ := unbind_open hopen hw
  have hpromised : c.promisedByRequest .unbind = [⟨c.ids.next, .unbindRequest, []⟩] := by
    rw [promisedByRequest, hok]
  rw [hpromised]
  refine ⟨h.sound.unbind, ?_, ?_, h.ledger.unbind hopen hw⟩
  · show c.unbind.2.1.writeFault = none
    rw [heq]
    exact h.writeFault
  · show c.unbind.2.1.writerLeaving = false
    rw [heq]
    exact h.writerLeaving

theorem step (h : c.Keeps deeds qs) {m : ConnectionMove}
    (hm : ∀ reason, m ≠ .stream (.failWriting reason)) :
    (c.step m).1.Keeps (deeds ++ c.deeds m) (qs ++ c.promised m) := by
  by_cases hwrite : m = .write
  · subst hwrite
    rw [promised, List.append_nil]
    rcases c.step_write with heq | ⟨hidle, hx⟩
    · simpa [Connection.deeds, heq] using h
    · exact h.write? hidle hx
  by_cases hunbind : m = .request .unbind → c.closed = true
  · have hsent := sends_step h.sound h.writerLeaving hwrite hm hunbind
    refine ⟨h.sound.step m, hsent.writeFault.trans h.writeFault,
      hsent.writerLeaving.trans h.writerLeaving, h.ledger.sends hsent ?_ ?_ ?_⟩
    · exact fun q => not_farewell_of_promised hunbind
    · exact fun hc q => abandons_of_promised hc
    · exact fun hc hw hover => promised_eq_nil hc hw hover m
  · -- the connection takes leave, if somebody is there to ask it to
    obtain ⟨rfl, hopen⟩ : m = .request .unbind ∧ c.closed = false := by simpa using hunbind
    simp only [promised, Connection.deeds, Connection.step]
    split
    · exact h.unbind hopen
    · simpa using h

theorem run (h : c.Keeps deeds qs) {ms : List ConnectionMove}
    (hms : ∀ reason, .stream (.failWriting reason) ∉ ms) :
    (c.run ms).1.Keeps (deeds ++ c.chronicle ms) (qs ++ c.promises ms) := by
  induction ms generalizing c deeds qs with
  | nil => simpa [Connection.run, chronicle, promises] using h
  | cons m ms ih =>
    have hrest := ih (h.step fun reason heq => hms reason (heq ▸ List.mem_cons_self))
      fun reason hmem => hms reason (List.mem_cons_of_mem _ hmem)
    rw [List.append_assoc, List.append_assoc] at hrest
    exact hrest

end Keeps

theorem keeps_start (options : Options) : (start options).Keeps [] [] where
  sound := sound_start options
  writeFault := rfl
  writerLeaving := rfl
  ledger := .staying [] [] rfl rfl rfl nofun

/-- In every run in which no write fails, as soon as the writer has nothing left to do it has
written what was promised, each message as it is encoded and all of them in the order of the
promises, up to the farewell, which is the last. Only abandonments are lost, namely those that were
promised behind the farewell. -/
theorem written_of_promised (options : Options) (ms : List ConnectionMove)
    (hms : ∀ reason, .stream (.failWriting reason) ∉ ms)
    (hidle : ((start options).run ms).1.write? = none) :
    ∃ kept lost, (start options).promises ms = kept ++ lost ∧
      ((start options).run ms).1.written = kept.flatMap Message.encode ∧
      (lost = [] ∨ ∃ init id, kept = init ++ [⟨id, .unbindRequest, []⟩]) ∧
      (∀ q ∈ kept.dropLast, q.op ≠ .unbindRequest) ∧
      ∀ q ∈ lost, ∃ target, q.op = .abandonRequest target := by
  have hkeeps := (keeps_start options).run hms
  rw [List.nil_append] at hkeeps
  generalize (start options).promises ms = qs at hkeeps
  generalize ((start options).run ms).1 = c at hkeeps hidle
  cases hkeeps.ledger with
  | staying sent waiting written outbox writing stays =>
    cases waiting with
    | nil =>
      rw [List.append_nil] at stays
      exact ⟨sent, [], rfl, written, .inl rfl, fun q hq => stays q (List.mem_of_mem_dropLast hq),
        nofun⟩
    | cons q waiting =>
      rw [write?_message writing outbox hkeeps.writeFault] at hidle
      cases hidle
  | leaving sent waiting later written outbox writing closed farewell abandons =>
    cases waiting with
    | nil =>
      rw [write?_close writing outbox] at hidle
      cases hidle
    | cons q waiting =>
      rw [write?_message writing outbox hkeeps.writeFault] at hidle
      cases hidle
  | gone sent later written writing closed allOver farewell abandons =>
    obtain ⟨init, id, rfl, hinit⟩ := farewell
    refine ⟨_, later, rfl, written, .inr ⟨init, id, rfl⟩, fun q hq => hinit q ?_, abandons⟩
    rwa [List.dropLast_concat] at hq

/-- A request, its abandonment and the farewell are written, in this order. -/
theorem written_of_abandonment_and_farewell :
    let ms : List ConnectionMove :=
      [.request (.submit (.deleteRequest ⟨"cn=a"⟩) [] .observer), .request (.abandon 1),
        .request .unbind, .proceed, .proceed, .write, .write, .write, .write]
    let c := ((start .usual).run ms).1
    c.write? = none ∧ ∃ kept lost,
      [⟨1, .deleteRequest ⟨"cn=a"⟩, []⟩, ⟨2, .abandonRequest ⟨1⟩, []⟩, ⟨3, .unbindRequest, []⟩]
        = kept ++ lost ∧
      c.written = kept.flatMap Message.encode ∧
      ∀ q ∈ lost, ∃ target, q.op = .abandonRequest target := by
  intro ms c
  have hidle : c.write? = none := by decide
  obtain ⟨kept, lost, hpromises, hwritten, -, -, hlost⟩ :=
    written_of_promised .usual ms (by intro reason; simp [ms]) hidle
  refine ⟨hidle, kept, lost, ?_, hwritten, hlost⟩
  rw [← hpromises]
  decide

/-- Once a connection has taken leave, but before the writer has come to that, the abandonment of an
operation is answered with success, and never written. -/
theorem abandonment_lost_behind_farewell :
    let ms : List ConnectionMove :=
      [.request (.submit (.deleteRequest ⟨"cn=a"⟩) [] .observer), .request .unbind, .proceed,
        .proceed, .proceed, .proceed, .request (.abandon 1), .write, .write, .write]
    let kept : List Message := [⟨1, .deleteRequest ⟨"cn=a"⟩, []⟩, ⟨2, .unbindRequest, []⟩]
    let c := ((start .usual).run ms).1
    (∀ reason, .stream (.failWriting reason) ∉ ms) ∧ c.write? = none ∧
      (start .usual).promises ms = kept ++ [⟨3, .abandonRequest ⟨1⟩, []⟩] ∧
      c.written = kept.flatMap Message.encode ∧
      c.written ≠ ((start .usual).promises ms).flatMap Message.encode := by
  intro ms kept c
  have hpromises : (start .usual).promises ms = kept ++ [⟨3, .abandonRequest ⟨1⟩, []⟩] := by decide
  have hwritten : c.written = kept.flatMap Message.encode := by
    show [] ++ Message.encode ⟨1, .deleteRequest ⟨"cn=a"⟩, []⟩
      ++ Message.encode ⟨2, .unbindRequest, []⟩ = _
    simp [kept]
  refine ⟨by intro reason; simp [ms], by decide, hpromises, hwritten, ?_⟩
  rw [hpromises, hwritten]
  simp [Message.encode, Ber.Element.encode]

end Connection
end Ldap
