import Ldap.Proofs.Connection.Isolation
import Ldap.Proofs.Pending.Answers

/-!
# Results that listeners hear

Every result that a listener hears answers the request that it was submitted with, whatever made it:
a response that fits or does not, one that cannot be decoded, a timeout, or the end of the
connection. `results_answer_requests` says so for every run, and that what comes before a result
ends no operation.

A move of a connection does one thing with the table of pending operations, at most, and follows
what the table tells of it. `TableEffect` lists what that can be, so that what holds of the table is
carried over to the connection in one place.
-/

namespace Ldap

/-- What a message requests: its identifier and its kind. -/
def Message.purpose (m : Message) : Int32 × Option OperationKind :=
  (m.id, m.op.kind?)

namespace Connection

/-! ## What is submitted -/

/-- The message of the request that is accepted in a move, if there is one. -/
def submission? (c : Connection) : ConnectionMove → Option Message
  | .request (.submit op controls listener) =>
    if c.isListening then
      match (c.submit op controls listener).1 with
      | .ok id => some ⟨id, op, controls⟩
      | .error _ => none
    else none
  | _ => none

/-- The messages of the requests that are accepted in the course of moves. -/
def submissions (c : Connection) : List ConnectionMove → List Message
  | [] => []
  | m :: ms => (c.submission? m).toList ++ (c.step m).1.submissions ms

/-! ## What moves do with the table -/

/-- What a connection does with its table, by the request that it accepts and by what it passes on
to a request that goes on. -/
inductive TableEffect (t : Table Listener) :
    Option Message → Option (Int32 × Delivery) → Table Listener × List Sign → Prop
  | idle : TableEffect t none none (t, [])
  | register {q : Message} {kind : OperationKind} {timeout : Option Nat} {listener : Listener}
      {table : Table Listener} (op_kind : q.op.kind? = some kind)
      (accepted : t.register q.id kind timeout listener = .ok (table, [])) :
      TableEffect t (some q) none (table, [])
  | abandon (id : Int32) : TableEffect t none none ((t.abandon id).2, [])
  | deliver (id : Int32) (d : Delivery) :
      TableEffect t none (some (id, d)) (t.call (.deliver id d))
  /-- A response ends the operation that it names. -/
  | respond (m : Message) : TableEffect t none none (t.call (.complete m.id (.response m)))
  | fault (id : Int32) (code : ResultCode) (diagnostic : String) :
      TableEffect t none none (t.call (.complete id (.clientSide code diagnostic)))
  | fire (timer : Nat) : TableEffect t none none (t.call (.fire timer))
  | advance (time : Nat) : TableEffect t none none (t.call (.advance time))
  | failAll (code : ResultCode) (diagnostic : String) :
      TableEffect t none none (t.call (.failAll code diagnostic))
  | proceed : TableEffect t none none t.proceed
  | rearrange (owners : List Nat) : TableEffect t none none (t.rearrange owners, [])

/-- What is told of outcomes and deliveries, as the table tells it. -/
def signs (seen : List Occurrence) : List Sign :=
  seen.filterMap fun
    | .heard owner id event => some (.heard owner id event)
    | .noticed _ | .queued _ => none

theorem mem_signs_iff {seen : List Occurrence} {owner : Nat} {id : Int32} {event : Event} :
    .heard owner id event ∈ signs seen ↔ .heard owner id event ∈ seen := by
  rw [signs, List.mem_filterMap]
  constructor
  · rintro ⟨s, hs, heq⟩
    cases s with
    | heard owner' id' event' =>
      cases heq
      exact hs
    | noticed o => cases heq
    | queued m => cases heq
  · exact fun h => ⟨_, h, rfl⟩

theorem signs_send (c : Connection) (m : Message) : signs (c.send m).2.2 = [] := by
  rcases c.send_cases m with ⟨-, h⟩ | ⟨-, h⟩ <;> rw [h] <;> rfl

/-- A connection does something with its table and follows what that tells. -/
def Uses (c : Connection) (accepted : Option Message) (passed : Option (Int32 × Delivery))
    (y : Connection × List Occurrence) : Prop :=
  ∃ x d, TableEffect c.table accepted passed x ∧ y.1.table = (withTable d x).1.table ∧
    signs y.2 = signs (withTable d x).2

section Uses

variable {c d : Connection}

/-- A move that leaves the table alone and tells nothing uses nothing. -/
theorem uses_nothing {y : Connection × List Occurrence} (table : y.1.table = c.table)
    (seen : signs y.2 = []) : c.Uses none none y :=
  ⟨_, c, .idle, table, seen⟩

/-- What tells of nothing is done. -/
theorem uses_quietly {accepted : Option Message} {y : Connection × List Occurrence}
    {table : Table Listener} (effect : TableEffect c.table accepted none (table, []))
    (after : y.1.table = table) (seen : signs y.2 = []) : c.Uses accepted none y :=
  ⟨_, c, effect, after, seen⟩

/-- The connection itself may be another one by then, as long as the table is the same. -/
theorem uses_callTable (table : d.table = c.table) {call : Call Listener}
    {passed : Option (Int32 × Delivery)}
    (effect : TableEffect c.table none passed (c.table.call call)) :
    c.Uses none passed (d.callTable call) :=
  ⟨_, d, effect, by rw [callTable, table], by rw [callTable, table]⟩

/-- To fail everything is to accept nothing and to pass nothing on. -/
theorem uses_shut (table : d.table = c.table) (code : ResultCode) (diagnostic : String) :
    c.Uses none none (d.shut code diagnostic) :=
  uses_callTable (d := { d with closed := true }) table (.failAll code diagnostic)

theorem uses_afterNotice (table : d.table = c.table) (o : Outcome) :
    c.Uses none none (d.afterNotice o) := by
  rcases d.afterNotice_cases o with ⟨_, diagnostic, -, heq⟩ | ⟨-, heq⟩
  · rw [heq]
    exact uses_shut table _ _
  · rw [heq]
    exact uses_nothing table rfl

theorem uses_proceed (c : Connection) : c.Uses none none c.proceed := by
  unfold proceed
  split
  · exact uses_nothing rfl rfl
  · next o _ _ => exact uses_afterNotice (d := { c with notice := none }) rfl o
  · exact ⟨_, c, .proceed, table_releaseWriter _, rfl⟩

/-- A frame passes on the message that it brings, if it brings one. -/
theorem uses_accept (table : d.table = c.table) (frame : List UInt8) :
    c.Uses none (d.brought? frame) (d.accept frame) := by
  have heffect := d.frameEffect_accept frame
  generalize d.accept frame = x at heffect ⊢
  unfold brought?
  cases heffect with
  | notify m decoded unsolicited =>
    simp only [decoded, unsolicited, if_true]
    rcases d.notify_cases m with ⟨-, heq⟩ | ⟨r, o, -, -, heq⟩
    · rw [heq]
      exact uses_nothing table rfl
    · rw [heq]
      exact uses_nothing table rfl
  | deliver m delivery decoded solicited brings =>
    simp only [decoded, solicited, if_false, brings, Option.map_some]
    exact uses_callTable table (.deliver m.id delivery)
  | complete m decoded solicited brings =>
    simp only [decoded, solicited, if_false, brings, Option.map_none]
    exact uses_callTable table (.respond m)
  | stop e reason decoded =>
    simp only [decoded]
    exact uses_shut (d := { d with reading := false }) table _ _
  | fail e id decoded =>
    simp only [decoded]
    exact uses_callTable table (.fault id _ _)
  | ignore e decoded =>
    simp only [decoded]
    exact uses_nothing table rfl

theorem uses_read (c : Connection) : c.Uses none (c.passed? .read) (c.step .read) := by
  unfold passed?
  cases htaken : c.taken? .read with
  | some x =>
    rcases x with ⟨frame, inbound⟩
    rw [step_read_of_taken htaken]
    exact uses_accept (d := { c with inbound }) rfl frame
  | none =>
    rcases step_read_of_not_taken htaken with heq | ⟨reason, heq⟩
    · rw [heq]
      exact uses_nothing rfl rfl
    · rw [heq]
      exact uses_shut (d := { c with reading := false }) rfl _ _

theorem uses_write? {y : Connection × List Occurrence} (hy : c.write? = some y) :
    c.Uses none none y := by
  cases writeEffect_of_write? hy with
  | close => exact uses_nothing rfl rfl
  | write => exact uses_nothing rfl rfl
  | fail m outbox =>
    exact uses_shut (d := { c with outbox, writerLeaving := true }) rfl _ _

theorem uses_unbind (c : Connection) : c.Uses none none c.unbind.2 := by
  unfold unbind
  split
  · exact uses_nothing rfl rfl
  · have hsent := table_send { c with ids := c.ids.draw.2 } ⟨c.ids.draw.1, .unbindRequest, []⟩
    obtain ⟨x, d, effect, table, seen⟩ := uses_shut (c := c) ((table_enqueue _ .close).trans hsent)
      .userCanceled "the connection was closed by an unbind request"
    refine ⟨x, d, effect, table, ?_⟩
    rw [signs, List.filterMap_append]
    exact (congrArg (· ++ _) (signs_send _ _)).trans seen

end Uses

/-- A request that is accepted is registered, and its message is handed to the writer. -/
theorem Sound.register_of_submission {c : Connection} {told : List Deed} (h : c.Sound told)
    {m : ConnectionMove} {q : Message} (hq : c.submission? m = some q) :
    ∃ kind timeout listener table, q.op.kind? = some kind ∧
      c.table.register q.id kind timeout listener = .ok (table, []) ∧
      (c.step m).1.table = table ∧ (c.step m).2 = [.queued q] := by
  match m, hq with
  | .request (.submit op controls listener), hq =>
    simp only [submission?, Option.ite_none_right_eq_some] at hq
    obtain ⟨hlistening, hq⟩ := hq
    have hstep : c.step (.request (.submit op controls listener)) =
        (c.submit op controls listener).2 := if_pos hlistening
    rcases h.submit_cases op controls listener with
      ⟨e, ids, heq⟩ | ⟨kind, id, ids, table, hkind, -, hregister, heq⟩
    · rw [heq] at hq
      cases hq
    · rw [heq] at hq
      cases hq
      rw [hstep, heq]
      exact ⟨kind, _, listener, table, hkind, hregister, rfl, rfl⟩

/-- A move does one thing with the table at most: it registers what it accepts, and passes on what
it brings. -/
theorem uses_step {c : Connection} {told : List Deed} (h : c.Sound told) (m : ConnectionMove) :
    c.Uses (c.submission? m) (c.passed? m) (c.step m) := by
  cases hq : c.submission? m with
  | some q =>
    obtain ⟨kind, timeout, listener, table, hkind, hregister, hafter, hseen⟩ :=
      h.register_of_submission hq
    -- a request brings nothing
    have hpassed : c.passed? m = none := by
      match m, hq with
      | .request _, _ => rfl
    rw [hpassed]
    exact uses_quietly (.register hkind hregister) hafter (by rw [hseen]; rfl)
  | none =>
    cases m with
    | request r =>
      rcases c.step_request r with heq | ⟨hlistening, heq⟩
      · rw [heq]
        exact uses_nothing rfl rfl
      rw [heq]
      cases r with
      | submit op controls listener =>
        rcases h.submit_cases op controls listener with
          ⟨e, ids, hsubmit⟩ | ⟨kind, id, ids, table, -, -, -, hsubmit⟩
        · rw [request, hsubmit]
          exact uses_nothing rfl rfl
        · -- what is accepted is a submission
          simp [submission?, hlistening, hsubmit] at hq
      | abandon id => exact uses_quietly (.abandon id) (table_send _ _) (signs_send _ _)
      | unbind => exact uses_unbind c
      | fire timer => exact uses_callTable rfl (.fire timer)
      | advance time => exact uses_callTable rfl (.advance time)
    | stream change =>
      refine uses_nothing ?_ rfl
      simp only [step, Connection.change]
      split
      · split <;> rfl
      · rfl
      · rfl
    | proceed => exact uses_proceed c
    | rearrange owners => exact uses_quietly (.rearrange owners) rfl rfl
    | read => exact uses_read c
    | write =>
      rcases c.step_write with heq | ⟨-, hx⟩
      · rw [heq]
        exact uses_nothing rfl rfl
      · exact uses_write? hx

/-! ## What the table tells of -/

section TableEffect

variable {t : Table Listener} {accepted : Option Message} {passed : Option (Int32 × Delivery)}
  {x : Table Listener × List Sign}

/-- The table has one more purpose for what was accepted, and the others stay. -/
theorem TableEffect.purposes_eq (h : TableEffect t accepted passed x) :
    x.1.purposes = t.purposes ++ accepted.toList.map Message.purpose := by
  cases h with
  | register op_kind accepted =>
    rw [Table.purposes_register accepted, ← op_kind]
    rfl
  | idle => exact (List.append_nil _).symm
  | abandon id => exact (t.purposes_abandon id).trans (List.append_nil _).symm
  | proceed => exact t.purposes_proceed.trans (List.append_nil _).symm
  | rearrange owners => exact (t.purposes_rearrange owners).trans (List.append_nil _).symm
  | deliver | respond | fault | fire | advance | failAll =>
    exact (t.purposes_call rfl).trans (List.append_nil _).symm

/-- Whatever was done with the table answers what it ends. -/
theorem TableEffect.answers (h : TableEffect t accepted passed x) : t.Answers x.2 := by
  cases h with
  | idle | register | abandon | advance | failAll | rearrange => exact t.answers_nil
  | deliver id d => exact t.answers_deliver id d
  | respond m => exact t.answers_complete rfl
  | fault id => exact t.answers_complete trivial
  | fire timer => exact t.answers_fire timer
  | proceed => exact t.answers_proceed

end TableEffect

theorem purposes_withTable (c : Connection) (x : Table Listener × List Sign) :
    (c.withTable x).1.table.purposes = x.1.purposes :=
  (queues_followAll { c with table := x.1 } x.2).table.changes.purpose_eq
    fun _ => List.not_mem_nil

/-- What listeners hear is what the table tells of. -/
theorem mem_of_mem_followAll {c : Connection} {told : List Sign} {owner : Nat} {id : Int32}
    {event : Event} (h : .heard owner id event ∈ (c.followAll told).2) :
    .heard owner id event ∈ told := by
  rw [← mem_signs_iff] at h
  induction told generalizing c with
  | nil => cases h
  | cons s told ih =>
    simp only [followAll, signs, List.filterMap_append, List.mem_append] at h
    rcases h with h | h
    · cases s with
      | heard owner' id' event' =>
        simp only [follow] at h
        split at h
        · cases h
        · exact List.mem_cons.2 (.inl (List.mem_singleton.1 h))
      | abandoning owner' id' =>
        have hnone : signs (c.follow (.abandoning owner' id')).2 = [] := signs_send _ _
        rw [← signs, hnone] at h
        cases h
      | answered reply => cases h
    · exact List.mem_cons_of_mem s (ih h)

/-- A move registers what it accepts, and what listeners hear of outcomes in the meantime answers
the requests that were registered before. -/
theorem answers_step {c : Connection} {told : List Deed} (h : c.Sound told) (m : ConnectionMove) :
    (c.step m).1.table.purposes = c.table.purposes ++ (c.submission? m).toList.map Message.purpose ∧
    ∀ owner id o, .heard owner id (.result o) ∈ (c.step m).2 →
      ∃ kind, c.table.purposes[owner]? = some (id, some kind) ∧ o.Answers id kind := by
  obtain ⟨x, d, effect, htable, hseen⟩ := uses_step h m
  constructor
  · rw [htable, purposes_withTable, effect.purposes_eq]
  · intro owner id o hmem
    rw [← mem_signs_iff, hseen, mem_signs_iff] at hmem
    exact effect.answers owner id o (mem_of_mem_followAll hmem)

/-- In the course of moves requests are registered in the order in which they are accepted, and what
listeners hear of outcomes answers the requests. -/
theorem answers_run {c : Connection} {told : List Deed} (h : c.Sound told) {before : List Message}
    (hbefore : c.table.purposes = before.map Message.purpose) (ms : List ConnectionMove) :
    ∀ owner id o, .heard owner id (.result o) ∈ (c.run ms).2 →
      ∃ q kind, (before ++ c.submissions ms)[owner]? = some q ∧ q.purpose = (id, some kind) ∧
        o.Answers id kind := by
  induction ms generalizing c told before with
  | nil => exact fun _ _ _ hmem => absurd hmem List.not_mem_nil
  | cons m ms ih =>
    obtain ⟨hpurposes, hanswers⟩ := answers_step h m
    intro owner id o hmem
    rcases List.mem_append.1 hmem with hmem | hmem
    · obtain ⟨kind, hpurpose, ho⟩ := hanswers owner id o hmem
      rw [hbefore, List.getElem?_map, Option.map_eq_some_iff] at hpurpose
      obtain ⟨q, hq, hpurpose⟩ := hpurpose
      refine ⟨q, kind, ?_, hpurpose, ho⟩
      rw [List.getElem?_append_left (List.getElem?_eq_some_iff.1 hq).1, hq]
    · rw [hbefore, ← List.map_append] at hpurposes
      have hrest := ih (h.step m) hpurposes owner id o hmem
      rwa [List.append_assoc] at hrest

/-- What was submitted was queued in the same run. -/
theorem queued_of_submissions {c : Connection} {told : List Deed} (h : c.Sound told)
    (ms : List ConnectionMove) : ∀ q ∈ c.submissions ms, .queued q ∈ (c.run ms).2 := by
  induction ms generalizing c told with
  | nil => exact fun _ hq => absurd hq List.not_mem_nil
  | cons m ms ih =>
    intro q hq
    rcases List.mem_append.1 hq with hq | hq
    · obtain ⟨_, _, _, _, -, -, -, hseen⟩ := h.register_of_submission (Option.mem_toList.1 hq)
      exact List.mem_append_left _ (hseen ▸ List.mem_singleton_self _)
    · exact List.mem_append_right _ (ih (h.step m) q hq)

/-! ## What ends no operation -/

/-- Nothing is in progress that ends an operation. -/
structure Resting (c : Connection) : Prop where
  agenda : ∀ a ∈ c.table.agenda, a.Handles false
  notice : c.notice = none

/-- A connection went on without an outcome, and every registration is of the stage that it was. -/
structure EndsNone (c : Connection) (y : Connection × List Occurrence) : Prop where
  unheard : ∀ owner id o, .heard owner id (.result o) ∉ y.2
  stages : y.1.table.registrations.map (·.stage) = c.table.registrations.map (·.stage)

namespace EndsNone

variable {c : Connection} {y z : Connection × List Occurrence}

theorem refl (c : Connection) : c.EndsNone (c, []) :=
  ⟨fun _ _ _ => List.not_mem_nil, rfl⟩

/-- What ends nothing in two steps ends nothing in one. -/
theorem trans (h : c.EndsNone y) (h' : y.1.EndsNone z) : c.EndsNone (z.1, y.2 ++ z.2) where
  unheard owner id o hmem := by
    rcases List.mem_append.1 hmem with hmem | hmem
    · exact h.unheard owner id o hmem
    · exact h'.unheard owner id o hmem
  stages := h'.stages.trans h.stages

/-- What the table tells of is followed without changing a stage. -/
theorem withTable {x : Table Listener × List Sign}
    (unheard : ∀ owner id o, .heard owner id (.result o) ∉ x.2)
    (stages : x.1.registrations.map (·.stage) = c.table.registrations.map (·.stage)) :
    c.EndsNone (c.withTable x) where
  unheard owner id o hmem := unheard owner id o (mem_of_mem_followAll hmem)
  stages := by
    have hfollowed := (queues_followAll { c with table := x.1 } x.2).table.changes.stage_eq
      fun _ hd => absurd hd List.not_mem_nil
    exact hfollowed.trans stages

end EndsNone

/-- What is in progress ends no operation if there is nothing of that kind in progress. -/
theorem Resting.proceed {c : Connection} (h : c.Resting) :
    c.proceed.1.Resting ∧ c.EndsNone c.proceed := by
  unfold Connection.proceed
  split
  · exact ⟨h, .refl c⟩
  · next o _ hnotice =>
    rw [h.notice] at hnotice
    cases hnotice
  next a agenda hagenda =>
  have hhandles := h.agenda
  rw [hagenda, List.forall_mem_cons] at hhandles
  -- a listener hears an event, or a call gives its answer
  obtain ⟨hsame, htold⟩ : c.table.proceed.1 = { c.table with agenda } ∧
      ∀ owner id o, .heard owner id (.result o) ∉ c.table.proceed.2 := by
    rw [Table.proceed, hagenda]
    cases a with
    | hearing => exact ⟨rfl, fun _ _ _ => List.not_mem_nil⟩
    | answering => exact ⟨rfl, fun _ _ _ hmem => by cases List.mem_singleton.1 hmem⟩
    | failing => cases hhandles.1.1
    | ringing => cases hhandles.1
  have hends : c.EndsNone (c.withTable c.table.proceed) := .withTable htold (by rw [hsame])
  have hq := queues_followAll { c with table := c.table.proceed.1 } c.table.proceed.2
  have hrests : (c.withTable c.table.proceed).1.Resting := by
    refine ⟨fun a ha => ?_, hq.notice.trans h.notice⟩
    have hagenda' : (c.withTable c.table.proceed).1.table.agenda = agenda :=
      hq.table.agenda.trans (by rw [hsame])
    exact hhandles.2 a (hagenda' ▸ ha)
  have htable := (c.withTable c.table.proceed).1.table_releaseWriter
  exact ⟨⟨htable.symm ▸ hrests.agenda, (notice_releaseWriter _).trans hrests.notice⟩,
    hends.unheard, htable.symm ▸ hends.stages⟩

theorem Resting.rearrange {c : Connection} (h : c.Resting) (owners : List Nat) :
    c.table.rearrange owners = c.table := by
  unfold Table.rearrange
  split
  · next hagenda =>
    have hfails := h.agenda _ (hagenda ▸ List.mem_cons_self)
    cases hfails.1
  · rfl

/-- A connection that rests ends nothing by itself. -/
theorem Resting.run {c : Connection} (h : c.Resting) {ms : List ConnectionMove}
    (hms : ∀ m ∈ ms, m.IsInternal) : c.EndsNone (c.run ms) := by
  induction ms generalizing c with
  | nil => exact .refl c
  | cons m ms ih =>
    rw [List.forall_mem_cons] at hms
    obtain ⟨hrests, hends⟩ : (c.step m).1.Resting ∧ c.EndsNone (c.step m) := by
      cases m with
      | proceed => exact h.proceed
      | rearrange owners =>
        simp only [step, h.rearrange owners]
        exact ⟨h, .refl c⟩
      | request | stream | read | write => exact hms.1.elim
    exact hends.trans (ih hrests hms.2)

end Connection

/-- What comes for a request before its outcome. -/
def Operation.isInterim : Operation → Bool
  | .entry _ | .reference _ | .intermediateResponse _ => true
  | _ => false

namespace Connection

/-- What comes for a request before its outcome is passed on, or belongs to no request. -/
theorem accept_of_interim {c : Connection} {frame : List UInt8} {m : Message}
    (decoded : Message.decodeWithin c.options.maxMessage frame = .ok m)
    (interim : m.op.isInterim = true) :
    c.accept frame = (c, []) ∨ ∃ d, c.accept frame = c.callTable (.deliver m.id d) := by
  rw [accept, decoded]
  dsimp only
  rw [dispatch]
  split
  · rcases c.notify_cases m with ⟨-, heq⟩ | ⟨r, o, hop, -⟩
    · exact .inl heq
    · rw [hop] at interim
      cases interim
  · split
    · exact .inr ⟨_, rfl⟩
    · exact .inr ⟨_, rfl⟩
    · exact .inr ⟨_, rfl⟩
    · next hentry hreference hintermediate =>
      cases hop : m.op with
      | entry e => exact absurd hop (hentry e)
      | reference r => exact absurd hop (hreference r)
      | intermediateResponse r => exact absurd hop (hintermediate r)
      | _ =>
        rw [hop] at interim
        cases interim

/-- Passing on what comes ends no operation, and leaves nothing in progress that would. -/
theorem resting_accept {c : Connection} (hidle : c.isBusy = false) {frame : List UInt8}
    {m : Message} (decoded : Message.decodeWithin c.options.maxMessage frame = .ok m)
    (interim : m.op.isInterim = true) :
    (c.accept frame).1.Resting ∧ c.EndsNone (c.accept frame) := by
  obtain ⟨hagenda, hnotice⟩ := idle_of_not_busy hidle
  rcases accept_of_interim decoded interim with heq | ⟨d, heq⟩
  · rw [heq]
    exact ⟨⟨by simp [hagenda], hnotice⟩, .refl c⟩
  · rw [heq]
    constructor
    · have hq := queues_followAll { c with table := (c.table.call (.deliver m.id d)).1 }
        (c.table.call (.deliver m.id d)).2
      refine ⟨?_, hq.notice.trans hnotice⟩
      have hsame := (c.table.evolves_deliver m.id d).agenda
      have hbefore : ∀ a ∈ (c.table.deliver m.id d).2.1.agenda, a.Handles false := by
        simp [hsame, hagenda]
      have hrest : ∀ a ∈ [Activity.answering (.flag (c.table.deliver m.id d).1)],
          a.Handles false := by
        simp [Activity.Handles]
      have hhandles : ∀ a ∈ (c.table.call (.deliver m.id d)).1.agenda, a.Handles false :=
        Table.handles_resume _ hbefore hrest
      intro a ha
      exact hhandles a (hq.table.agenda ▸ ha)
    · exact .withTable (c.table.result_not_mem_deliver m.id d) (c.table.stages_deliver m.id d)

/-! ## Every run -/

/-- In every run every result that a listener hears answers its request, the one that was accepted
as the registration was made: that request was handed to the writer, the result has its identifier
and its kind, and its detail is the one that goes with the kind. And whenever nothing is in progress
and the reader takes a frame that holds an entry, a reference or an intermediate response, no
operation is ended by that, or by what is in progress because of it. -/
theorem results_answer_requests (options : Options) (ms : List ConnectionMove) :
    let c := ((start options).run ms).1
    let seen := ((start options).run ms).2
    (∀ owner id o, .heard owner id (.result o) ∈ seen →
      ∃ q, ((start options).submissions ms)[owner]? = some q ∧ .queued q ∈ seen ∧
        id = q.id ∧ o.id = q.id ∧ q.op.kind? = some o.kind ∧ o.detail.Suits o.kind) ∧
    ∀ frame rest m later, c.isBusy = false → c.arrival = .frame frame rest →
      Message.decodeWithin c.options.maxMessage frame = .ok m → m.op.isInterim = true →
      (∀ move ∈ later, move.IsInternal) → c.EndsNone (c.run (.read :: later)) := by
  intro c seen
  constructor
  · intro owner id o hmem
    have hnone : (start options).table.purposes = [].map Message.purpose := rfl
    obtain ⟨q, kind, hq, hpurpose, ho⟩ :=
      answers_run (sound_start options) hnone ms owner id o hmem
    obtain ⟨rfl, hkind⟩ := Prod.ext_iff.1 hpurpose
    refine ⟨q, hq, ?_, rfl, ho.id_eq, ho.kind_eq ▸ hkind, ho.kind_eq.symm ▸ ho.detail⟩
    exact queued_of_submissions (sound_start options) ms q (List.mem_of_getElem? hq)
  · intro frame rest m later hidle harrival decoded interim hlater
    obtain ⟨hagenda, hnotice⟩ := idle_of_not_busy hidle
    obtain ⟨hrests, hends⟩ : (c.step .read).1.Resting ∧ c.EndsNone (c.step .read) := by
      by_cases hreading : c.reading = true
      · -- the reader takes the frame off the stream and hands it over
        have hread : c.step .read = accept { c with inbound := rest } frame := by
          simp [step, hidle, read?, hreading, harrival]
        obtain ⟨hrests, hends⟩ := resting_accept (c := { c with inbound := rest }) hidle decoded
          interim
        rw [hread]
        exact ⟨hrests, hends.unheard, hends.stages⟩
      · have hread : c.step .read = (c, []) := by
          simp [step, hidle, read?, hreading]
        rw [hread]
        exact ⟨⟨by simp [hagenda], hnotice⟩, .refl c⟩
    exact hends.trans (hrests.run hlater)

/-- A comparison whose connection is given up while it waits has its outcome, and an intermediate
response to a deletion is none. -/
theorem results_of_comparison_and_of_intermediate_response :
    let seen := ((start .usual).run
      [.request (.submit (.compareRequest ⟨"cn=a", "sn", []⟩) [] .observer), .request .unbind,
        .proceed]).2
    let waiting := ((start .usual).run
      [.request (.submit (.deleteRequest ⟨"cn=a"⟩) [] .observer),
        .stream (.arrive [0x30, 0x05, 0x02, 0x01, 0x01, 0x79, 0x00])]).1
    (∃ (o : Outcome) (q : Message), .heard 0 1 (.result o) ∈ seen ∧ .queued q ∈ seen ∧
      o.id = q.id ∧ q.op.kind? = some .compare ∧ o.detail.Suits .compare) ∧
    waiting.EndsNone (waiting.run [.read, .proceed, .proceed]) := by
  intro seen waiting
  constructor
  · obtain ⟨hresults, -⟩ := results_answer_requests .usual
      [.request (.submit (.compareRequest ⟨"cn=a", "sn", []⟩) [] .observer), .request .unbind,
        .proceed]
    have hheard : .heard 0 1 (.result (.clientSide 1 .compare .userCanceled
        "the connection was closed by an unbind request" 0 0)) ∈ seen := by
      decide
    obtain ⟨q, -, hqueued, -, hid, hkind, hdetail⟩ := hresults _ _ _ hheard
    exact ⟨_, q, hheard, hqueued, hid, hkind, hdetail⟩
  · obtain ⟨-, hends⟩ := results_answer_requests .usual
      [.request (.submit (.deleteRequest ⟨"cn=a"⟩) [] .observer),
        .stream (.arrive [0x30, 0x05, 0x02, 0x01, 0x01, 0x79, 0x00])]
    exact hends [0x30, 0x05, 0x02, 0x01, 0x01, 0x79, 0x00] []
      ⟨1, .intermediateResponse ⟨none, none⟩, []⟩ [.proceed, .proceed] (by decide)
      (by decide +kernel) (by decide +kernel) rfl (by simp [ConnectionMove.IsInternal])

end Connection
end Ldap
