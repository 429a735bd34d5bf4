import Ldap.Proofs.Connection.Closure

/-!
# Work in progress comes to an end

A call leaves things to be done: listeners that hear an event, operations that are failed, timers
that go off. Each of them is done in one step, and the few that put something new on the agenda use
up an operation or a timer. So after enough steps nothing is in progress, unless a listener makes
another call (`Connection.exists_settled`).
-/

namespace Ldap

/-! ## The weight of an agenda -/

/-- A bound on the steps that something on the agenda takes. An operation that is failed is followed
by its listener, and the last one by an answer. -/
def Activity.weight : Activity → Nat
  | hearing _ | answering _ | ringing => 1
  | failing owners _ _ _ => 3 * owners.length + 2

/-- Whether a registration has a timer that may still go off. -/
def Registration.isArmed {L : Type} (r : Registration L) : Bool :=
  r.timer.any (·.state = .armed)

theorem Registration.isArmed_of_finish {L : Type} {r : Registration L} {byTimer : Bool}
    (h : (r.finish byTimer).isArmed = true) : r.isArmed = true := by
  cases byTimer with
  | true => exact h
  | false =>
    -- a timer that is cancelled is armed no more
    unfold isArmed finish at *
    cases htimer : r.timer with
    | none => simp [htimer] at h
    | some timer =>
      by_cases harmed : timer.state = .armed <;> simp [htimer, Timer.cancel, harmed] at h ⊢

/-- Changes of which none registers keep the number of registrations. -/
theorem Changes.length_eq {L : Type} {rs rs' : List (Registration L)} {deeds : List Deed}
    (h : Changes rs deeds rs') (hnone : ∀ owner, .registered owner ∉ deeds) :
    rs'.length = rs.length := by
  induction h with
  | refl => rfl
  | step hc _ ih =>
    rw [ih fun owner hmem => hnone owner (List.mem_append_right _ hmem)]
    cases hc with
    | register => exact absurd (List.mem_append_left _ List.mem_cons_self) (hnone _)
    | hear | refuse | finish | abandon | adjust => exact List.length_set

/-- After changes of which none registers, what is pending was so before, with its identifier. -/
theorem Changes.exists_pending {L : Type} {rs rs' : List (Registration L)} {deeds : List Deed}
    (h : Changes rs deeds rs') (hnone : ∀ owner, .registered owner ∉ deeds) {owner : Nat}
    {s : Registration L} (hs : rs'[owner]? = some s) (hp : s.stage = .pending) :
    ∃ r, rs[owner]? = some r ∧ r.stage = .pending ∧ r.id = s.id := by
  rcases h.origin hs (by simp [hp]) with ⟨r, hr, hstage, hid⟩ | ⟨-, hmem⟩
  · exact ⟨r, hr, hstage.trans hp, hid⟩
  · exact absurd hmem (hnone owner)

namespace Table

variable {L : Type}

/-- The number of timers that may still go off. -/
def armed (t : Table L) : Nat :=
  t.registrations.countP Registration.isArmed

/-- A bound on the steps that all on the agenda takes. A timer that goes off is followed by its
listener. -/
def weight (t : Table L) : Nat :=
  2 * t.armed + (t.agenda.map Activity.weight).sum

theorem armed_put {t : Table L} {owner : Nat} {r : Registration L}
    (there : t.registrations[owner]? = some r) (r' : Registration L) :
    (t.put owner r').armed + (if r.isArmed then 1 else 0) =
      t.armed + (if r'.isArmed then 1 else 0) := by
  obtain ⟨hlt, rfl⟩ := List.getElem?_eq_some_iff.1 there
  have hle : (if (t.registrations[owner]).isArmed then 1 else 0) ≤ t.armed := by
    split
    · next harmed => exact List.countP_pos_iff.2 ⟨_, List.getElem_mem hlt, harmed⟩
    · exact Nat.zero_le _
  have hset : (t.put owner r').armed = t.armed - (if (t.registrations[owner]).isArmed then 1 else 0)
      + (if r'.isArmed then 1 else 0) := List.countP_set hlt
  omega

theorem weight_resume (t : Table L) (signs : List Sign) (rest : List Activity) :
    (t.resume signs rest).1.weight =
      t.weight + ((hearings signs).map Activity.weight).sum + (rest.map Activity.weight).sum := by
  simp only [weight, resume, armed, List.map_append, List.sum_append]
  omega

/-- To end a registration lets one listener hear of it and arms no timer. -/
theorem weight_finish {t t' : Table L} {owner : Nat} {byTimer : Bool} {verdict : Verdict}
    {p : Progress} {signs : List Sign} (h : t.finish owner byTimer verdict = some (p, t', signs)) :
    t'.weight ≤ t.weight ∧ ((hearings signs).map Activity.weight).sum = 1 := by
  obtain ⟨r, hr, -, -, rfl, rfl⟩ := exists_live_of_finish h
  constructor
  · have hput := armed_put hr (r.finish byTimer)
    have hkept := @Registration.isArmed_of_finish L r byTimer
    have hagenda : (t.put owner (r.finish byTimer)).agenda = t.agenda := rfl
    unfold weight
    rw [hagenda]
    split at hput <;> split at hput <;> simp_all; omega
  · split <;> rfl

theorem weight_expire_le (t : Table L) (owner : Nat) :
    (t.expire owner).2.1.weight + ((hearings (t.expire owner).2.2).map Activity.weight).sum ≤
      t.weight + 1 := by
  unfold expire
  split
  · next p t' signs h =>
    obtain ⟨hle, hone⟩ := weight_finish h
    dsimp only
    omega
  · simp [hearings]

/-- A timer that is due is used up when it goes off, which counts for more than the listener that
hears of it. -/
theorem weight_ring_lt {t : Table L} {owner : Nat} (hdue : (t.due? owner).isSome = true) :
    (t.ring owner).2.1.weight + ((hearings (t.ring owner).2.2).map Activity.weight).sum <
      t.weight := by
  unfold due? at hdue
  cases hr : t.registrations[owner]? with
  | none => simp [hr] at hdue
  | some r =>
    cases htimer : r.timer with
    | none => simp [hr, htimer] at hdue
    | some timer =>
      have harmed : timer.state = .armed := by
        by_contra hstate
        simp [hr, htimer, Timer.isDue, hstate] at hdue
      have hfired : ¬ timer.state = .fired := by simp [harmed]
      simp only [ring, hr, htimer, if_neg hfired]
      have hput := armed_put hr { r with timer := some timer.fire }
      have hwas : r.isArmed = true := by simp [Registration.isArmed, htimer, harmed]
      have his : ({ r with timer := some timer.fire } : Registration L).isArmed = false := by
        simp [Registration.isArmed, Timer.fire]
      rw [hwas, his] at hput
      have hrest := weight_expire_le (t.put owner { r with timer := some timer.fire }) owner
      have hagenda : (t.put owner { r with timer := some timer.fire }).agenda = t.agenda := rfl
      have hweight : (t.put owner { r with timer := some timer.fire }).weight + 2 = t.weight := by
        unfold weight
        rw [hagenda]
        simp at hput
        omega
      omega

theorem due_of_nextDue {t : Table L} {owner : Nat} (h : t.nextDue? = some owner) :
    (t.due? owner).isSome = true := by
  simp only [nextDue?, Option.map_eq_some_iff] at h
  obtain ⟨⟨deadline, other⟩, hhead, rfl⟩ := h
  have hmem := List.mem_of_mem_head? hhead
  rw [List.mem_mergeSort, List.mem_filterMap] at hmem
  obtain ⟨owner, -, hdue⟩ := hmem
  obtain ⟨d, hd, heq⟩ := Option.map_eq_some_iff.1 hdue
  cases heq
  simp [hd]

/-- Whatever is done next takes off more than it adds. -/
theorem weight_perform_lt (t : Table L) (a : Activity) :
    (t.perform a).1.weight < t.weight + a.weight := by
  cases a with
  | hearing _ => simp [perform, Activity.weight]
  | answering _ => simp [perform, Activity.weight]
  | ringing =>
    simp only [perform]
    split
    · simp [Activity.weight]
    · next owner hnext =>
      have hring := weight_ring_lt (due_of_nextDue hnext)
      rcases hx : t.ring owner with ⟨fresh, t', signs⟩
      rw [hx] at hring
      dsimp only at hring
      rw [weight_resume]
      simp only [List.map_cons, List.map_nil, List.sum_cons, List.sum_nil, Activity.weight]
      omega
  | failing owners code diagnostic finished =>
    cases owners with
    | nil =>
      rw [perform, weight_resume]
      simp [hearings, Activity.weight]
    | cons owner owners =>
      simp only [perform]
      split
      · next h =>
        obtain ⟨hle, hone⟩ := weight_finish h
        rw [weight_resume]
        simp only [List.map_cons, List.map_nil, List.sum_cons, List.sum_nil, Activity.weight,
          List.length_cons]
        omega
      · rw [weight_resume]
        simp [hearings, Activity.weight]

theorem weight_proceed_lt {t : Table L} (h : t.agenda ≠ []) : t.proceed.1.weight < t.weight := by
  cases hagenda : t.agenda with
  | nil => exact absurd hagenda h
  | cons a agenda =>
    have hlt := weight_perform_lt { t with agenda } a
    simp only [proceed, hagenda]
    refine lt_of_lt_of_eq hlt ?_
    simp only [weight, armed, hagenda, List.map_cons, List.sum_cons]
    omega

/-- Failing all operations takes three steps for each, at most. -/
theorem weight_failAll_le (t : Table L) (code : ResultCode) (diagnostic : String) :
    (t.failAll code diagnostic).weight ≤ t.weight + 3 * t.registrations.length + 2 := by
  have harmed : (t.failAll code diagnostic).armed = t.armed := by
    simp only [armed, failAll, List.countP_map]
    congr 1
    funext r
    simp only [Function.comp, Registration.drain]
    split <;> rfl
  have howners := List.length_filter_le
    (fun owner => (t.registrations[owner]?).any fun r => decide (r.stage = .pending))
    (List.range t.registrations.length)
  rw [List.length_range] at howners
  simp only [weight, harmed]
  simp only [failAll, List.map_cons, List.sum_cons, Activity.weight]
  omega

/-- What is in progress registers nothing. -/
theorem length_proceed (t : Table L) :
    t.proceed.1.registrations.length = t.registrations.length := by
  unfold proceed
  split
  · rfl
  · next a agenda _ =>
    exact (advances_perform { t with agenda } a).changes.length_eq fun owner =>
      registered_not_mem_ofSigns owner _

end Table

/-! ## Connections -/

namespace Connection

/-- Between calls nothing is in progress. -/
theorem idle_of_not_busy {c : Connection} (h : c.isBusy = false) :
    c.table.agenda = [] ∧ c.notice = none := by
  simpa only [isBusy, Bool.or_eq_false_iff, Bool.not_eq_eq_eq_not, Bool.not_false,
    List.isEmpty_iff, Option.isSome_eq_false_iff, Option.isNone_iff_eq_none] using h

/-- A bound on the steps that all in progress takes. A notice may lead to all operations being
failed. -/
def weight (c : Connection) : Nat :=
  c.table.weight + if c.notice.isSome then 3 * c.table.registrations.length + 3 else 0

/-- A message joins the outbox, or is lost without a trace because the writer is gone. -/
theorem send_cases (c : Connection) (m : Message) :
    (c.writing = true ∧
      c.send m = (true, { c with outbox := c.outbox ++ [.message m] }, [.queued m])) ∨
    (c.writing = false ∧ c.send m = (false, c, [])) := by
  cases hw : c.writing <;> simp [send, enqueue, hw]

theorem table_send (c : Connection) (m : Message) : (c.send m).2.1.table = c.table := by
  rcases c.send_cases m with ⟨-, h⟩ | ⟨-, h⟩ <;> rw [h]

/-- What is followed changes the listeners and arms no timer. -/
theorem table_follow (c : Connection) (s : Sign) :
    (c.follow s).1.table.weight = c.table.weight ∧
      (c.follow s).1.table.registrations.length = c.table.registrations.length := by
  cases s with
  | heard owner id event =>
    simp only [follow]
    split
    · exact ⟨rfl, rfl⟩
    · next r hr =>
      have hput := Table.armed_put hr { r with listener := r.listener.hear event }
      have hsame : ({ r with listener := r.listener.hear event } : Registration Listener).isArmed =
          r.isArmed := rfl
      have hagenda (s : Registration Listener) : (c.table.put owner s).agenda = c.table.agenda :=
        rfl
      rw [hsame] at hput
      refine ⟨?_, List.length_set⟩
      simp only [Table.weight, hagenda]
      omega
  | abandoning owner id =>
    have htable : (c.follow (.abandoning owner id)).1.table = c.table := table_send _ _
    rw [htable]
    exact ⟨rfl, rfl⟩
  | answered reply => exact ⟨rfl, rfl⟩

theorem table_followAll (c : Connection) (signs : List Sign) :
    (c.followAll signs).1.table.weight = c.table.weight ∧
      (c.followAll signs).1.table.registrations.length = c.table.registrations.length := by
  induction signs generalizing c with
  | nil => exact ⟨rfl, rfl⟩
  | cons s signs ih =>
    obtain ⟨hweight, hlength⟩ := table_follow c s
    obtain ⟨hweights, hlengths⟩ := ih (c.follow s).1
    exact ⟨hweights.trans hweight, hlengths.trans hlength⟩

theorem weight_releaseWriter (c : Connection) : c.releaseWriter.weight = c.weight := by
  unfold releaseWriter
  split <;> rfl

theorem weight_afterNotice_lt {c : Connection} {o : Outcome} (h : c.notice = some o) :
    (({ c with notice := none } : Connection).afterNotice o).1.weight < c.weight := by
  have hquiet : ({ c with notice := none } : Connection).weight < c.weight := by
    simp [weight, h]
  rcases afterNotice_cases { c with notice := none } o with ⟨_, diagnostic, -, heq⟩ | ⟨-, heq⟩
  · -- all operations are failed, which the weight of the notice accounts for
    rw [heq]
    refine lt_of_le_of_lt (Table.weight_failAll_le c.table .serverDown diagnostic) ?_
    simp only [weight, h, Option.isSome_some, if_true]
    omega
  · rw [heq]
    exact hquiet

/-- Whatever is done next takes off weight. -/
theorem weight_proceed_lt {c : Connection} (h : c.isBusy = true) :
    c.proceed.1.weight < c.weight := by
  unfold proceed
  split
  · next hagenda hnotice => simp [isBusy, hagenda, hnotice] at h
  · next o _ hnotice => exact weight_afterNotice_lt hnotice
  · next hagenda =>
    obtain ⟨hweight, hlength⟩ := table_followAll { c with table := c.table.proceed.1 }
      c.table.proceed.2
    have hnotice : (c.withTable c.table.proceed).1.notice = c.notice :=
      (queues_followAll { c with table := c.table.proceed.1 } c.table.proceed.2).notice
    have hlt := Table.weight_proceed_lt (t := c.table) (by simp [hagenda])
    dsimp only
    rw [weight_releaseWriter]
    unfold weight
    rw [hnotice]
    unfold withTable
    rw [hweight, hlength, Table.length_proceed]
    exact Nat.add_lt_add_right hlt _

/-- What is in progress comes to an end if nothing new is requested. -/
theorem exists_settled (c : Connection) :
    ∃ n, (c.run (List.replicate n .proceed)).1.isBusy = false := by
  -- on the weight, which every step lowers
  induction hw : c.weight using Nat.strong_induction_on generalizing c with
  | _ w ih =>
    by_cases hbusy : c.isBusy = true
    · obtain ⟨n, hn⟩ := ih c.proceed.1.weight (hw ▸ weight_proceed_lt hbusy) c.proceed.1 rfl
      exact ⟨n + 1, hn⟩
    · exact ⟨0, Bool.eq_false_iff.2 hbusy⟩

end Connection
end Ldap
