import Ldap.Proofs.Connection.Identifiers

/-!
# Requests that are sent, or not

A request is registered before it is sent, under the first identifier that no pending operation has.
If it cannot be sent, the registration is ended again, so that nothing but the identifiers that were
drawn tells of the attempt: `submit_all_or_nothing`. The search for an identifier is a loop without
a bound (`MessageIds.Finds`); it comes to an end as long as one identifier is left
(`Table.contains_drawFree`).
-/

namespace Ldap

/-! ## The search for an identifier -/

namespace MessageIds

variable {taken : Int32 → Bool} {ids : MessageIds}

/-- The search for an identifier that is not taken draws one after the other until one is free. -/
inductive Finds (taken : Int32 → Bool) : MessageIds → Int32 × MessageIds → Prop
  | free {ids : MessageIds} (h : taken ids.draw.1 = false) : Finds taken ids ids.draw
  | again {ids : MessageIds} {x : Int32 × MessageIds} (h : taken ids.draw.1 = true)
      (later : Finds taken ids.draw.2 x) : Finds taken ids x

/-- The identifier that is given out after `k` others: they count up to the greatest one and begin
again at 1. -/
def inTurn (ids : MessageIds) (k : Nat) : Int32 :=
  Int32.ofInt ((ids.next.toInt - 1 + k) % (2 ^ 31 - 1) + 1)

/-- An identifier is the first one in turn that is not taken. -/
def IsFirstFree (taken : Int32 → Bool) (ids : MessageIds) (id : Int32) : Prop :=
  ∃ k, id = ids.inTurn k ∧ taken id = false ∧ ∀ j < k, taken (ids.inTurn j) = true

theorem iterate_successor_eq_inTurn (h : 0 < ids.next) (k : Nat) :
    successor^[k] ids.next = ids.inTurn k := by
  rw [inTurn, ← toInt_iterate_successor h, Int32.ofInt_toInt]

/-- A search has one result. -/
theorem Finds.unique {x y : Int32 × MessageIds} (hx : Finds taken ids x) (hy : Finds taken ids y) :
    x = y := by
  induction hx with
  | free h =>
    cases hy with
    | free => rfl
    | again h' => exact absurd (h.symm.trans h') Bool.false_ne_true
  | again h _ ih =>
    cases hy with
    | free h' => exact absurd (h'.symm.trans h) Bool.false_ne_true
    | again _ later => exact ih later

theorem Finds.existsUnique {x : Int32 × MessageIds} (h : Finds taken ids x) :
    ∃! x, Finds taken ids x :=
  ⟨x, h, fun _ h' => h'.unique h⟩

/-- What is found comes after identifiers that are all taken. -/
theorem Finds.exists_iterate {x : Int32 × MessageIds} (h : Finds taken ids x) :
    ∃ k, x.1 = successor^[k] ids.next ∧ taken x.1 = false ∧
      ∀ j < k, taken (successor^[j] ids.next) = true := by
  induction h with
  | free h => exact ⟨0, rfl, h, fun j hj => absurd hj j.not_lt_zero⟩
  | again htaken _ ih =>
    obtain ⟨k, hid, hfree, hbefore⟩ := ih
    refine ⟨k + 1, hid, hfree, fun j hj => ?_⟩
    cases j with
    | zero => exact htaken
    | succ j => exact hbefore j (Nat.lt_of_succ_lt_succ hj)

theorem Finds.isFirstFree {x : Int32 × MessageIds} (h : Finds taken ids x) (hpos : 0 < ids.next) :
    ids.IsFirstFree taken x.1 := by
  obtain ⟨k, hid, hfree, hbefore⟩ := h.exists_iterate
  simp only [iterate_successor_eq_inTurn hpos] at hid hbefore
  exact ⟨k, hid, hfree, hbefore⟩

/-- A bounded search that comes to a free identifier is a search. -/
theorem finds_drawFree {tries : Nat} (h : taken (drawFree taken tries ids).1 = false) :
    Finds taken ids (drawFree taken tries ids) := by
  induction tries generalizing ids with
  | zero => exact .free h
  | succ tries ih =>
    cases hnext : taken ids.draw.1 with
    | false =>
      have hdraw : drawFree taken (tries + 1) ids = ids.draw := by simp [drawFree, hnext]
      rw [hdraw]
      exact .free hnext
    | true =>
      have hdraw : drawFree taken (tries + 1) ids = drawFree taken tries ids.draw.2 := by
        simp [drawFree, hnext]
      rw [hdraw] at h ⊢
      exact .again hnext (ih h)

/-- A bounded search comes to a free identifier if there is one within the bound. -/
theorem taken_drawFree {tries k : Nat} (hk : k ≤ tries)
    (hfree : taken (successor^[k] ids.next) = false) :
    taken (drawFree taken tries ids).1 = false := by
  induction tries generalizing ids k with
  | zero =>
    obtain rfl : k = 0 := Nat.le_zero.1 hk
    exact hfree
  | succ tries ih =>
    cases hnext : taken ids.draw.1 with
    | false =>
      have hdraw : drawFree taken (tries + 1) ids = ids.draw := by simp [drawFree, hnext]
      rw [hdraw, hnext]
    | true =>
      have hdraw : drawFree taken (tries + 1) ids = drawFree taken tries ids.draw.2 := by
        simp [drawFree, hnext]
      cases k with
      | zero => exact absurd (hfree.symm.trans hnext) Bool.false_ne_true
      | succ k =>
        rw [hdraw]
        exact ih (Nat.le_of_succ_le_succ hk) hfree

end MessageIds

theorem Registration.not_isArmed_finish {L : Type} (r : Registration L) :
    (r.finish false).isArmed = false := by
  unfold isArmed finish
  cases r.timer with
  | none => rfl
  | some timer => by_cases harmed : timer.state = .armed <;> simp [Timer.cancel, harmed]

namespace Table

variable {L : Type}

/-! ## Identifiers that are left -/

/-- The identifiers of the pending operations. -/
def pendingIds (t : Table L) : List Int32 :=
  (t.registrations.filter (·.stage = .pending)).map (·.id)

theorem length_pendingIds (t : Table L) : t.pendingIds.length = t.size := by
  rw [pendingIds, List.length_map, size, List.countP_eq_length_filter]

theorem mem_pendingIds {t : Table L} {id : Int32} (h : t.contains id = true) :
    id ∈ t.pendingIds := by
  obtain ⟨owner, r, hr, hp, rfl⟩ := contains_iff.1 h
  exact List.mem_map_of_mem (List.mem_filter.2 ⟨List.mem_of_getElem? hr, decide_eq_true hp⟩)

/-- Of one more identifier than operations are pending, one is free. -/
theorem exists_free {t : Table L} {first : Int32} (hpos : 0 < first)
    (hsize : t.size < 2 ^ 31 - 1) :
    ∃ k ≤ t.size, t.contains (MessageIds.successor^[k] first) = false := by
  by_contra hall
  push Not at hall
  let drawn := (List.range (t.size + 1)).map fun k => MessageIds.successor^[k] first
  have hnodup : drawn.Nodup := by
    refine List.Nodup.map_on (fun i hi j hj heq => ?_) List.nodup_range
    rw [List.mem_range] at hi hj
    rcases lt_trichotomy i j with hij | hij | hij
    · exact absurd heq (MessageIds.iterate_successor_ne hpos hij (by omega))
    · exact hij
    · exact absurd heq.symm (MessageIds.iterate_successor_ne hpos hij (by omega))
  have hsub : drawn ⊆ t.pendingIds := by
    intro id hid
    obtain ⟨k, hk, rfl⟩ := List.mem_map.1 hid
    refine mem_pendingIds (Bool.eq_true_of_not_eq_false (hall k ?_))
    exact Nat.le_of_lt_succ (List.mem_range.1 hk)
  have hlen := (hnodup.subperm hsub).length_le
  rw [length_pendingIds, List.length_map, List.length_range] at hlen
  omega

/-- With as many tries as operations are pending, the identifier that is drawn is free. -/
theorem contains_drawFree {t : Table L} {ids : MessageIds} (hpos : 0 < ids.next)
    (hsize : t.size < 2 ^ 31 - 1) : t.contains (ids.drawFree t.contains t.size).1 = false := by
  obtain ⟨k, hk, hfree⟩ := exists_free hpos hsize
  exact MessageIds.taken_drawFree hk hfree

/-! ## Registrations that are ended again -/

/-- Of a registration that is forgotten right after it was made, its end is left. -/
theorem abandon_add {t : Table L} {r : Registration L} (hfree : t.contains r.id = false)
    (hp : r.stage = .pending) :
    (({ t with registrations := t.registrations ++ [r] } : Table L).abandon r.id).2 =
      { t with registrations := t.registrations ++ [r.finish false] } := by
  have hnone : t.registrations.findIdx? (·.isPending r.id) = none := by
    refine List.findIdx?_eq_none_iff.2 fun s hs => Bool.eq_false_iff.2 fun hpending => ?_
    exact Bool.eq_false_iff.1 hfree (List.any_eq_true.2 ⟨s, hs, hpending⟩)
  have hself : r.isPending r.id = true := by simp [Registration.isPending, hp]
  have hfind : ({ t with registrations := t.registrations ++ [r] } : Table L).find? r.id =
      some t.registrations.length := by
    simp [find?, List.findIdx?_append, hnone, hself]
  simp [abandon, hfind, put]

/-- A registration is made exactly if requests of its kind are answered and its identifier is
positive and free. -/
theorem register_ok_iff {t : Table L} {id : Int32} {kind : OperationKind} {timeout : Option Nat}
    {listener : L} :
    (∃ x, t.register id kind timeout listener = .ok x) ↔
      kind.expectsResponse = true ∧ 0 < id ∧ t.contains id = false := by
  unfold register
  cases hkind : kind.expectsResponse with
  | false => simp
  | true =>
    by_cases hid : id ≤ 0
    · simp [hid, Int32.not_lt.2 hid]
    · cases hfree : t.contains id with
      | true => simp [hid]
      | false =>
        simp only [Bool.not_true, Bool.false_eq_true, if_false, if_neg hid, Int32.not_le.1 hid,
          and_self, iff_true]
        split
        · exact ⟨_, rfl⟩
        · split <;> exact ⟨_, rfl⟩

end Table

namespace Connection

/-! ## All or nothing -/

/-- A request that is answered is given to a connection that takes some. -/
def Accepts (c : Connection) (op : Operation) : Prop :=
  c.closed = false ∧ op.isRequest = true ∧
    ∃ kind, op.kind? = some kind ∧ kind.expectsResponse = true

/-- A request was not sent. What is pending and what is armed is as it was, and nothing else differs
but the identifiers that are left. -/
structure Unsent (c c' : Connection) : Prop where
  pending : c'.table.registrations.filter (·.stage = .pending) =
    c.table.registrations.filter (·.stage = .pending)
  armed : c'.table.registrations.filter (·.isArmed) = c.table.registrations.filter (·.isArmed)
  rest : c' = { c with
    ids := c'.ids
    table := { c.table with registrations := c'.table.registrations } }

/-- A request was sent. It has the first identifier in turn that no pending operation has, an
operation of its kind is pending under that identifier, and its message waits for the writer. -/
structure Sent (c : Connection) (op : Operation) (controls : List Control) (listener : Listener)
    (id : Int32) (c' : Connection) : Prop where
  found : MessageIds.Finds c.table.contains c.ids (id, c'.ids)
  first : c.ids.IsFirstFree c.table.contains id
  added : ∃ r : Registration Listener, r.id = id ∧ op.kind? = some r.kind ∧ r.listener = listener ∧
    r.stage = .pending ∧
    c' = { c with
      ids := c'.ids
      table := { c.table with registrations := c.table.registrations ++ [r] }
      outbox := c.outbox ++ [.message ⟨id, op, controls⟩] }

/-- The identifier that a request is sent under, and those that are left. -/
def drawn (c : Connection) : Int32 × MessageIds :=
  c.ids.drawFree c.table.contains c.table.size

/-- A request that is not accepted, or for which no identifier is free, takes nothing but
identifiers. -/
theorem submit_of_refused {c : Connection} {op : Operation}
    (h : ¬ (c.Accepts op ∧ 0 < c.drawn.1 ∧ c.table.contains c.drawn.1 = false))
    (controls : List Control) (listener : Listener) :
    ∃ e ids, c.submit op controls listener = (.error e, { c with ids }, []) := by
  unfold submit
  split
  · exact ⟨_, c.ids, rfl⟩
  · next kind hsome =>
    obtain ⟨hrequest, hkind⟩ : op.isRequest = true ∧ op.kind? = some kind := by
      simpa using hsome
    split
    · exact ⟨_, c.ids, rfl⟩
    · next hopen =>
      cases hregister :
          c.table.register c.drawn.1 kind (c.options.timeoutFor kind) listener with
      | error e =>
        refine ⟨e, c.drawn.2, ?_⟩
        unfold drawn at hregister ⊢
        simp [hregister]
      | ok x =>
        -- what is registered would have been accepted
        obtain ⟨hanswered, hfree⟩ := Table.register_ok_iff.1 ⟨x, hregister⟩
        exact absurd ⟨⟨by simpa using hopen, hrequest, kind, hkind, hanswered⟩, hfree⟩ h

/-- A request that is accepted is registered under the identifier that is drawn for it. It is sent,
or the registration is ended because the writer is gone. -/
theorem submit_of_accepts {c : Connection} (hscheduler : c.table.scheduler ≠ .immediate)
    {op : Operation} (haccepts : c.Accepts op) (hpos : 0 < c.drawn.1)
    (hfree : c.table.contains c.drawn.1 = false) (controls : List Control) (listener : Listener) :
    ∃ r : Registration Listener, r.id = c.drawn.1 ∧ op.kind? = some r.kind ∧
      r.listener = listener ∧ r.stage = .pending ∧
      c.submit op controls listener =
        if c.writing then
          (.ok c.drawn.1, { c with
            ids := c.drawn.2
            table := { c.table with registrations := c.table.registrations ++ [r] }
            outbox := c.outbox ++ [.message ⟨c.drawn.1, op, controls⟩] },
            [.queued ⟨c.drawn.1, op, controls⟩])
        else
          (.error .connectionClosed, { c with
            ids := c.drawn.2
            table := { c.table with
              registrations := c.table.registrations ++ [r.finish false] } }, []) := by
  obtain ⟨hopen, hrequest, kind, hkind, hanswered⟩ := haccepts
  obtain ⟨⟨t, signs⟩, hregister⟩ :
      ∃ x, c.table.register c.drawn.1 kind (c.options.timeoutFor kind) listener = .ok x :=
    Table.register_ok_iff.2 ⟨hanswered, hpos, hfree⟩
  obtain ⟨r, hid, rfl, hlistener, hp, -, -, ⟨rfl, -⟩ | ⟨himmediate, -⟩⟩ :=
    Table.register_cases hregister
  · refine ⟨r, hid, hkind, hlistener, hp, ?_⟩
    have hgone := Table.abandon_add (hid ▸ hfree) hp
    rw [hid] at hgone
    unfold drawn at hregister hgone ⊢
    cases hwriting : c.writing <;>
      simp [submit, hrequest, hkind, hopen, hregister, send, enqueue, hwriting, hgone]
  · exact absurd himmediate hscheduler

theorem unsent_ids (c : Connection) (ids : MessageIds) : c.Unsent { c with ids } :=
  ⟨rfl, rfl, rfl⟩

/-- A registration that is ended again is neither pending nor armed. -/
theorem unsent_finish (c : Connection) (ids : MessageIds) (r : Registration Listener) :
    c.Unsent { c with
      ids
      table := { c.table with registrations := c.table.registrations ++ [r.finish false] } } where
  pending := by simp [Registration.finish]
  armed := by simp [Registration.not_isArmed_finish]
  rest := rfl

/-- A request is sent as a whole, or nothing comes of it. As long as one identifier is left, the
search for one comes to an end, and a request is sent if it is accepted and the writer is there. The
next identifier is positive throughout every run (`next_pos_run`). -/
theorem submit_all_or_nothing (c : Connection) (hscheduler : c.table.scheduler ≠ .immediate)
    (hpos : 0 < c.ids.next) (op : Operation) (controls : List Control) (listener : Listener) :
    (match c.submit op controls listener with
      | (.error _, c', seen) => c.Unsent c' ∧ seen = []
      | (.ok id, c', seen) =>
        c.Sent op controls listener id c' ∧ seen = [.queued ⟨id, op, controls⟩]) ∧
    (c.table.size < 2 ^ 31 - 1 →
      (∃! x, MessageIds.Finds c.table.contains c.ids x) ∧
      ((∃ id, (c.submit op controls listener).1 = .ok id) ↔
        c.Accepts op ∧ c.writing = true)) := by
  have hdrawn : 0 < c.drawn.1 := by
    obtain ⟨k, hid, -⟩ := MessageIds.exists_drawFree c.table.contains c.table.size c.ids
    rw [drawn, hid]
    exact MessageIds.iterate_successor_pos hpos k
  by_cases h : c.Accepts op ∧ c.table.contains c.drawn.1 = false
  · obtain ⟨haccepts, hfree⟩ := h
    obtain ⟨r, hid, hkind, hlistener, hp, hsubmit⟩ :=
      submit_of_accepts hscheduler haccepts hdrawn hfree controls listener
    have hfinds : MessageIds.Finds c.table.contains c.ids c.drawn := MessageIds.finds_drawFree hfree
    rw [hsubmit]
    by_cases hwriting : c.writing = true
    · rw [if_pos hwriting]
      refine ⟨⟨⟨hfinds, hfinds.isFirstFree hpos, r, hid, hkind, hlistener, hp, rfl⟩, rfl⟩,
        fun _ => ⟨hfinds.existsUnique, ?_⟩⟩
      simp [haccepts, hwriting]
    · rw [if_neg hwriting]
      refine ⟨⟨unsent_finish c c.drawn.2 r, rfl⟩, fun _ => ⟨hfinds.existsUnique, ?_⟩⟩
      simp [hwriting]
  · obtain ⟨e, ids, hsubmit⟩ := submit_of_refused (fun h' => h ⟨h'.1, h'.2.2⟩) controls listener
    rw [hsubmit]
    refine ⟨⟨unsent_ids c ids, rfl⟩, fun hsize => ?_⟩
    have hfree : c.table.contains c.drawn.1 = false := Table.contains_drawFree hpos hsize
    have hrefused : ¬ c.Accepts op := fun haccepts => h ⟨haccepts, hfree⟩
    exact ⟨(MessageIds.finds_drawFree hfree).existsUnique, by simp [hrefused]⟩

/-- After the greatest identifier, which is taken, comes 1. Without a writer the timer of a request
does not stay armed. -/
theorem submit_after_greatest :
    let taken : Registration Listener :=
      ⟨Int32.maxValue, .search, 0, .observer, .pending, 0, 0, none⟩
    let c : Connection := { start Options.usual with
      ids := ⟨Int32.maxValue⟩
      table := ⟨[taken], 0, .manual, false, []⟩ }
    let op : Operation := .deleteRequest ⟨"cn=a"⟩
    (c.submit op [] .observer).1 = .ok 1 ∧
      c.Sent op [] .observer 1 (c.submit op [] .observer).2.1 ∧
      { c with writing := false }.Unsent
        ({ c with writing := false }.submit op [] .observer).2.1 := by
  intro taken c op
  have hsent := (submit_all_or_nothing c (by decide) (by decide) op [] .observer).1
  have hunsent :=
    (submit_all_or_nothing { c with writing := false } (by decide) (by decide) op [] .observer).1
  exact ⟨by decide, hsent.1, hunsent.1⟩

end Connection
end Ldap
