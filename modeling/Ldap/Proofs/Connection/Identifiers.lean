import Ldap.Proofs.Connection.Settling

/-!
# Identifiers of messages

Identifiers are given out one after the other, and again from the first one after the greatest. A
request is sent under one that no pending operation has. The other messages, which abandon an
operation or take leave, get the next identifier whether or not an operation has it, so an operation
that has been pending for a whole round may share its identifier with one of them. `id_of_queued`
says so of every run, and that in the first round no identifier is shared.
-/

namespace Ldap

/-! ## One after the other -/

namespace MessageIds

/-- An identifier that cannot be that of a request is not started at. -/
theorem startingAt_pos (initial : Int32) : 0 < (startingAt initial).next := by
  unfold startingAt
  split
  · decide
  · next h =>
    have hle : (1 : Int32) ≤ initial := Int32.not_lt.1 h
    exact Int32.lt_iff_toInt_lt.2 (Int32.le_iff_toInt_le.1 hle)

/-- Identifiers go up by one and begin again at one behind the greatest. -/
theorem toInt_successor {id : Int32} (h : 0 < id) :
    (successor id).toInt = id.toInt % (2 ^ 31 - 1) + 1 := by
  have hpos : 0 < id.toInt := Int32.lt_iff_toInt_lt.1 h
  have hle : id.toInt ≤ 2 ^ 31 - 1 := Int32.le_iff_toInt_le.1 (Int32.le_maxValue id)
  unfold successor
  split
  · next hmax =>
    rw [hmax]
    rfl
  · next hne =>
    have hlt : id.toInt < 2 ^ 31 - 1 := by
      refine lt_of_le_of_ne hle fun heq => hne (Int32.toInt_inj.1 ?_)
      rw [heq, Int32.toInt_maxValue]
    rw [Int32.toInt_add, Int.emod_eq_of_lt hpos.le hlt, Int32.toInt_one]
    exact Int.bmod_eq_of_le (by omega) (by omega)

theorem iterate_successor_pos {id : Int32} (h : 0 < id) (n : Nat) : 0 < successor^[n] id := by
  induction n with
  | zero => exact h
  | succ n ih =>
    rw [Function.iterate_succ_apply', Int32.lt_iff_toInt_lt, toInt_successor ih]
    exact Int.lt_add_one_of_le (Int.emod_nonneg _ (by decide))

/-- So after some steps they are found by counting. -/
theorem toInt_iterate_successor {id : Int32} (h : 0 < id) (n : Nat) :
    (successor^[n] id).toInt = (id.toInt - 1 + n) % (2 ^ 31 - 1) + 1 := by
  induction n with
  | zero =>
    have hpos : 0 < id.toInt := Int32.lt_iff_toInt_lt.1 h
    have hle : id.toInt ≤ 2 ^ 31 - 1 := Int32.le_iff_toInt_le.1 (Int32.le_maxValue id)
    rw [Function.iterate_zero_apply, Int.emod_eq_of_lt (by omega) (by omega)]
    omega
  | succ n ih =>
    rw [Function.iterate_succ_apply', toInt_successor (iterate_successor_pos h n), ih,
      Int.emod_add_emod]
    push_cast
    congr 2
    omega

/-- No identifier is given out twice in the first round. -/
theorem iterate_successor_ne {id : Int32} (h : 0 < id) {i j : Nat} (hij : i < j)
    (hlt : j < 2 ^ 31 - 1) : successor^[i] id ≠ successor^[j] id := by
  intro heq
  have hsame := congrArg Int32.toInt heq
  rw [toInt_iterate_successor h, toInt_iterate_successor h] at hsame
  omega

/-- After all others have been given out, an identifier is given out again. -/
theorem iterate_successor_round {id : Int32} (h : 0 < id) {n : Nat} (hn : n + 1 = 2 ^ 31 - 1) :
    successor^[n] (successor id) = id := by
  have hpos : 0 < id.toInt := Int32.lt_iff_toInt_lt.1 h
  have hle : id.toInt ≤ 2 ^ 31 - 1 := Int32.le_iff_toInt_le.1 (Int32.le_maxValue id)
  rw [← Function.iterate_succ_apply, ← Int32.toInt_inj, toInt_iterate_successor h]
  omega

/-- To draw a free identifier gives out the next one after some others, of which there are none if
the next one is free. -/
theorem exists_drawFree (taken : Int32 → Bool) (tries : Nat) (ids : MessageIds) :
    ∃ k, (drawFree taken tries ids).1 = successor^[k] ids.next ∧
      (drawFree taken tries ids).2.next = successor^[k + 1] ids.next ∧
      (taken ids.next = false → k = 0) := by
  induction tries generalizing ids with
  | zero => exact ⟨0, rfl, rfl, fun _ => rfl⟩
  | succ tries ih =>
    cases htaken : taken ids.next with
    | false =>
      have hdraw : drawFree taken (tries + 1) ids = ids.draw := by simp [drawFree, draw, htaken]
      rw [hdraw]
      exact ⟨0, rfl, rfl, fun _ => rfl⟩
    | true =>
      have hdraw : drawFree taken (tries + 1) ids = drawFree taken tries ids.draw.2 := by
        simp [drawFree, draw, htaken]
      obtain ⟨k, hid, hnext, -⟩ := ih ids.draw.2
      rw [hdraw]
      exact ⟨k + 1, hid, hnext, fun h => absurd h (by simp)⟩

end MessageIds

/-! ## What the table tells the server -/

/-- The operation of which a sign tells the server that nobody waits for it. -/
def Sign.target? : Sign → Option Int32
  | .abandoning _ id => some id
  | .heard .. | .answered _ => none

/-- The operations of which signs tell the server that nobody waits for them. -/
def Sign.targets (signs : List Sign) : List Int32 :=
  signs.filterMap target?

namespace Table

variable {L : Type}

/-- An end asks for one abandonment at most. -/
theorem length_targets_finish {t t' : Table L} {owner : Nat} {byTimer : Bool} {verdict : Verdict}
    {p : Progress} {signs : List Sign} (h : t.finish owner byTimer verdict = some (p, t', signs)) :
    (Sign.targets signs).length ≤ 1 := by
  obtain ⟨r, -, -, -, -, rfl⟩ := exists_live_of_finish h
  split
  · exact le_rfl
  · exact Nat.zero_le 1

theorem length_targets_expire (t : Table L) (owner : Nat) :
    (Sign.targets (t.expire owner).2.2).length ≤ 1 := by
  unfold expire
  split
  · next h => exact length_targets_finish h
  · exact Nat.zero_le 1

theorem length_targets_ring (t : Table L) (owner : Nat) :
    (Sign.targets (t.ring owner).2.2).length ≤ 1 := by
  unfold ring
  split
  · exact Nat.zero_le 1
  split
  · exact Nat.zero_le 1
  split
  · exact Nat.zero_le 1
  · exact length_targets_expire _ owner

/-- A call tells the server of one operation at most. -/
theorem length_targets_call (t : Table L) (call : Call L) :
    (Sign.targets (t.call call).2).length ≤ 1 := by
  cases call with
  | register id kind timeout listener =>
    simp only [Table.call]
    split
    · next t' signs h =>
      obtain ⟨r, -, -, -, -, -, -, ⟨-, rfl⟩ | ⟨-, hexpire⟩⟩ := register_cases h
      · exact Nat.zero_le 1
      · obtain rfl := congrArg Prod.snd hexpire
        exact length_targets_expire _ _
    · exact Nat.zero_le 1
  | deliver id d =>
    simp only [Table.call, resume, deliver]
    split
    · exact Nat.zero_le 1
    split
    · exact Nat.zero_le 1
    split <;> exact Nat.zero_le 1
  | complete id verdict =>
    simp only [Table.call, resume, complete]
    split
    · next h =>
      obtain ⟨owner, -, h⟩ := Option.bind_eq_some_iff.1 h
      exact length_targets_finish h
    · exact Nat.zero_le 1
  | timeout id =>
    simp only [Table.call, resume, timeout]
    split
    · exact length_targets_expire _ _
    · exact Nat.zero_le 1
  | fire timer =>
    simp only [Table.call, resume, fire]
    split
    · exact length_targets_ring _ _
    · exact Nat.zero_le 1
  | abandon _ | failAll _ _ | advance _ | query _ | describe => exact Nat.zero_le 1

theorem length_targets_proceed (t : Table L) : (Sign.targets t.proceed.2).length ≤ 1 := by
  unfold proceed
  split
  · exact Nat.zero_le 1
  · next a agenda _ =>
    cases a with
    | hearing _ | answering _ => exact Nat.zero_le 1
    | ringing =>
      simp only [perform]
      split
      · exact Nat.zero_le 1
      · exact length_targets_ring _ _
    | failing owners code diagnostic finished =>
      cases owners with
      | nil => exact Nat.zero_le 1
      | cons owner owners =>
        simp only [perform]
        split
        · next h => exact length_targets_finish h
        · exact Nat.zero_le 1

/-! ## What is pending -/

/-- An identifier is in the table if a pending registration has it. -/
theorem contains_iff {t : Table L} {id : Int32} :
    t.contains id = true ↔
      ∃ (owner : Nat) (r : Registration L),
        t.registrations[owner]? = some r ∧ r.stage = .pending ∧ r.id = id := by
  rw [contains, List.any_eq_true]
  constructor
  · rintro ⟨r, hr, hp⟩
    obtain ⟨owner, howner⟩ := List.getElem?_of_mem hr
    exact ⟨owner, r, howner, by simpa [Registration.isPending] using hp⟩
  · rintro ⟨owner, r, hr, hp, rfl⟩
    exact ⟨r, List.mem_of_getElem? hr, by simp [Registration.isPending, hp]⟩

/-- Everything that is pending was so before. -/
def Shrinks (t t' : Table L) : Prop :=
  ∀ id, t'.contains id = true → t.contains id = true

/-- A table in which nothing is registered holds no identifier that it did not hold before. -/
theorem shrinks_of_changes {t t' : Table L} {deeds : List Deed}
    (h : Changes t.registrations deeds t'.registrations)
    (hnone : ∀ owner, .registered owner ∉ deeds) : t.Shrinks t' := by
  intro id hid
  obtain ⟨owner, s, hs, hp, rfl⟩ := contains_iff.1 hid
  obtain ⟨r, hr, hp, hid⟩ := h.exists_pending hnone hs hp
  exact contains_iff.2 ⟨owner, r, hr, hp, hid⟩

theorem shrinks_of_signs {t t' : Table L} {signs : List Sign}
    (h : Changes t.registrations (Deed.ofSigns signs) t'.registrations) : t.Shrinks t' :=
  shrinks_of_changes h fun owner => registered_not_mem_ofSigns owner signs

theorem shrinks_failAll (t : Table L) (code : ResultCode) (diagnostic : String) :
    t.Shrinks (t.failAll code diagnostic) := by
  intro id hid
  obtain ⟨owner, s, hs, hp, -⟩ := contains_iff.1 hid
  exact absurd hp (nonePending_failAll t code diagnostic owner s hs)

theorem shrinks_abandon (t : Table L) (id : Int32) : t.Shrinks (t.abandon id).2 :=
  shrinks_of_changes (t.evolves_abandon id).changes (t.registered_not_mem_deedsOfAbandon id)

theorem shrinks_call (t : Table L) {call : Call L} (hcall : t.deedsOfCall call = []) :
    t.Shrinks (t.call call).1 := by
  rcases t.advances_call call with ⟨code, diagnostic, rfl⟩ | hadvances
  · exact shrinks_failAll t code diagnostic
  · rw [hcall, List.nil_append] at hadvances
    exact shrinks_of_signs hadvances.changes

/-- A registration adds its own identifier and no other. -/
theorem contains_of_add {t : Table L} {r : Registration L} {id : Int32}
    (h : ({ t with registrations := t.registrations ++ [r] } : Table L).contains id = true) :
    t.contains id = true ∨ id = r.id := by
  rw [contains, List.any_append, Bool.or_eq_true] at h
  refine h.imp_right fun hnew => ?_
  simp only [List.any_cons, List.any_nil, Bool.or_false, Registration.isPending, Bool.and_eq_true,
    decide_eq_true_eq] at hnew
  exact hnew.2.symm

/-- Nothing but what is registered becomes pending. -/
theorem contains_of_register {t t' : Table L} {id : Int32} {kind : OperationKind}
    {timeout : Option Nat} {listener : L} {signs : List Sign}
    (h : t.register id kind timeout listener = .ok (t', signs)) {other : Int32}
    (hother : t'.contains other = true) : t.contains other = true ∨ other = id := by
  obtain ⟨r, rfl, -, -, -, -, -, ⟨rfl, -⟩ | ⟨-, hexpire⟩⟩ := register_cases h
  · exact contains_of_add hother
  · obtain rfl := congrArg Prod.fst hexpire
    exact contains_of_add (shrinks_of_signs (evolves_expire _ _).changes other hother)

theorem shrinks_proceed (t : Table L) : t.Shrinks t.proceed.1 := by
  unfold proceed
  split
  · exact fun _ => id
  · next a agenda _ =>
    exact shrinks_of_signs (advances_perform { t with agenda } a).changes

end Table

namespace Connection

/-! ## What is drawn -/

/-- Identifiers are drawn one after the other, `k` of them; each message that is queued gets one,
and each operation that is registered. -/
structure Draws (k : Nat) (c : Connection) (x : Connection × List Occurrence) : Prop where
  next : x.1.ids.next = MessageIds.successor^[k] c.ids.next
  queued : ∀ q, .queued q ∈ x.2 → ∃ i < k, q.id = MessageIds.successor^[i] c.ids.next
  pending : ∀ id, x.1.table.contains id = true →
    c.table.contains id = true ∨ ∃ i < k, id = MessageIds.successor^[i] c.ids.next

namespace Draws

variable {k k' : Nat} {c : Connection} {x y : Connection × List Occurrence}

/-- Nothing is drawn and nothing queued. -/
theorem quiet (hids : x.1.ids = c.ids) (hseen : ∀ q, .queued q ∉ x.2)
    (hshrinks : c.table.Shrinks x.1.table) : Draws 0 c x :=
  ⟨congrArg MessageIds.next hids, fun q hq => absurd hq (hseen q),
    fun id hid => .inl (hshrinks id hid)⟩

theorem refl (c : Connection) : Draws 0 c (c, []) :=
  quiet rfl (fun _ => List.not_mem_nil) fun _ => id

/-- What is drawn in two steps is drawn in one, and the messages that are queued keep their order.
-/
theorem trans (h : Draws k c x) (h' : Draws k' x.1 y) : Draws (k + k') c (y.1, x.2 ++ y.2) := by
  have hlater (i : Nat) :
      MessageIds.successor^[i] x.1.ids.next = MessageIds.successor^[k + i] c.ids.next := by
    rw [h.next, ← Function.iterate_add_apply, Nat.add_comm]
  have hsooner {id : Int32} (hid : ∃ i < k, id = MessageIds.successor^[i] c.ids.next) :
      ∃ i < k + k', id = MessageIds.successor^[i] c.ids.next := by
    obtain ⟨i, hi, hid⟩ := hid
    exact ⟨i, by omega, hid⟩
  have hthen {id : Int32} (hid : ∃ i < k', id = MessageIds.successor^[i] x.1.ids.next) :
      ∃ i < k + k', id = MessageIds.successor^[i] c.ids.next := by
    obtain ⟨i, hi, hid⟩ := hid
    exact ⟨k + i, by omega, hid.trans (hlater i)⟩
  refine ⟨h'.next.trans (hlater k'), fun q hq => ?_, fun id hid => ?_⟩
  · exact (List.mem_append.1 hq).elim (hsooner <| h.queued q ·) (hthen <| h'.queued q ·)
  · rcases h'.pending id hid with hid | hid
    · exact (h.pending id hid).imp_right hsooner
    · exact .inr (hthen hid)

/-- Only the identifiers and the table count for what is drawn. -/
theorem of_same {d : Connection} (h : Draws k d x) (hids : d.ids = c.ids)
    (htable : d.table = c.table) : Draws k c x := by
  obtain ⟨hnext, hqueued, hpending⟩ := h
  rw [hids] at hnext hqueued hpending
  rw [htable] at hpending
  exact ⟨hnext, hqueued, hpending⟩

/-- A message that is the only one to draw gets the next identifier. -/
theorem id_eq (h : Draws k c x) (hk : k ≤ 1) {q : Message} (hq : .queued q ∈ x.2) :
    q.id = c.ids.next := by
  obtain ⟨i, hi, hid⟩ := h.queued q hq
  obtain rfl : i = 0 := by omega
  exact hid

end Draws

/-- To send a message is not to draw an identifier. -/
theorem ids_send (c : Connection) (m : Message) : (c.send m).2.1.ids = c.ids := by
  rcases c.send_cases m with ⟨-, h⟩ | ⟨-, h⟩ <;> rw [h]

/-- Nothing is queued but the message that is sent. -/
theorem eq_of_queued_send {c : Connection} {m q : Message} (h : .queued q ∈ (c.send m).2.2) :
    q = m := by
  rcases c.send_cases m with ⟨-, heq⟩ | ⟨-, heq⟩
  · rw [heq] at h
    exact Occurrence.queued.inj (List.mem_singleton.1 h)
  · rw [heq] at h
    cases h

/-- A message is sent under an identifier that is drawn for it. -/
theorem draws_send (c : Connection) (op : Operation) (controls : List Control) :
    Draws 1 c ({ c with ids := c.ids.draw.2 }.send ⟨c.ids.draw.1, op, controls⟩).2 := by
  refine ⟨congrArg MessageIds.next (ids_send _ _), fun q hq => ⟨0, Nat.one_pos, ?_⟩,
    fun id hid => ?_⟩
  · rw [eq_of_queued_send hq]
    rfl
  · rw [table_send] at hid
    exact .inl hid

/-- One identifier is drawn for each abandonment that a sign asks for. -/
theorem draws_follow (c : Connection) (s : Sign) :
    Draws (Sign.targets [s]).length c (c.follow s) := by
  cases s with
  | heard owner id event =>
    simp only [follow]
    split
    · exact .refl c
    · next r hr =>
      have hchange : Changes c.table.registrations [] (c.table.registrations.set owner _) :=
        .single (.adjust (r.listener.hear event) r.timer hr)
      exact .quiet rfl (by simp) (Table.shrinks_of_changes hchange fun _ => List.not_mem_nil)
  | abandoning owner id => exact draws_send c _ _
  | answered reply => exact .refl c

theorem draws_followAll (c : Connection) (signs : List Sign) :
    Draws (Sign.targets signs).length c (c.followAll signs) := by
  induction signs generalizing c with
  | nil => exact .refl c
  | cons s signs ih =>
    have htargets : Sign.targets (s :: signs) = Sign.targets [s] ++ Sign.targets signs := by
      rw [Sign.targets, ← List.singleton_append, List.filterMap_append]
      rfl
    rw [htargets, List.length_append]
    exact (draws_follow c s).trans (ih _)

/-- What became of the table is followed after it was taken over. -/
theorem draws_withTable {c : Connection} {x : Table Listener × List Sign}
    (hshrinks : c.table.Shrinks x.1) : Draws (Sign.targets x.2).length c (c.withTable x) := by
  have htaken : Draws 0 c ({ c with table := x.1 }, []) :=
    .quiet rfl (fun _ => List.not_mem_nil) hshrinks
  have hall := htaken.trans (draws_followAll { c with table := x.1 } x.2)
  rwa [Nat.zero_add, List.nil_append] at hall

/-- At most one identifier is drawn for a call that does not register. -/
theorem draws_callTable (c : Connection) (call : Call Listener)
    (hcall : c.table.deedsOfCall call = []) : ∃ k ≤ 1, Draws k c (c.callTable call) :=
  ⟨_, Table.length_targets_call c.table call, draws_withTable (Table.shrinks_call c.table hcall)⟩

theorem draws_shut (c : Connection) (code : ResultCode) (diagnostic : String) :
    Draws 0 c (c.shut code diagnostic) :=
  .quiet rfl (fun _ => List.not_mem_nil) (Table.shrinks_failAll c.table code diagnostic)

/-! ### Requests -/

/-- A submission may draw several identifiers, but draws one if the next is free; and its message
gets one that is free. -/
theorem draws_submit (c : Connection) (op : Operation) (controls : List Control)
    (listener : Listener) :
    (∃ k, Draws k c (c.submit op controls listener).2 ∧
      (c.table.contains c.ids.next = false → k ≤ 1)) ∧
    ∀ q, .queued q ∈ (c.submit op controls listener).2.2 → c.table.contains q.id = false := by
  have hnone : (∃ k, Draws k c (c, []) ∧ (c.table.contains c.ids.next = false → k ≤ 1)) ∧
      ∀ q : Message, .queued q ∈ ([] : List Occurrence) → c.table.contains q.id = false :=
    ⟨⟨0, .refl c, fun _ => Nat.zero_le 1⟩, fun _ hq => absurd hq List.not_mem_nil⟩
  unfold submit
  split
  · exact hnone
  split
  · exact hnone
  obtain ⟨k, hid, hnext, hfree⟩ :=
    MessageIds.exists_drawFree c.table.contains c.table.size c.ids
  generalize c.ids.drawFree c.table.contains c.table.size = drawn at hid hnext
  rcases drawn with ⟨id, ids⟩
  dsimp only at hid hnext ⊢
  have hone (h : c.table.contains c.ids.next = false) : k + 1 ≤ 1 := (hfree h).symm ▸ le_rfl
  split
  · exact ⟨⟨k + 1, ⟨hnext, fun _ hq => absurd hq List.not_mem_nil, fun _ => .inl⟩, hone⟩,
      fun _ hq => absurd hq List.not_mem_nil⟩
  · next table signs hregister =>
    obtain ⟨r, hrid, -, -, -, -, hidfree, -⟩ := Table.register_cases hregister
    rw [hrid] at hidfree
    have hdrawn (other : Int32) (h : table.contains other = true) : c.table.contains other = true ∨
        ∃ i < k + 1, other = MessageIds.successor^[i] c.ids.next :=
      (Table.contains_of_register hregister h).imp_right fun heq =>
        ⟨k, k.lt_succ_self, heq.trans hid⟩
    rcases send_cases { c with ids, table } ⟨id, op, controls⟩ with ⟨-, hsend⟩ | ⟨-, hsend⟩
    · simp only [hsend, if_true]
      have hq {q : Message} (hq : .queued q ∈ [Occurrence.queued ⟨id, op, controls⟩]) :
          q.id = id := by
        rw [Occurrence.queued.inj (List.mem_singleton.1 hq)]
      exact ⟨⟨k + 1, ⟨hnext, fun q h => ⟨k, k.lt_succ_self, (hq h).trans hid⟩, hdrawn⟩, hone⟩,
        fun q h => hq h ▸ hidfree⟩
    · -- nobody writes any more, and the operation is forgotten
      simp only [hsend, Bool.false_eq_true, if_false]
      exact ⟨⟨k + 1, ⟨hnext, fun _ hq => absurd hq List.not_mem_nil, fun other hother =>
        hdrawn other (Table.shrinks_abandon table id other hother)⟩, hone⟩,
        fun _ hq => absurd hq List.not_mem_nil⟩

/-- An abandonment is a message of its own and takes an identifier. -/
theorem draws_abandon (c : Connection) (id : Int32) : Draws (0 + 1) c (c.abandon id).2 := by
  have hforgot : Draws 0 c ({ c with table := (c.table.abandon id).2 }, []) :=
    .quiet rfl (fun _ => List.not_mem_nil) (Table.shrinks_abandon c.table id)
  exact hforgot.trans (draws_send _ _ _)

/-- So does an unbinding, unless the connection is closed already. -/
theorem draws_unbind (c : Connection) : ∃ k ≤ 1, Draws k c c.unbind.2 := by
  unfold unbind
  split
  · exact ⟨0, Nat.zero_le 1, .refl c⟩
  · have hclose (c : Connection) : Draws 0 c ((c.enqueue .close).2, []) := by
      unfold enqueue
      split
      · exact .quiet rfl (fun _ => List.not_mem_nil) fun _ => id
      · exact .refl c
    have hsent := (draws_send c .unbindRequest []).trans (hclose _)
    rw [List.append_nil] at hsent
    exact ⟨1, le_rfl, hsent.trans (draws_shut _ _ _)⟩

/-! ### Tasks -/

theorem draws_afterNotice (c : Connection) (o : Outcome) : Draws 0 c (c.afterNotice o) := by
  rcases c.afterNotice_cases o with ⟨_, diagnostic, -, heq⟩ | ⟨-, heq⟩
  · rw [heq]
    exact draws_shut c _ _
  · rw [heq]
    exact .refl c

/-- A listener that goes on makes the connection draw once at most. -/
theorem draws_proceed (c : Connection) : ∃ k ≤ 1, Draws k c c.proceed := by
  unfold proceed
  split
  · exact ⟨0, Nat.zero_le 1, .refl c⟩
  · next o _ _ =>
    exact ⟨0, Nat.zero_le 1, (draws_afterNotice { c with notice := none } o).of_same rfl rfl⟩
  · have hrelease (c : Connection) : Draws 0 c (c.releaseWriter, []) := by
      unfold releaseWriter
      split
      · exact .quiet rfl (fun _ => List.not_mem_nil) fun _ => id
      · exact .refl c
    have hall := (draws_withTable (Table.shrinks_proceed c.table)).trans (hrelease _)
    rw [List.append_nil] at hall
    exact ⟨_, Table.length_targets_proceed c.table, hall⟩

theorem draws_stopReading (c : Connection) (reason : String) : Draws 0 c (c.stopReading reason) :=
  (draws_shut { c with reading := false } .serverDown reason).of_same rfl rfl

/-- What comes from the server makes the connection draw once at most. -/
theorem draws_accept (c : Connection) (frame : List UInt8) :
    ∃ k ≤ 1, Draws k c (c.accept frame) := by
  have hnone : ∃ k ≤ 1, Draws k c (c, []) := ⟨0, Nat.zero_le 1, .refl c⟩
  have heffect := c.frameEffect_accept frame
  generalize c.accept frame = x at heffect ⊢
  cases heffect with
  | notify m =>
    rcases c.notify_cases m with ⟨-, heq⟩ | ⟨r, o, -, -, heq⟩
    · rw [heq]
      exact hnone
    · rw [heq]
      exact ⟨0, Nat.zero_le 1, .quiet rfl (by simp) fun _ => id⟩
  | deliver => exact draws_callTable c _ rfl
  | complete => exact draws_callTable c _ rfl
  | stop => exact ⟨0, Nat.zero_le 1, draws_stopReading c _⟩
  | fail => exact draws_callTable c _ rfl
  | ignore => exact hnone

theorem draws_read? {c : Connection} {x : Connection × List Occurrence} (hx : c.read? = some x) :
    ∃ k ≤ 1, Draws k c x := by
  rcases read?_cases hx with ⟨-, ⟨frame, inbound, rfl⟩ | ⟨reason, rfl⟩⟩
  · obtain ⟨k, hk, h⟩ := draws_accept { c with inbound } frame
    exact ⟨k, hk, h.of_same rfl rfl⟩
  · exact ⟨0, Nat.zero_le 1, draws_stopReading c _⟩

theorem draws_write? {c : Connection} {x : Connection × List Occurrence} (hx : c.write? = some x) :
    Draws 0 c x := by
  cases writeEffect_of_write? hx with
  | close => exact .quiet rfl (fun _ => List.not_mem_nil) fun _ => id
  | write => exact .quiet rfl (fun _ => List.not_mem_nil) fun _ => id
  | fail m outbox =>
    exact (draws_shut { c with outbox, writerLeaving := true } _ _).of_same rfl rfl

/-! ## Steps and runs -/

end Connection

/-- Whether a move submits a request. -/
def ConnectionMove.submits : ConnectionMove → Bool
  | .request (.submit ..) => true
  | _ => false

namespace Connection

/-- A move draws one identifier at most, except for a submission that finds the next one taken. -/
theorem draws_step (c : Connection) (m : ConnectionMove) :
    ∃ k, Draws k c (c.step m) ∧
      (m.submits = false ∨ c.table.contains c.ids.next = false → k ≤ 1) := by
  have hone {x : Connection × List Occurrence} (hx : ∃ k ≤ 1, Draws k c x) :
      ∃ k, Draws k c x ∧ (m.submits = false ∨ c.table.contains c.ids.next = false → k ≤ 1) :=
    hx.imp fun _ hk => ⟨hk.2, fun _ => hk.1⟩
  have hnone : ∃ k ≤ 1, Draws k c (c, []) := ⟨0, Nat.zero_le 1, .refl c⟩
  cases m with
  | request r =>
    rcases c.step_request r with heq | ⟨-, heq⟩
    · rw [heq]
      exact hone hnone
    rw [heq]
    cases r with
    | submit op controls listener =>
      obtain ⟨⟨k, hk, hle⟩, -⟩ := draws_submit c op controls listener
      exact ⟨k, hk, fun h => hle (h.resolve_left (by simp [ConnectionMove.submits]))⟩
    | abandon id => exact hone ⟨1, le_rfl, draws_abandon c id⟩
    | unbind => exact hone (draws_unbind c)
    | fire timer => exact hone (draws_callTable c (.fire timer) rfl)
    | advance time => exact hone (draws_callTable c (.advance time) rfl)
  | stream change =>
    refine hone ⟨0, Nat.zero_le 1, ?_⟩
    simp only [step, Connection.change]
    repeat' split
    all_goals exact .quiet rfl (fun _ => List.not_mem_nil) fun _ => id
  | proceed => exact hone (draws_proceed c)
  | rearrange owners =>
    have hsame : (c.table.rearrange owners).registrations = c.table.registrations := by
      unfold Table.rearrange
      repeat' split
      all_goals rfl
    have hshrinks : c.table.Shrinks (c.table.rearrange owners) :=
      Table.shrinks_of_changes (hsame ▸ .refl _) fun _ => List.not_mem_nil
    exact hone ⟨0, Nat.zero_le 1, .quiet rfl (fun _ => List.not_mem_nil) hshrinks⟩
  | read =>
    rcases c.step_read with heq | hx
    · rw [heq]
      exact hone hnone
    · exact hone (draws_read? hx)
  | write =>
    rcases c.step_write with heq | ⟨-, hx⟩
    · rw [heq]
      exact hone hnone
    · exact hone ⟨0, Nat.zero_le 1, draws_write? hx⟩

/-- The message of a submission gets an identifier that is free. -/
theorem free_of_submits {c : Connection} {m : ConnectionMove} {q : Message} (hm : m.submits = true)
    (hq : .queued q ∈ (c.step m).2) : c.table.contains q.id = false := by
  unfold ConnectionMove.submits at hm
  split at hm
  · next op controls listener =>
    simp only [step] at hq
    split at hq
    · exact (draws_submit c op controls listener).2 q hq
    · cases hq
  · cases hm

/-- The next identifier is always one that a request may have. -/
theorem next_pos_run {c : Connection} (h : 0 < c.ids.next) (ms : List ConnectionMove) :
    0 < (c.run ms).1.ids.next := by
  induction ms generalizing c with
  | nil => exact h
  | cons m ms ih =>
    obtain ⟨k, hk, -⟩ := draws_step c m
    exact ih (hk.next ▸ MessageIds.iterate_successor_pos h k)

/-- Of the identifiers that follow a first one, at most `n` have been drawn, and every pending
operation has one of these. -/
def Numbered (first : Int32) (n : Nat) (c : Connection) : Prop :=
  ∃ k ≤ n, c.ids.next = MessageIds.successor^[k] first ∧
    ∀ id, c.table.contains id = true → ∃ i < k, id = MessageIds.successor^[i] first

namespace Numbered

variable {first : Int32} {n : Nat} {c : Connection}

/-- At the start nothing was drawn. -/
theorem start (options : Options) :
    Numbered (MessageIds.startingAt options.initialId).next 0 (start options) :=
  ⟨0, le_rfl, rfl, fun _ hid => absurd hid Bool.false_ne_true⟩

/-- In the first round the next identifier is free. -/
theorem free (h : Numbered first n c) (hfirst : 0 < first) (hn : n < 2 ^ 31 - 1) :
    c.table.contains c.ids.next = false := by
  obtain ⟨k, hk, hnext, hpending⟩ := h
  refine Bool.eq_false_iff.2 fun htaken => ?_
  obtain ⟨i, hi, hid⟩ := hpending _ htaken
  exact MessageIds.iterate_successor_ne hfirst hi (by omega) (hid.symm.trans hnext)

/-- A move draws one identifier at most while the identifiers have not gone around. -/
theorem step (h : Numbered first n c) (hfirst : 0 < first) (hn : n < 2 ^ 31 - 1)
    (m : ConnectionMove) : Numbered first (n + 1) (c.step m).1 := by
  obtain ⟨k', hdraws, hle⟩ := draws_step c m
  have hk' := hle (.inr (h.free hfirst hn))
  obtain ⟨k, hk, hnext, hpending⟩ := h
  have hlater (i : Nat) :
      MessageIds.successor^[i] c.ids.next = MessageIds.successor^[k + i] first := by
    rw [hnext, ← Function.iterate_add_apply, Nat.add_comm]
  refine ⟨k + k', by omega, hdraws.next.trans (hlater k'), fun id hid => ?_⟩
  rcases hdraws.pending id hid with hid | ⟨i, hi, hid⟩
  · obtain ⟨i, hi, hid⟩ := hpending id hid
    exact ⟨i, by omega, hid⟩
  · exact ⟨k + i, by omega, hid.trans (hlater i)⟩

/-- So a run draws no more identifiers than it has moves. -/
theorem run (h : Numbered first n c) (hfirst : 0 < first) {ms : List ConnectionMove}
    (hn : n + ms.length ≤ 2 ^ 31 - 1) : Numbered first (n + ms.length) (c.run ms).1 := by
  induction ms generalizing n c with
  | nil => exact h
  | cons m ms ih =>
    rw [List.length_cons] at hn ⊢
    have hrun := ih (h.step hfirst (by omega) m) (by omega)
    rwa [Nat.add_assoc, Nat.add_comm 1] at hrun

end Numbered

/-- In every run, each message that is handed to the writer has an identifier that is greater than
0. That of a submission is one that no pending operation has; that of another message is the next
one, whether or not a pending operation has it. None has it as long as fewer moves went before than
there are identifiers. -/
theorem id_of_queued (options : Options) (before : List ConnectionMove) (m : ConnectionMove)
    (q : Message) :
    let c := ((start options).run before).1
    .queued q ∈ (c.step m).2 →
      0 < q.id ∧
      (m.submits = true → c.table.contains q.id = false) ∧
      (m.submits = false → q.id = c.ids.next) ∧
      (before.length < 2 ^ 31 - 1 → c.table.contains q.id = false) := by
  intro c hq
  have hfirst := MessageIds.startingAt_pos options.initialId
  have hpos : 0 < c.ids.next := next_pos_run (c := start options) hfirst before
  obtain ⟨k, hdraws, hle⟩ := draws_step c m
  refine ⟨?_, fun hm => free_of_submits hm hq, fun hm => hdraws.id_eq (hle (.inl hm)) hq,
    fun hlt => ?_⟩
  · obtain ⟨i, -, hid⟩ := hdraws.queued q hq
    exact hid ▸ MessageIds.iterate_successor_pos hpos i
  · have hnumbered : Numbered _ (0 + before.length) c :=
      (Numbered.start options).run hfirst (by omega)
    have hnext := hnumbered.free hfirst (by omega)
    rwa [hdraws.id_eq (hle (.inr hnext)) hq]

/-- The message by which the second of two operations is abandoned has the third identifier. -/
theorem id_of_abandonment_of_second :
    let c := ((start .usual).run
      [.request (.submit (.deleteRequest ⟨"cn=a"⟩) [] .observer),
        .request (.submit (.deleteRequest ⟨"cn=b"⟩) [] .observer)]).1
    .queued ⟨3, .abandonRequest ⟨2⟩, []⟩ ∈ (c.step (.request (.abandon 2))).2 ∧
      (3 : Int32) = c.ids.next ∧ c.table.contains 3 = false := by
  intro c
  have hqueued : .queued ⟨3, .abandonRequest ⟨2⟩, []⟩ ∈ (c.step (.request (.abandon 2))).2 := by
    decide
  obtain ⟨-, -, hnext, hfree⟩ := id_of_queued .usual _ _ _ hqueued
  exact ⟨hqueued, hnext rfl, hfree (by simp)⟩

/-! ## After a whole round -/

/-- To abandon what is not pending draws an identifier and leaves the table as it is. -/
theorem step_abandon_of_unknown (c : Connection) {id : Int32} (hunknown : c.table.find? id = none)
    (hlistening : c.isListening = true) (hwriting : c.writing = true) :
    c.step (.request (.abandon id)) =
      ({ c with
          ids := c.ids.draw.2
          outbox := c.outbox ++ [.message ⟨c.ids.next, .abandonRequest ⟨id⟩, []⟩] },
        [.queued ⟨c.ids.next, .abandonRequest ⟨id⟩, []⟩]) := by
  have habandon : c.table.abandon id = (false, c.table) := by simp [Table.abandon, hunknown]
  simp [step, hlistening, request, abandon, habandon, sendAbandon, MessageIds.draw, send, enqueue,
    hwriting]

/-- Abandonments of what is not there use up one identifier each and change nothing else. -/
theorem run_abandon_of_unknown (c : Connection) {id : Int32} (hunknown : c.table.find? id = none)
    (hlistening : c.isListening = true) (hwriting : c.writing = true) (n : Nat) :
    (c.run (List.replicate n (.request (.abandon id)))).1.table = c.table ∧
      (c.run (List.replicate n (.request (.abandon id)))).1.writing = true ∧
      (c.run (List.replicate n (.request (.abandon id)))).1.ids.next =
        MessageIds.successor^[n] c.ids.next := by
  induction n generalizing c with
  | zero => exact ⟨rfl, hwriting, rfl⟩
  | succ n ih =>
    have hstep := c.step_abandon_of_unknown hunknown hlistening hwriting
    rw [List.replicate_succ, run, hstep]
    exact ih _ hunknown hlistening hwriting

/-- While an operation without a timeout is pending, some other messages are sent. If the next
identifier is that of the operation then, a message gets it. -/
theorem id_shared_of_next {n : Nat} (hn : MessageIds.successor^[n] 2 = 1) :
    let c := ((start { Options.usual with timeout := none }).run
      (.request (.submit (.deleteRequest ⟨"cn=a"⟩) [] .observer) ::
        List.replicate n (.request (.abandon 2)))).1
    c.table.contains 1 = true ∧
      .queued ⟨1, .abandonRequest ⟨2⟩, []⟩ ∈ (c.step (.request (.abandon 2))).2 ∧
      (c.step (.request (.abandon 2))).1.table.contains 1 = true := by
  intro c
  let first := ((start { Options.usual with timeout := none }).step
    (.request (.submit (.deleteRequest ⟨"cn=a"⟩) [] .observer))).1
  have hsecond : first.ids.next = 2 := by decide
  have hunknown : first.table.find? 2 = none := by decide
  obtain ⟨htable, hwriting, hids⟩ :=
    first.run_abandon_of_unknown hunknown (by decide) (by decide) n
  have htable : c.table = first.table := htable
  have hids : c.ids.next = 1 := hids.trans (hsecond ▸ hn)
  have hstep := c.step_abandon_of_unknown (htable ▸ hunknown)
    (by rw [isListening, htable]; decide) hwriting
  rw [hstep, hids, htable]
  exact ⟨by decide, List.mem_singleton_self _, by decide⟩

/-- An operation that is pending while all other identifiers are given out shares its own with the
next message. -/
theorem id_shared_after_round :
    let c := ((start { Options.usual with timeout := none }).run
      (.request (.submit (.deleteRequest ⟨"cn=a"⟩) [] .observer) ::
        List.replicate (2 ^ 31 - 2) (.request (.abandon 2)))).1
    c.table.contains 1 = true ∧
      .queued ⟨1, .abandonRequest ⟨2⟩, []⟩ ∈ (c.step (.request (.abandon 2))).2 ∧
      (c.step (.request (.abandon 2))).1.table.contains 1 = true := by
  have hround : MessageIds.successor^[2 ^ 31 - 2] (MessageIds.successor 1) = 1 :=
    MessageIds.iterate_successor_round (by decide) (by norm_num)
  have hsecond : MessageIds.successor 1 = 2 := by decide
  rw [hsecond] at hround
  -- the number of messages is too great to be written out
  generalize 2 ^ 31 - 2 = n at hround ⊢
  exact id_shared_of_next hround

end Connection
end Ldap
