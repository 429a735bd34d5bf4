import Ldap.Proofs.Connection.Settling

/-!
# What an abandoned operation still hears

Abandoning an operation takes it out of the table, and from then on its listener hears nothing. An
operation that stands in the table no more is not found there: while operations are failed one by
one, those whose turn has not come are in that state, and a listener that abandons one of them at
that moment does not keep it from hearing its outcome. `silent_iff_found` says that there is no
other case.
-/

namespace Ldap

open Deed (lifeOf ofSigns ofOccurrences)

/-! ## What is over, and what is not pending -/

theorem Deed.IsLast.not_mem_life {owner : Nat} {ds : List Delivery} {d : Deed}
    (h : IsLast owner d) : d ∉ life owner ds none := by
  rcases h with rfl | ⟨o, rfl⟩ <;> simp [life]

/-- Nothing befalls a registration after its last deed. -/
theorem Deed.eq_nil_of_life {owner : Nat} {ds ds' : List Delivery} {last : Option Deed} {d : Deed}
    {new : List Deed} (h : life owner ds (some d) ++ new = life owner ds' last)
    (hd : IsLast owner d) : new = [] := by
  have hlife : life owner ds' last = life owner ds' none ++ last.toList := by simp [life]
  have hmem (init : List Deed) : d ∈ life owner ds (some d) ++ init := by simp [life]
  rcases List.eq_nil_or_concat new with rfl | ⟨init, x, rfl⟩
  · rfl
  · -- with something after it the last deed would be a delivery
    exfalso
    rw [List.concat_eq_append, ← List.append_assoc, hlife] at h
    cases last with
    | none =>
      rw [Option.toList_none, List.append_nil] at h
      exact hd.not_mem_life (h ▸ List.mem_append_left _ (hmem init))
    | some y => exact hd.not_mem_life ((List.append_inj' h rfl).1 ▸ hmem init)

/-- A registration that is over hears nothing from then on. -/
theorem Connection.Sound.unheard_of_over {c : Connection} {told : List Deed} (hsound : c.Sound told)
    {owner : Nat} {r : Registration Listener} (hr : c.table.registrations[owner]? = some r)
    (hover : r.stage = .over) (ms : List ConnectionMove) (event : Event) :
    .heard owner event ∉ c.chronicle ms := by
  intro hmem
  obtain ⟨ds, last, hlife, hlast, hstage⟩ := hsound.table.recorded.present owner r hr
  obtain ⟨d, rfl⟩ : ∃ d, last = some d :=
    Option.ne_none_iff_exists'.1 fun hnone => hstage.1 hnone hover
  have hnil : lifeOf owner (c.chronicle ms) = [] := by
    rcases (hsound.run ms).table.life owner with ⟨-, hnil⟩ | ⟨ds', last', hlife', -⟩
    · rw [Deed.lifeOf_append, hlife] at hnil
      cases hnil
    · rw [Deed.lifeOf_append, hlife] at hlife'
      exact Deed.eq_nil_of_life hlife' (hlast d rfl)
  have hheard : Deed.heard owner event ∈ lifeOf owner (c.chronicle ms) := by
    simp [lifeOf, hmem, Deed.owner]
  rw [hnil] at hheard
  cases hheard

namespace Table

variable {L : Type}

/-- Whether the registration at a place stands in the table. -/
def IsPendingAt (t : Table L) (owner : Nat) : Prop :=
  ∃ r, t.registrations[owner]? = some r ∧ r.stage = .pending

/-- What stands in the table stood there before, if nothing was registered. -/
theorem IsPendingAt.of_advances {t t' : Table L} {signs : List Sign} {owner : Nat}
    (h : t'.IsPendingAt owner) (ha : t.Advances (ofSigns signs) t') : t.IsPendingAt owner := by
  obtain ⟨s, hs, hp⟩ := h
  obtain ⟨r, hr, hp, -⟩ := ha.changes.exists_pending
    (fun owner => registered_not_mem_ofSigns owner signs) hs hp
  exact ⟨r, hr, hp⟩

theorem IsPendingAt.of_proceed {t : Table L} {owner : Nat} (h : t.proceed.1.IsPendingAt owner) :
    t.IsPendingAt owner := by
  unfold proceed at h
  split at h
  · exact h
  · next a agenda _ =>
    exact IsPendingAt.of_advances (t := { t with agenda }) h (advances_perform _ a)

end Table

namespace Connection

/-- What is in progress puts nothing back into the table. -/
theorem isPendingAt_of_proceed {c : Connection} {owner : Nat}
    (h : c.proceed.1.table.IsPendingAt owner) : c.table.IsPendingAt owner := by
  unfold proceed at h
  split at h
  · exact h
  · next o _ _ =>
    rcases afterNotice_cases { c with notice := none } o with ⟨_, diagnostic, -, heq⟩ | ⟨-, heq⟩
    · rw [heq] at h
      obtain ⟨r, hr, hp⟩ := h
      exact absurd hp (Table.nonePending_failAll c.table _ _ owner r hr)
    · rw [heq] at h
      exact h
  · rw [table_releaseWriter] at h
    have hq := queues_followAll { c with table := c.table.proceed.1 } c.table.proceed.2
    have hadvances : c.table.proceed.1.Advances (ofSigns []) _ := hq.table.advances
    exact (h.of_advances hadvances).of_proceed

theorem isPendingAt_of_run_proceed {c : Connection} {owner n : Nat}
    (h : (c.run (List.replicate n .proceed)).1.table.IsPendingAt owner) :
    c.table.IsPendingAt owner := by
  induction n generalizing c with
  | zero => exact h
  | succ n ih => exact isPendingAt_of_proceed (ih h)

/-- What is in progress tells of nothing but what listeners hear. -/
theorem heard_of_mem_chronicle_proceed {c : Connection} {n : Nat} {d : Deed}
    (h : d ∈ c.chronicle (List.replicate n .proceed)) : ∃ owner event, d = .heard owner event := by
  induction n generalizing c with
  | zero => cases h
  | succ n ih =>
    rcases List.mem_append.1 h with h | h
    · obtain ⟨s, -, hs⟩ := List.mem_filterMap.1 (show d ∈ ofOccurrences c.proceed.2 from h)
      cases s <;> simp only [Deed.ofOccurrence?, Option.some.injEq, reduceCtorEq] at hs
      exact ⟨_, _, hs.symm⟩
    · exact ih h

/-- An operation that was taken out of the table to be failed hears its outcome, if no listener
makes another call. -/
theorem Sound.exists_heard_of_drained {c : Connection} {told : List Deed} (hsound : c.Sound told)
    {owner : Nat} {r : Registration Listener} (hr : c.table.registrations[owner]? = some r)
    (hdrained : r.stage = .drained) : ∃ ms event, .heard owner event ∈ c.chronicle ms := by
  obtain ⟨n, hidle⟩ := c.exists_settled
  refine ⟨List.replicate n .proceed, ?_⟩
  by_contra hnone
  push Not at hnone
  -- its life would be the same at the end, when it has to stand in the table or be over
  have hsame : lifeOf owner (c.chronicle (List.replicate n .proceed)) = [] := by
    refine List.filter_eq_nil_iff.2 fun d hd howner => ?_
    obtain ⟨other, event, rfl⟩ := heard_of_mem_chronicle_proceed hd
    obtain rfl : other = owner := of_decide_eq_true howner
    exact hnone event hd
  obtain ⟨ds, last, hlife, -, hstage⟩ := hsound.table.recorded.present owner r hr
  obtain rfl := hstage.2 (by simp [hdrained])
  rcases (hsound.run (List.replicate n .proceed)).table.life owner with
    ⟨-, hnil⟩ | ⟨ds', last', hlife', hlast, hpending⟩
  · rw [Deed.lifeOf_append, hlife] at hnil
    cases hnil
  · rw [Deed.lifeOf_append, hlife, hsame, List.append_nil] at hlife'
    have hnone : last' = none := by
      refine Option.eq_none_iff_forall_ne_some.2 fun d hd => ?_
      have hmem : d ∈ Deed.life owner ds none := by
        rw [hlife', hd]
        simp [Deed.life]
      exact (hlast d hd).not_mem_life hmem
    obtain ⟨id, hid⟩ := (hpending (idle_of_not_busy hidle).1).2 hnone
    obtain ⟨s, hs, hp, -⟩ := Table.pending_of_find? hid
    obtain ⟨r', hr', hp'⟩ := isPendingAt_of_run_proceed ⟨s, hs, hp⟩
    rw [hr, Option.some.injEq] at hr'
    rw [← hr', hdrained] at hp'
    cases hp'

/-- Abandoning lets the registration that is found be over, and leaves the others as they are. -/
theorem registrations_abandon (c : Connection) (id : Int32) (owner : Nat) :
    (c.abandon id).2.1.table.registrations[owner]? =
      if c.table.find? id = some owner then (c.table.registrations[owner]?).map (·.finish false)
      else c.table.registrations[owner]? := by
  have htable : (c.abandon id).2.1.table = (c.table.abandon id).2 := table_send _ _
  rw [htable, Table.abandon]
  split
  · next hnone => simp [hnone]
  · next place hplace =>
    obtain ⟨r, hr, -⟩ := Table.pending_of_find? hplace
    simp only [hr, hplace, Option.some.injEq]
    split
    · next heq =>
      subst heq
      rw [hr, Table.registrations_put _ hr]
      rfl
    · next hne => rw [Table.put, List.getElem?_set_ne hne]

/-- In every run, whoever calls `abandon`, the owner between calls or a listener while it hears
something: an operation that has not had its outcome hears nothing more, whatever happens from then
on, exactly if it stands in the table at that moment. Between calls it always does. -/
theorem silent_iff_found (options : Options) (before : List ConnectionMove) (id : Int32)
    (owner : Nat) (r : Registration Listener) :
    let c := ((start options).run before).1
    c.isListening = true → c.table.registrations[owner]? = some r → r.stage ≠ .over → r.id = id →
    ((∀ ms event, .heard owner event ∉ (c.step (.request (.abandon id))).1.chronicle ms) ↔
      c.table.find? id = some owner) ∧
    (c.isBusy = false → c.table.find? id = some owner) := by
  intro c hlistening hr hlive hid
  have hsound : c.Sound ((start options).chronicle before) := (sound_start options).run before
  have hstep : c.step (.request (.abandon id)) = (c.abandon id).2 := by
    show (if c.isListening then (c.abandon id).2 else (c, [])) = _
    rw [if_pos hlistening]
  have hsound' := hsound.step (.request (.abandon id))
  have hafter := registrations_abandon c id owner
  rw [← hstep] at hafter
  have hfound (hp : r.stage = .pending) : c.table.find? id = some owner :=
    hsound.table.find?_eq_some_iff.2 ⟨r, hr, hp, hid⟩
  refine ⟨⟨fun hsilent => ?_, fun howner ms event => ?_⟩, fun hidle => ?_⟩
  · by_contra howner
    rw [if_neg howner, hr] at hafter
    -- what is neither over nor found is still to be failed
    have hdrained : r.stage = .drained := by
      have hnot := mt hfound howner
      cases hstage : r.stage <;> simp_all
    obtain ⟨ms, event, hheard⟩ := hsound'.exists_heard_of_drained hafter hdrained
    exact hsilent ms event hheard
  · rw [if_pos howner, hr] at hafter
    exact hsound'.unheard_of_over hafter rfl ms event
  · have hnd := hsound.table.not_drained (idle_of_not_busy hidle).1 hr
    refine hfound ?_
    cases hstage : r.stage <;> simp_all

/-- An operation that is abandoned while it waits for its response hears nothing more. -/
theorem silent_after_abandon_of_pending :
    let c := ((start .usual).run [.request (.submit (.deleteRequest ⟨"cn=a"⟩) [] .observer)]).1
    c.isListening = true ∧ c.table.find? 1 = some 0 ∧
      ∀ ms event, .heard 0 event ∉ (c.step (.request (.abandon 1))).1.chronicle ms := by
  intro c
  have hfound : c.table.find? 1 = some 0 := by decide
  obtain ⟨r, hr, hp, hid⟩ := Table.pending_of_find? hfound
  obtain ⟨hsilent, -⟩ := silent_iff_found .usual
    [.request (.submit (.deleteRequest ⟨"cn=a"⟩) [] .observer)] 1 0 r (by decide) hr (by simp [hp])
    hid
  exact ⟨by decide, hfound, hsilent.2 hfound⟩

/-- When the first of two operations hears that the owner took leave and abandons the second one,
the second one hears so all the same. -/
theorem heard_after_abandon_while_failing :
    let c := ((start .usual).run
      [.request (.submit (.deleteRequest ⟨"cn=a"⟩) [] .observer),
        .request (.submit (.deleteRequest ⟨"cn=b"⟩) [] .observer), .request .unbind, .proceed]).1
    c.table.agenda.head? = some (.hearing 0) ∧ c.isListening = true ∧
      (c.table.registrations[1]?).map (fun r => (r.id, r.stage)) = some (2, .drained) ∧
      lifeOf 1 ((c.step (.request (.abandon 2))).1.chronicle [.proceed, .proceed]) =
        [.heard 1 (.result (.clientSide 2 .delete .userCanceled
          "the connection was closed by an unbind request" 0 0))] := by
  decide

end Connection
end Ldap
