import Ldap.Inbox
import Mathlib.Tactic

/-!
# What is taken from an inbox

The events of a request are what comes for it and, last, its outcome. They are put into its inbox in
this order and taken out of it one by one: `Inbox.Holds` says what is left in the inbox after some
answers were given. Who waits for the outcome instead gets with it what was not taken before.
-/

namespace Ldap

/-! ## What comes for a search -/

/-- The entry in what comes. -/
def Delivery.entry? : Delivery → Option Entry
  | entry e => some e
  | reference _ | intermediate _ => none

/-- The reference in what comes. -/
def Delivery.reference? : Delivery → Option Reference
  | reference r => some r
  | entry _ | intermediate _ => none

/-- The entries and the references in what comes, each in their order. -/
def Found.among (ds : List Delivery) : Found :=
  ⟨ds.filterMap Delivery.entry?, ds.filterMap Delivery.reference?⟩

/-- The events of a request: what came for it, and its outcome if it has one. -/
def eventsOf (came : List Delivery) (last : Option Outcome) : List Event :=
  came.map .delivery ++ last.toList.map .result

theorem length_eventsOf (came : List Delivery) (last : Option Outcome) :
    (eventsOf came last).length = came.length + last.toList.length := by
  rw [eventsOf, List.length_append, List.length_map, List.length_map]

theorem eventsOf_append_singleton (came : List Delivery) (d : Delivery) :
    eventsOf (came ++ [d]) none = eventsOf came none ++ [.delivery d] := by
  simp [eventsOf]

theorem eventsOf_some (came : List Delivery) (o : Outcome) :
    eventsOf came (some o) = eventsOf came none ++ [.result o] := by
  simp [eventsOf]

/-- Only what stands behind all that came is an outcome. -/
theorem kind_eq_result_iff {came : List Delivery} {last : Option Outcome} {n : Nat} {e : Event}
    (h : (eventsOf came last)[n]? = some e) : e.kind = .result ↔ last.isSome ∧ came.length ≤ n := by
  rcases Nat.lt_or_ge n came.length with hlt | hge
  · rw [eventsOf, List.getElem?_append_left (by simpa using hlt), List.getElem?_map,
      List.getElem?_eq_getElem hlt] at h
    obtain rfl : Event.delivery came[n] = e := Option.some.inj h
    have hkind : (Event.delivery came[n]).kind ≠ .result := by
      cases came[n] <;> exact nofun
    simp [hkind, hlt]
  · rw [eventsOf, List.getElem?_append_right (by simpa using hge), List.length_map,
      List.getElem?_map] at h
    obtain ⟨o, ho, rfl⟩ := Option.map_eq_some_iff.1 h
    cases last with
    | none => cases ho
    | some o => simp [Event.kind, hge]

/-! ## Inboxes -/

/-- What is answered to somebody who takes the next event. -/
abbrev Answer := Except SessionError (Option Event)

/-- The answer in what a connection says, unless it lets wait. -/
def Answer.of? : Except SessionError (Awaited (Option Event)) → Option Answer
  | .ok (.ready e) => some (.ok e)
  | .ok .waiting => none
  | .error e => some (.error e)

namespace Inbox

/-- An inbox holds the events of a request that were not taken, where some answers were given: the
events in their order, and that there are none after the outcome. Before there is an outcome no
more is taken than came. -/
structure Holds (i : Inbox) (came : List Delivery) (last : Option Outcome)
    (answers : List Answer) : Prop where
  events_eq : i.events = (eventsOf came last).drop answers.length
  answered : ∀ (k : Nat) (a : Answer), answers[k]? = some a → a = Except.ok (eventsOf came last)[k]?
  finished_iff : i.finished = true ↔ last.isSome ∧ came.length < answers.length
  taken_le : last = none → answers.length ≤ came.length

variable {i : Inbox} {came : List Delivery} {last : Option Outcome} {answers : List Answer}

theorem holds_empty : empty.Holds [] none [] :=
  ⟨rfl, nofun, by simp [empty], fun _ => le_rfl⟩

namespace Holds

/-- Whether more can come makes no difference to what an inbox holds. -/
theorem attached (h : i.Holds came last answers) (b : Bool) :
    { i with attached := b }.Holds came last answers :=
  ⟨h.events_eq, h.answered, h.finished_iff, h.taken_le⟩

theorem finished_eq_false (h : i.Holds came none answers) : i.finished = false :=
  Bool.eq_false_iff.2 fun hfinished => by simpa using h.finished_iff.1 hfinished

/-- An event that is put in stands behind the others. -/
theorem events_put (h : i.Holds came none answers) (e : Event) :
    (i.put e).events = (eventsOf came none ++ [e]).drop answers.length := by
  have hle : answers.length ≤ (eventsOf came none).length := by
    simpa [length_eventsOf] using h.taken_le rfl
  rw [put, h.events_eq, List.drop_append_of_le_length hle]

/-- Answers that were given stay right when another event comes. -/
theorem answered_append (h : i.Holds came none answers) (e : Event) {k : Nat} {a : Answer}
    (ha : answers[k]? = some a) : a = Except.ok (eventsOf came none ++ [e])[k]? := by
  have hk : k < (eventsOf came none).length := by
    have hlt := (List.getElem?_eq_some_iff.1 ha).1
    simpa [length_eventsOf] using lt_of_lt_of_le hlt (h.taken_le rfl)
  rw [h.answered k a ha, List.getElem?_append_left hk]

theorem put_delivery (h : i.Holds came none answers) (d : Delivery) :
    (i.put (.delivery d)).Holds (came ++ [d]) none answers := by
  have heq := eventsOf_append_singleton came d
  refine ⟨heq ▸ h.events_put _, fun k a ha => heq ▸ h.answered_append _ ha, ?_, fun _ => ?_⟩
  · simp [put, h.finished_eq_false]
  · have hle := h.taken_le rfl
    rw [List.length_append]
    omega

theorem put_result (h : i.Holds came none answers) (o : Outcome) :
    (i.put (.result o)).Holds came (some o) answers := by
  have heq := eventsOf_some came o
  refine ⟨heq ▸ h.events_put _, fun k a ha => heq ▸ h.answered_append _ ha, ?_, nofun⟩
  have hle := h.taken_le rfl
  simp [put, h.finished_eq_false, hle]

/-- The answer that was given stands behind the others. -/
theorem answered_concat (h : i.Holds came last answers) {k : Nat} {a : Answer}
    (ha : (answers ++ [Except.ok (eventsOf came last)[answers.length]?])[k]? = some a) :
    a = Except.ok (eventsOf came last)[k]? := by
  rcases Nat.lt_trichotomy k answers.length with hlt | rfl | hgt
  · rw [List.getElem?_append_left hlt] at ha
    exact h.answered k a ha
  · rw [List.getElem?_concat_length] at ha
    exact (Option.some.inj ha).symm
  · rw [List.getElem?_eq_none (by simpa using Nat.succ_le_of_lt hgt)] at ha
    cases ha

/-- Whoever takes the next event waits, if nothing is left and something may come; else the next of
the events is the answer, or that there are no more. -/
theorem next (h : i.Holds came last answers) (hopen : last = none → i.attached = true) :
    (last = none ∧ i.next = (.ok .waiting, i)) ∨
      (i.next.1 = .ok (.ready (eventsOf came last)[answers.length]?) ∧
        i.next.2.Holds came last
          (answers ++ [Except.ok (eventsOf came last)[answers.length]?])) := by
  have hlength := length_eventsOf came last
  by_cases hfinished : i.finished = true
  · -- nothing is left, and nothing will come
    obtain ⟨hsome, hlt⟩ := h.finished_iff.1 hfinished
    obtain ⟨o, rfl⟩ := Option.isSome_iff_exists.1 hsome
    have hle : (eventsOf came (some o)).length ≤ answers.length := by
      rw [hlength]
      exact hlt
    have hnext : i.next = (.ok (.ready (eventsOf came (some o))[answers.length]?), i) := by
      rw [Inbox.next, if_pos hfinished, List.getElem?_eq_none hle]
    rw [hnext]
    refine .inr ⟨rfl, ?_, fun k a => h.answered_concat, ?_, nofun⟩
    · rw [h.events_eq, List.drop_eq_nil_of_le hle, List.drop_eq_nil_of_le (by simp; omega)]
    · simp [hfinished]
      omega
  · have heq := h.events_eq
    cases hevents : i.events with
    | nil =>
      -- nothing is left so far
      rw [hevents, eq_comm, List.drop_eq_nil_iff] at heq
      have hnone : last = none := by
        by_contra hne
        obtain ⟨o, rfl⟩ := Option.ne_none_iff_exists'.1 hne
        rw [hlength] at heq
        exact hfinished (h.finished_iff.2 ⟨rfl, heq⟩)
      refine .inl ⟨hnone, ?_⟩
      rw [Inbox.next, if_neg hfinished, hevents]
      simp [hopen hnone]
    | cons e events =>
      rw [hevents] at heq
      have hhead : (eventsOf came last)[answers.length]? = some e := by
        rw [← List.head?_drop, ← heq, List.head?_cons]
      have hnext : i.next =
          (.ok (.ready (some e)), { i with events, finished := e.kind = .result }) := by
        rw [Inbox.next, if_neg hfinished, hevents]
      rw [hnext]
      refine .inr ⟨by rw [hhead], ?_, fun k a => h.answered_concat, ?_, fun hnone => ?_⟩
      · rw [List.length_append, List.length_singleton, ← List.tail_drop, ← heq, List.tail_cons]
      · simp [kind_eq_result_iff hhead]
      · have hlt := (List.getElem?_eq_some_iff.1 hhead).1
        rw [hlength, hnone] at hlt
        simpa using hlt

end Holds

/-! ## The outcome with what came before -/

/-- The outcome among the events of a request, with what came before. -/
theorem resultAmong_eventsOf (found : Found) (came : List Delivery) (o : Outcome) :
    resultAmong found (eventsOf came (some o)) =
      some (collect ⟨found.entries ++ (Found.among came).entries,
        found.references ++ (Found.among came).references⟩ o) := by
  induction came generalizing found with
  | nil => simp [eventsOf, resultAmong, Found.among]
  | cons d came ih =>
    have hcons : eventsOf (d :: came) (some o) = .delivery d :: eventsOf came (some o) := rfl
    rw [hcons]
    simp only [Found.among, List.filterMap_cons]
    cases d with
    | entry e => simp [resultAmong, ih, Found.among, Delivery.entry?, Delivery.reference?]
    | reference r => simp [resultAmong, ih, Found.among, Delivery.entry?, Delivery.reference?]
    | intermediate r => simp [resultAmong, ih, Found.among, Delivery.entry?, Delivery.reference?]

/-- Whoever waits for the outcome gets it with what came and was not taken. -/
theorem Holds.result {o : Outcome} (h : i.Holds came (some o) answers)
    (huntaken : answers.length ≤ came.length) :
    i.result = .ok (.ready (collect (Found.among (came.drop answers.length)) o)) := by
  have hfinished : i.finished ≠ true := fun hfinished =>
    absurd (h.finished_iff.1 hfinished).2 (not_lt.2 huntaken)
  have hevents : i.events = eventsOf (came.drop answers.length) (some o) := by
    rw [h.events_eq, eventsOf_some, eventsOf_some, eventsOf, eventsOf,
      List.drop_append_of_le_length (by simpa using huntaken)]
    simp
  rw [Inbox.result, if_neg hfinished, hevents, resultAmong_eventsOf]
  rfl

end Inbox
end Ldap
