import Ldap.Proofs.Pending.Shares

/-!
# Operations under different identifiers

It does not matter in which order actions under different identifiers are made. As a run looks,
from an identifier, like the actions under it alone (`Table.share_actAll`), two runs with the same
actions under each identifier come to the same, in whatever way they are interleaved
(`Table.interleavings_alike`); `Table.swap_alike` says so for two actions that follow one another.
Every action has a time of its own, and what is compared is compared up to times.
-/

namespace Ldap

variable {L : Type}

/-! ## Times aside -/

/-- A timer without its deadline. -/
def Timer.timeless (t : Timer) : Timer :=
  { t with deadline := 0 }

/-- A registration without the time at which it was made. -/
def Registration.timeless (r : Registration L) : Registration L :=
  { r with created := 0, timer := r.timer.map Timer.timeless }

/-- What an answer says, except for the time that went by. -/
def Reply.timeless : Reply → Reply
  | .completed progress => .completed (progress.map fun p => { p with elapsed := 0 })
  | reply => reply

/-- Two things that are told are the same, except for the time that went by until an outcome. -/
inductive Told.Alike : Told → Told → Prop
  | refl (x : Told) : Alike x x
  | result (p : Progress) (elapsed : Nat) (verdict : Verdict) :
    Alike (.heard (.result (p.outcome verdict)))
      (.heard (.result ({ p with elapsed }.outcome verdict)))

/-- Two shares are the same, times aside: the same registrations, each told the same in the same
order, and the same answers to the same actions. -/
structure Share.Alike (x y : Share L) : Prop where
  registrations : x.registrations.map Registration.timeless =
    y.registrations.map Registration.timeless
  told : List.Forall₂ (fun a b => a.1 = b.1 ∧ a.2.Alike b.2) x.told y.told
  answers : x.answers.map (Prod.map id Reply.timeless) = y.answers.map (Prod.map id Reply.timeless)

/-- Two courses are the same from every identifier, times aside, and so are the tables that they
lead to. -/
structure Course.Alike (x y : Course L) : Prop where
  shares : ∀ id, (x.share id).Alike (y.share id)
  registrations : (x.table.registrations.map Registration.timeless).Perm
    (y.table.registrations.map Registration.timeless)
  size : x.table.size = y.table.size
  agenda : x.table.agenda = y.table.agenda
  scheduler : x.table.scheduler = y.table.scheduler
  abandons : x.table.abandons = y.table.abandons

/-! ## Other times -/

/-- Two turns are the same, times aside. -/
structure Turn.Alike (x y : Turn L) : Prop where
  registration : x.registration.timeless = y.registration.timeless
  told : List.Forall₂ Told.Alike x.told y.told
  reply : x.reply.timeless = y.reply.timeless

namespace Registration

/-- Registrations that are the same but for times differ in when they were made and in the deadlines
of their timers. -/
theorem timeless_eq_iff {r s : Registration L} : r.timeless = s.timeless ↔
    ∃ created timer, s = { r with created, timer } ∧
      timer.map Timer.timeless = r.timer.map Timer.timeless := by
  constructor
  · intro h
    obtain ⟨id, kind, created, listener, stage, entries, references, timer⟩ := s
    simp only [timeless, mk.injEq] at h
    obtain ⟨rfl, rfl, -, rfl, rfl, rfl, rfl, htimer⟩ := h
    exact ⟨created, timer, rfl, htimer.symm⟩
  · rintro ⟨created, timer, rfl, htimer⟩
    simp [timeless, htimer]

variable {r s : Registration L}

theorem timeless_cancel (timer : Timer) : timer.cancel.timeless = timer.timeless.cancel := by
  by_cases harmed : timer.state = .armed <;> simp [Timer.cancel, Timer.timeless, harmed]

theorem timeless_count (r : Registration L) (d : Delivery) :
    (r.count d).timeless = r.timeless.count d := by
  cases d <;> rfl

theorem timeless_finish (r : Registration L) (byTimer : Bool) :
    (r.finish byTimer).timeless = r.timeless.finish byTimer := by
  cases byTimer <;> simp [finish, timeless, Function.comp_def, timeless_cancel]

/-- Outcomes differ in nothing but the time that went by. -/
theorem outcome_alike (h : r.timeless = s.timeless) (now now' : Nat) (verdict : Verdict) :
    Told.Alike (.heard (.result ((r.progress now).outcome verdict)))
      (.heard (.result ((s.progress now').outcome verdict))) := by
  obtain ⟨created, timer, rfl, -⟩ := timeless_eq_iff.1 h
  exact .result (r.progress now) (now' - created) verdict

theorem receive_alike (h : r.timeless = s.timeless) (d : Delivery) :
    (r.receive d).Alike (s.receive d) := by
  obtain ⟨created, timer, rfl, -⟩ := timeless_eq_iff.1 h
  refine ⟨?_, List.forall₂_same.2 fun x _ => .refl x, rfl⟩
  simp only [receive, timeless_count, h]

theorem conclude_alike (h : r.timeless = s.timeless) (now now' : Nat) (verdict : Verdict) :
    (r.conclude now verdict).Alike (s.conclude now' verdict) := by
  refine ⟨?_, .cons (outcome_alike h now now' verdict) .nil, ?_⟩
  · simp only [conclude, timeless_finish, h]
  · obtain ⟨created, timer, rfl, -⟩ := timeless_eq_iff.1 h
    rfl

theorem lapse_alike (h : r.timeless = s.timeless) (abandons : Bool) (now now' : Nat) :
    (r.lapse abandons now).Alike (s.lapse abandons now') := by
  have hstage : r.stage = s.stage := show r.timeless.stage = s.timeless.stage by rw [h]
  unfold lapse
  rw [hstage]
  split
  · exact ⟨h, .nil, rfl⟩
  · refine ⟨by simp only [timeless_finish, h], ?_, rfl⟩
    have hresult := outcome_alike h now now' (.timeout abandons)
    cases abandons with
    | false => exact .cons hresult .nil
    | true => exact .cons (.refl _) (.cons hresult .nil)

theorem chime_alike (h : r.timeless = s.timeless) (abandons : Bool) (now now' : Nat) :
    (r.chime abandons now).Alike (s.chime abandons now') := by
  obtain ⟨created, timer, rfl, htimer⟩ := timeless_eq_iff.1 h
  unfold chime
  cases hr : r.timer with
  | none =>
    obtain rfl : timer = none := by simpa [hr] using htimer
    exact ⟨h, .nil, rfl⟩
  | some x =>
    obtain ⟨y, rfl, hxy⟩ : ∃ y, timer = some y ∧ y.timeless = x.timeless := by
      simpa [hr] using htimer
    have hstate : y.state = x.state := show y.timeless.state = x.timeless.state by rw [hxy]
    simp only [hstate]
    split
    · exact ⟨h, .nil, rfl⟩
    · have hfired : y.fire.timeless = x.fire.timeless := congrArg Timer.fire hxy
      have hmarked : ({ r with timer := some x.fire } : Registration L).timeless =
          ({ r with created, timer := some y.fire } : Registration L).timeless := by
        simp [timeless, hfired]
      obtain ⟨hregistration, htold, -⟩ := lapse_alike hmarked abandons now now'
      exact ⟨hregistration, htold, rfl⟩

end Registration

namespace Share

variable {rs rs' : List (Registration L)}

theorem pending?_timeless (rs : List (Registration L)) (id : Int32) :
    pending? (rs.map Registration.timeless) id = pending? rs id := by
  rw [pending?, List.findIdx?_map]
  rfl

theorem pending?_congr (h : rs.map Registration.timeless = rs'.map Registration.timeless)
    (id : Int32) : pending? rs id = pending? rs' id := by
  rw [← pending?_timeless rs, h, pending?_timeless]

/-- Turns that are the same make shares that are. -/
theorem turn_alike (h : rs.map Registration.timeless = rs'.map Registration.timeless)
    (e : Errand L) (place : Option Nat) (miss : Reply) {f g : Registration L → Turn L}
    (hturn : ∀ r s, r.timeless = s.timeless → (f r).Alike (g s)) :
    (turn e rs place miss f).Alike (turn e rs' place miss g) := by
  cases place with
  | none => exact ⟨h, .nil, rfl⟩
  | some n =>
    have hn := congrArg (·[n]?) h
    simp only [List.getElem?_map] at hn
    cases hr : rs[n]? with
    | none =>
      have hs : rs'[n]? = none := by simpa [hr] using hn.symm
      simp only [turn, Option.bind_some, hr, hs, Option.map_none]
      exact ⟨h, .nil, rfl⟩
    | some r =>
      obtain ⟨s, hs, hrs⟩ : ∃ s, rs'[n]? = some s ∧ s.timeless = r.timeless := by
        simpa [hr, eq_comm] using hn
      obtain ⟨hregistration, htold, hreply⟩ := hturn r s hrs.symm
      simp only [turn, Option.bind_some, hr, hs, Option.map_some]
      refine ⟨by simp only [List.map_set, h, hregistration], ?_, by simp [hreply]⟩
      rw [List.forall₂_map_left_iff, List.forall₂_map_right_iff]
      exact htold.imp fun _ _ hab => ⟨rfl, hab⟩

theorem add_alike (h : rs.map Registration.timeless = rs'.map Registration.timeless)
    (e : Errand L) {x y : Turn L} (hxy : x.Alike y) : (add e rs x).Alike (add e rs' y) := by
  have hlength : rs.length = rs'.length := by simpa using congrArg List.length h
  refine ⟨by simp [add, h, hxy.registration], ?_, rfl⟩
  simp only [add, List.forall₂_map_left_iff, List.forall₂_map_right_iff]
  exact hxy.told.imp fun _ _ hab => ⟨hlength, hab⟩

theorem enroll_alike (h : rs.map Registration.timeless = rs'.map Registration.timeless)
    (scheduler : Scheduler) (abandons : Bool) (now now' : Nat) (e : Errand L)
    (kind : OperationKind) (timeout : Option Nat) (listener : L) :
    (enroll scheduler abandons now e rs kind timeout listener).Alike
      (enroll scheduler abandons now' e rs' kind timeout listener) := by
  have hrefused (reply : Reply) : Alike ⟨rs, [], [(e, reply)]⟩ ⟨rs', [], [(e, reply)]⟩ :=
    ⟨h, .nil, rfl⟩
  unfold enroll
  rw [pending?_congr h]
  split
  · exact hrefused _
  split
  · exact hrefused _
  split
  · exact hrefused _
  split
  · exact add_alike h e ⟨rfl, .nil, rfl⟩
  split
  · refine add_alike h e (Registration.lapse_alike ?_ abandons now now')
    rfl
  · exact add_alike h e ⟨rfl, .nil, rfl⟩

/-- An action does the same at any time. -/
theorem deal_alike (h : rs.map Registration.timeless = rs'.map Registration.timeless)
    (scheduler : Scheduler) (abandons : Bool) (now now' : Nat) (e : Errand L) :
    (deal scheduler abandons now e rs).Alike (deal scheduler abandons now' e rs') := by
  unfold deal
  rw [pending?_congr h]
  cases e.action with
  | register kind timeout listener => exact enroll_alike h ..
  | deliver d => exact turn_alike h e _ _ fun r s hrs => Registration.receive_alike hrs d
  | complete verdict =>
    exact turn_alike h e _ _ fun r s hrs => Registration.conclude_alike hrs now now' verdict
  | timeout =>
    exact turn_alike h e _ _ fun r s hrs => Registration.lapse_alike hrs abandons now now'
  | abandon =>
    refine turn_alike h e _ _ fun r s hrs => ⟨?_, .nil, rfl⟩
    simp only [Registration.timeless_finish, hrs]
  | ring n =>
    exact turn_alike h e _ _ fun r s hrs => Registration.chime_alike hrs abandons now now'

/-- The same actions do the same at any times. -/
theorem dealAll_alike (h : rs.map Registration.timeless = rs'.map Registration.timeless)
    (scheduler : Scheduler) (abandons : Bool) {errands errands' : List (Nat × Errand L)}
    (hsame : errands.map (·.2) = errands'.map (·.2)) :
    (dealAll scheduler abandons rs errands).Alike (dealAll scheduler abandons rs' errands') := by
  induction errands generalizing rs rs' errands' with
  | nil =>
    obtain rfl : errands' = [] := by simpa using hsame.symm
    exact ⟨h, .nil, rfl⟩
  | cons x errands ih =>
    obtain ⟨y, errands', rfl⟩ : ∃ y rest, errands' = y :: rest :=
      List.exists_cons_of_ne_nil fun hnil => by simp [hnil] at hsame
    obtain ⟨now, e⟩ := x
    obtain ⟨now', e'⟩ := y
    obtain ⟨rfl, hrest⟩ : e = e' ∧ errands.map (·.2) = errands'.map (·.2) := by
      simpa using hsame
    obtain ⟨hregistrations, htold, hanswers⟩ := deal_alike h scheduler abandons now now' e
    obtain ⟨hregistrations', htold', hanswers'⟩ := ih hregistrations hrest
    exact ⟨hregistrations', List.rel_append htold htold',
      by simp only [dealAll, List.map_append, hanswers, hanswers']⟩

end Share

/-! ## Runs -/

/-- Lists with the same elements of each key, in the same order, have the same elements. -/
theorem perm_of_filter_eq {κ : Type} [DecidableEq κ] (key : α → κ) {l l' : List α}
    (h : ∀ k, l.filter (key · = k) = l'.filter (key · = k)) : l.Perm l' := by
  classical
  refine List.perm_iff_count.2 fun x => ?_
  have hcount (l : List α) : (l.filter (key · = key x)).count x = l.count x :=
    List.count_filter (decide_eq_true rfl)
  rw [← hcount l, h, hcount l']

namespace Table

/-- How two runs come out, if from each identifier they look like the same actions. -/
theorem interleavings_alike {t : Table L} (idle : t.agenda = [])
    {errands errands' : List (Nat × Errand L)}
    (hsame : ∀ id,
      (errands.map (·.2)).filter (·.id = id) = (errands'.map (·.2)).filter (·.id = id)) :
    (t.actAll errands).Alike (t.actAll errands') := by
  have hshares (id : Int32) :
      ((t.actAll errands).share id).Alike ((t.actAll errands').share id) := by
    rw [share_actAll idle, share_actAll idle]
    refine Share.dealAll_alike rfl _ _ ?_
    simpa [List.filter_map, Function.comp_def] using hsame id
  obtain ⟨-, hidle, hscheduler, habandons⟩ := answered_actAll idle errands
  obtain ⟨-, hidle', hscheduler', habandons'⟩ := answered_actAll idle errands'
  have hperm : ((t.actAll errands).table.registrations.map Registration.timeless).Perm
      ((t.actAll errands').table.registrations.map Registration.timeless) :=
    perm_of_filter_eq (·.id) fun id => by
      rw [List.filter_map, List.filter_map]
      exact (hshares id).registrations
  refine ⟨hshares, hperm, ?_, ?_, ?_, ?_⟩
  · have hsize := hperm.countP_eq (·.stage = .pending)
    rw [List.countP_map, List.countP_map] at hsize
    exact hsize
  · rw [hidle, hidle']
  · rw [hscheduler, hscheduler']
  · rw [habandons, habandons']

/-- Two actions that follow one another under different identifiers may change places: every action
is answered as before, each registration is told the same in the same order, and the tables that
the runs lead to are the same, all of it but for times. Listeners make no calls of their own, and
the actions may be made at any times in either run. -/
theorem swap_alike {t : Table L} (idle : t.agenda = []) {before after : List (Errand L)}
    {a b : Errand L} (different : a.id ≠ b.id) {errands errands' : List (Nat × Errand L)}
    (h : errands.map (·.2) = before ++ a :: b :: after)
    (h' : errands'.map (·.2) = before ++ b :: a :: after) :
    (t.actAll errands).answers.map (·.1) = before ++ a :: b :: after ∧
      (t.actAll errands').answers.map (·.1) = before ++ b :: a :: after ∧
      (t.actAll errands).Alike (t.actAll errands') := by
  refine ⟨h ▸ (answered_actAll idle errands).1, h' ▸ (answered_actAll idle errands').1,
    interleavings_alike idle fun id => ?_⟩
  rw [h, h']
  by_cases ha : a.id = id
  · have hb : b.id ≠ id := fun hb => different (ha.trans hb.symm)
    simp [List.filter_cons, hb]
  · simp [List.filter_cons, ha]

/-- While one operation times out, another one is registered: the timer goes off before or after. -/
theorem swap_alike_timer_and_register :
    let t : Table Unit := empty .manual true
    let first : Errand Unit := ⟨1, .register .search (some 10) ()⟩
    let timer : Errand Unit := ⟨1, .ring 0⟩
    let second : Errand Unit := ⟨2, .register .add none ()⟩
    let last : Errand Unit := ⟨2, .complete (.clientSide .serverDown "down")⟩
    t.agenda = [] ∧ timer.id ≠ second.id ∧
      (t.actAll [(0, first), (10, timer), (12, second), (13, last)]).Alike
        (t.actAll [(0, first), (11, second), (15, timer), (15, last)]) := by
  intro t first timer second last
  have idle : t.agenda = [] := rfl
  have different : timer.id ≠ second.id := by decide
  have h : [(0, first), (10, timer), (12, second), (13, last)].map (·.2) =
      [first] ++ timer :: second :: [last] := rfl
  have h' : [(0, first), (11, second), (15, timer), (15, last)].map (·.2) =
      [first] ++ second :: timer :: [last] := rfl
  exact ⟨idle, different, (swap_alike idle different h h').2.2⟩

end Table
end Ldap
