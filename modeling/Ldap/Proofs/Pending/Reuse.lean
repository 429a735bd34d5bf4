import Ldap.Proofs.Pending.Life

/-!
# Identifiers that are used again

An identifier is free again as soon as the registration that had it is out of the table, while a
timer, a call in progress or a list of operations that are still to be failed may hold on to that
registration. `others_unharmed` says that no such thing reaches a registration that was made since
under the same identifier, or any other one but its own.

Every move but the one that takes all operations out of the table is about at most one registration,
`Table.subject?`, and `Confined` says what it is for the others to be left alone.
-/

namespace Ldap

variable {L : Type}

/-- The registration that a sign tells of. -/
def Sign.owner? : Sign → Option Nat
  | .heard owner .. | .abandoning owner _ => some owner
  | .answered _ => none

theorem Deed.owner?_of_ofSign? {s : Sign} {d : Deed} (h : Deed.ofSign? s = some d) :
    s.owner? = some d.owner := by
  cases s with
  | heard owner id event =>
    cases h
    rfl
  | abandoning owner id => cases h
  | answered reply => cases h

namespace Table

/-! ## What moves are about -/

/-- The registration that a call is about: the new one, the pending one with an identifier, or the
one that armed a timer. -/
def subjectOfCall? (t : Table L) : Call L → Option Nat
  | .register .. => some t.registrations.length
  | .deliver id _ | .complete id _ | .timeout id | .abandon id => t.find? id
  | .fire timer => t.timerOwners[timer]?
  | .failAll .. | .advance _ | .query _ | .describe => none

/-- The registration that something on the agenda is about: the one that is failed next, or the one
whose timer goes off next. -/
def subjectOfActivity? (t : Table L) : Activity → Option Nat
  | .failing (owner :: _) .. => some owner
  | .ringing => t.nextDue?
  | .failing [] .. | .hearing _ | .answering _ => none

/-- The registration that a move is about. -/
def subject? (t : Table L) : Move L → Option Nat
  | .call c => if t.isListening then t.subjectOfCall? c else none
  | .proceed => t.agenda.head?.bind t.subjectOfActivity?
  | .rearrange _ => none

/-! ## To whom timers belong -/

theorem timerOwners_of_map_eq {t t' : Table L}
    (h : t'.registrations.map (·.timer.isSome) = t.registrations.map (·.timer.isSome)) :
    t'.timerOwners = t.timerOwners := by
  have hlength : t'.registrations.length = t.registrations.length := by
    simpa using congrArg List.length h
  unfold timerOwners
  rw [hlength]
  refine List.filter_congr fun owner _ => ?_
  have hat := congrArg (·[owner]?) h
  simp only [List.getElem?_map] at hat
  cases hr : t.registrations[owner]? <;> cases hr' : t'.registrations[owner]? <;>
    simp_all

/-- As long as a timer is neither given nor taken away, the timers stay with their owners. -/
theorem timerOwners_put {t : Table L} {place : Nat} {r r' : Registration L}
    (there : t.registrations[place]? = some r) (h : r'.timer.isSome = r.timer.isSome) :
    (t.put place r').timerOwners = t.timerOwners :=
  timerOwners_of_map_eq (map_set_of_getElem? there h)

/-- A registration that is added comes last, also among those with a timer. -/
theorem timerOwners_add (t : Table L) (r : Registration L) :
    timerOwners { t with registrations := t.registrations ++ [r] } =
      t.timerOwners ++ if r.timer.isSome then [t.registrations.length] else [] := by
  unfold timerOwners
  rw [List.length_append, List.length_singleton, List.range_succ, List.filter_append]
  congr 1
  · refine List.filter_congr fun owner howner => ?_
    rw [List.getElem?_append_left (List.mem_range.1 howner)]
  · simp [List.filter_singleton]

theorem timerOwners_failAll (t : Table L) (code : ResultCode) (diagnostic : String) :
    (t.failAll code diagnostic).timerOwners = t.timerOwners := by
  apply timerOwners_of_map_eq
  rw [failAll, List.map_map]
  refine List.map_congr_left fun r _ => ?_
  simp only [Function.comp, Registration.drain]
  split <;> rfl

/-! ## What is left alone -/

theorem isLive_iff {t : Table L} {owner : Nat} :
    t.isLive owner = true ↔ ∃ r, t.registrations[owner]? = some r ∧ r.stage ≠ .over := by
  rw [isLive, Option.any_eq_true]
  simp only [decide_eq_true_eq]

/-- What happened concerned at most one registration: the others are as they were, the signs tell of
this one, if it was not over before, nothing comes to life again, and all timers belong to whom they
belonged. -/
structure Confined (t : Table L) (place : Option Nat) (signs : List Sign) (t' : Table L) :
    Prop where
  others : ∀ other, place ≠ some other → t'.registrations[other]? = t.registrations[other]?
  told : ∀ s ∈ signs, ∀ owner, s.owner? = some owner →
    place = some owner ∧ t.isLive owner = true
  live : ∀ owner, t'.isLive owner = true → t.isLive owner = true
  timers : t'.timerOwners = t.timerOwners

namespace Confined

/-- Nothing happened to registrations. -/
theorem of_same {t t' : Table L} (h : t'.registrations = t.registrations) (place : Option Nat) :
    t.Confined place [] t' where
  others _ _ := by rw [h]
  told := nofun
  live owner := by
    rw [isLive, isLive, h]
    exact id
  timers := timerOwners_of_map_eq (by rw [h])

theorem refl (t : Table L) (place : Option Nat) : t.Confined place [] t :=
  .of_same rfl place

theorem trans {t t' t'' : Table L} {place : Option Nat} {signs later : List Sign}
    (h : t.Confined place signs t') (h' : t'.Confined place later t'') :
    t.Confined place (signs ++ later) t'' where
  others _ hother := (h'.others _ hother).trans (h.others _ hother)
  told s hs owner howner := by
    rcases List.mem_append.1 hs with hs | hs
    · exact h.told s hs owner howner
    · exact (h'.told s hs owner howner).imp_right (h.live owner)
  live owner howner := h.live owner (h'.live owner howner)
  timers := h'.timers.trans h.timers

/-- Replacing a registration concerns this one. -/
theorem put {t : Table L} {place : Nat} {r r' : Registration L}
    (there : t.registrations[place]? = some r) (h : r'.timer.isSome = r.timer.isSome)
    (hlive : r'.stage ≠ .over → r.stage ≠ .over) :
    t.Confined (some place) [] (t.put place r') where
  others _ hother := List.getElem?_set_ne fun heq => hother (congrArg some heq)
  told := nofun
  live owner := by
    rw [isLive_iff, isLive_iff]
    rintro ⟨s, hs, hsout⟩
    by_cases heq : place = owner
    · subst heq
      rw [registrations_put r' there] at hs
      obtain rfl := Option.some.inj hs
      exact ⟨r, there, hlive hsout⟩
    · rw [Table.put, List.getElem?_set_ne heq] at hs
      exact ⟨s, hs, hsout⟩
  timers := timerOwners_put there h

/-- Nobody else is concerned where signs tell of the same registration. -/
theorem tell {t t' : Table L} {place : Option Nat} {signs : List Sign}
    (h : t.Confined place [] t')
    (told : ∀ s ∈ signs, ∀ owner, s.owner? = some owner →
      place = some owner ∧ t.isLive owner = true) : t.Confined place signs t' :=
  ⟨h.others, told, h.live, h.timers⟩

end Confined

theorem confined_finish {t t' : Table L} {place : Nat} {byTimer : Bool} {verdict : Verdict}
    {p : Progress} {signs : List Sign} (h : t.finish place byTimer verdict = some (p, t', signs)) :
    t.Confined (some place) signs t' := by
  obtain ⟨r, hr, hlive, -, rfl, rfl⟩ := exists_live_of_finish h
  refine (Confined.put hr ?_ fun hover => absurd rfl hover).tell ?_
  · cases byTimer <;> simp [Registration.finish]
  · intro s hs owner howner
    obtain rfl : place = owner := by
      rcases List.mem_append.1 hs with hs | hs
      · split at hs
        · cases List.mem_singleton.1 hs
          exact Option.some.inj howner
        · cases hs
      · cases List.mem_singleton.1 hs
        exact Option.some.inj howner
    exact ⟨rfl, isLive_iff.2 ⟨r, hr, hlive⟩⟩

theorem confined_expire (t : Table L) (place : Nat) :
    t.Confined (some place) (t.expire place).2.2 (t.expire place).2.1 := by
  unfold expire
  split
  · next h => exact confined_finish h
  · exact .refl t _

theorem confined_complete (t : Table L) (id : Int32) (verdict : Verdict) :
    t.Confined (t.find? id) (t.complete id verdict).2.2 (t.complete id verdict).2.1 := by
  unfold complete
  split
  · next h =>
    obtain ⟨place, hplace, hfinish⟩ := Option.bind_eq_some_iff.1 h
    rw [hplace]
    exact confined_finish hfinish
  · exact .refl t _

theorem confined_timeout (t : Table L) (id : Int32) :
    t.Confined (t.find? id) (t.timeout id).2.2 (t.timeout id).2.1 := by
  unfold timeout
  split
  · next hplace =>
    rw [hplace]
    exact confined_expire t _
  · exact .refl t _

theorem confined_abandon (t : Table L) (id : Int32) :
    t.Confined (t.find? id) [] (t.abandon id).2 := by
  unfold abandon
  split
  · exact .refl t _
  · next place hplace =>
    rw [hplace]
    split
    · exact .refl t _
    · next r hr => exact .put hr (by simp [Registration.finish]) fun hover => absurd rfl hover

theorem confined_deliver (t : Table L) (id : Int32) (d : Delivery) :
    t.Confined (t.find? id) (t.deliver id d).2.2 (t.deliver id d).2.1 := by
  unfold deliver
  split
  · exact .refl t _
  · next place hplace =>
    obtain ⟨r, hr, hpending, -⟩ := pending_of_find? hplace
    have hput : t.Confined (some place) [] (t.put place (r.count d)) :=
      .put hr (by cases d <;> rfl) fun _ => by simp [hpending]
    rw [hplace]
    simp only [hr]
    split
    · refine hput.tell fun s hs owner howner => ?_
      cases List.mem_singleton.1 hs
      exact ⟨howner, isLive_iff.2 ⟨r, Option.some.inj howner ▸ hr, by simp [hpending]⟩⟩
    · exact hput

/-- A timer concerns the registration that it belongs to, whatever has its identifier by now. -/
theorem confined_ring (t : Table L) (place : Nat) :
    t.Confined (some place) (t.ring place).2.2 (t.ring place).2.1 := by
  unfold ring
  split
  · exact .refl t _
  next r hr =>
  split
  · exact .refl t _
  next timer htimer =>
  split
  · exact .refl t _
  · have hput : t.Confined (some place) [] (t.put place { r with timer := some timer.fire }) :=
      .put hr (by simp [htimer]) id
    exact hput.trans (confined_expire _ place)

theorem confined_fire (t : Table L) (timer : Nat) :
    t.Confined t.timerOwners[timer]? (t.fire timer).2.2 (t.fire timer).2.1 := by
  unfold fire
  split
  · next place hplace =>
    rw [hplace]
    exact confined_ring t place
  · exact .refl t _

/-- Adding a registration leaves the others alone. -/
theorem getElem?_add {rs : List (Registration L)} (r : Registration L) {other : Nat}
    (hne : rs.length ≠ other) : (rs ++ [r])[other]? = rs[other]? := by
  rw [List.getElem?_append]
  split
  · rfl
  · rw [List.getElem?_singleton, if_neg (by omega), List.getElem?_eq_none (by omega)]

/-- Registering an operation adds a registration, and concerns nobody else. -/
theorem confined_register {t t' : Table L} {id : Int32} {kind : OperationKind}
    {timeout : Option Nat} {listener : L} {signs : List Sign}
    (h : t.register id kind timeout listener = .ok (t', signs)) :
    ∃ r, Confined { t with registrations := t.registrations ++ [r] }
      (some t.registrations.length) signs t' := by
  obtain ⟨r, -, -, -, -, -, -, ⟨rfl, rfl⟩ | ⟨-, hexpire⟩⟩ := register_cases h
  · exact ⟨r, .refl _ _⟩
  · have hexpires := confined_expire { t with registrations := t.registrations ++ [r] }
      t.registrations.length
    rw [hexpire] at hexpires
    exact ⟨r, hexpires⟩

/-! ## Steps -/

/-- What is put on the agenda changes no registration. -/
theorem Confined.resume {t t' : Table L} {place : Option Nat} {signs : List Sign}
    (h : t.Confined place signs t') (rest : List Activity) :
    t.Confined place (t'.resume signs rest).2 (t'.resume signs rest).1 :=
  ⟨h.others, h.told, h.live, h.timers⟩

/-- What is done for a call in progress concerns the registration that it is about. -/
theorem confined_perform (t : Table L) (a : Activity) :
    t.Confined (t.subjectOfActivity? a) (t.perform a).2 (t.perform a).1 := by
  cases a with
  | hearing owner => exact .refl t _
  | answering reply =>
    refine (Confined.refl t none).tell fun s hs owner howner => ?_
    cases List.mem_singleton.1 hs
    cases howner
  | ringing =>
    simp only [perform, subjectOfActivity?]
    split
    · exact .refl t _
    · next owner howner =>
      rw [howner]
      exact (confined_ring t owner).resume _
  | failing owners code diagnostic finished =>
    cases owners with
    | nil => exact (Confined.refl t none).resume _
    | cons owner owners =>
      simp only [perform, subjectOfActivity?]
      split
      · next h => exact (confined_finish h).resume _
      · exact (Confined.refl t _).resume _

theorem confined_proceed (t : Table L) :
    t.Confined (t.agenda.head?.bind t.subjectOfActivity?) t.proceed.2 t.proceed.1 := by
  unfold proceed
  cases t.agenda with
  | nil => exact .refl t _
  | cons a agenda =>
    -- what is concerned does not depend on what else is on the agenda
    have h := confined_perform { t with agenda } a
    exact ⟨h.others, h.told, h.live, h.timers⟩

theorem confined_rearrange (t : Table L) (owners : List Nat) :
    t.Confined none [] (t.rearrange owners) := by
  unfold rearrange
  split
  · split
    · exact .of_same (by rfl) none
    · exact .refl t _
  · exact .refl t _

/-- A call concerns the registration that it is about, which may be one that it makes, unless it
takes all of them out of the table. -/
theorem confined_call (t : Table L) (c : Call L) :
    (∃ code diagnostic, c = .failAll code diagnostic) ∨
      t.Confined (t.subjectOfCall? c) (t.call c).2 (t.call c).1 ∨
      (∃ id kind timeout listener, c = .register id kind timeout listener) ∧
        ∃ r, Confined { t with registrations := t.registrations ++ [r] }
          (some t.registrations.length) (t.call c).2 (t.call c).1 := by
  cases c with
  | failAll code diagnostic => exact .inl ⟨code, diagnostic, rfl⟩
  | register id kind timeout listener =>
    right
    cases h : t.register id kind timeout listener with
    | error e =>
      simp only [call, h]
      exact .inl ((Confined.refl t _).resume _)
    | ok x =>
      obtain ⟨r, hadded⟩ := confined_register h
      simp only [call, h]
      exact .inr ⟨⟨id, kind, timeout, listener, rfl⟩, r, hadded.resume _⟩
  | deliver id d => exact .inr (.inl ((confined_deliver t id d).resume _))
  | complete id verdict => exact .inr (.inl ((confined_complete t id verdict).resume _))
  | timeout id => exact .inr (.inl ((confined_timeout t id).resume _))
  | abandon id => exact .inr (.inl ((confined_abandon t id).resume _))
  | fire timer => exact .inr (.inl ((confined_fire t timer).resume _))
  | advance time =>
    have hclock : t.Confined none [] { t with now := t.now + time } :=
      .of_same (by rfl) none
    exact .inr (.inl (hclock.resume _))
  | query id => exact .inr (.inl ((Confined.refl t none).resume _))
  | describe => exact .inr (.inl ((Confined.refl t none).resume _))

/-- A move does what it does to the registration that it is about. -/
theorem confined_step (t : Table L) (m : Move L) :
    (∃ code diagnostic, m = .call (.failAll code diagnostic) ∧
      (t.step m).1.timerOwners = t.timerOwners) ∨
      t.Confined (t.subject? m) (t.step m).2 (t.step m).1 ∨
      (∃ id kind timeout listener, m = .call (.register id kind timeout listener)) ∧
        t.subject? m = some t.registrations.length ∧
        ∃ r, Confined { t with registrations := t.registrations ++ [r] }
          (some t.registrations.length) (t.step m).2 (t.step m).1 := by
  cases m with
  | rearrange owners => exact .inr (.inl (confined_rearrange t owners))
  | proceed => exact .inr (.inl (confined_proceed t))
  | call c =>
    simp only [step, subject?]
    cases t.isListening with
    | false => exact .inr (.inl (.refl t _))
    | true =>
      rcases confined_call t c with ⟨code, diagnostic, rfl⟩ | h | ⟨hregister, h⟩
      · exact .inl ⟨code, diagnostic, rfl, timerOwners_failAll t code diagnostic⟩
      · exact .inr (.inl h)
      · obtain ⟨id, kind, timeout, listener, rfl⟩ := hregister
        exact .inr (.inr ⟨⟨id, kind, timeout, listener, rfl⟩, rfl, h⟩)

/-- Unless all registrations are taken out of the table, those that a move is not about are as they
were, and the signs tell of none of them. -/
theorem others_step (t : Table L) {m : Move L}
    (hm : ∀ code diagnostic, m ≠ .call (.failAll code diagnostic)) {other : Nat}
    (hother : t.subject? m ≠ some other) :
    (t.step m).1.registrations[other]? = t.registrations[other]? ∧
      ∀ s ∈ (t.step m).2, s.owner? ≠ some other := by
  rcases confined_step t m with ⟨code, diagnostic, heq, -⟩ | h | ⟨-, hplace, r, h⟩
  · exact absurd heq (hm code diagnostic)
  · exact ⟨h.others other hother, fun s hs howner => hother (h.told s hs other howner).1⟩
  · rw [hplace] at hother
    refine ⟨(h.others other hother).trans (getElem?_add r fun heq => hother (congrArg some heq)),
      fun s hs howner => hother (h.told s hs other howner).1⟩

/-- The timers stay with their owners, and one that is armed when an operation is registered belongs
to the registration that is made. -/
theorem timerOwners_step (t : Table L) (m : Move L) :
    (t.step m).1.timerOwners = t.timerOwners ∨
      (∃ id kind timeout listener, m = .call (.register id kind timeout listener)) ∧
        (t.step m).1.timerOwners = t.timerOwners ++ [t.registrations.length] := by
  rcases confined_step t m with ⟨-, -, -, h⟩ | h | ⟨hregister, -, r, h⟩
  · exact .inl h
  · exact .inl h.timers
  · rw [h.timers, timerOwners_add]
    cases r.timer.isSome
    · exact .inl (List.append_nil _)
    · exact .inr ⟨hregister, rfl⟩

end Table

/-! ## Those that are still to be failed -/

/-- A registration that is not pending does not become so. -/
theorem Change.not_pending {rs rs' : List (Registration L)} {deeds : List Deed}
    (h : Change rs deeds rs') {owner : Nat} {r : Registration L} (hr : rs[owner]? = some r)
    (hout : r.stage ≠ .pending) : ∃ s, rs'[owner]? = some s ∧ s.stage ≠ .pending := by
  have hlt : owner < rs'.length :=
    lt_of_lt_of_le (List.getElem?_eq_some_iff.1 hr).1 (Changes.single h).length_le
  refine ⟨_, List.getElem?_eq_getElem hlt, fun hp => ?_⟩
  rcases h.origin (List.getElem?_eq_getElem hlt) (by simp [hp]) with ⟨r', hr', hstage, -⟩ | ⟨heq, -⟩
  · obtain rfl := Option.some.inj (hr.symm.trans hr')
    exact hout (hstage.trans hp)
  · rw [List.getElem?_eq_none heq.ge] at hr
    cases hr

theorem Changes.not_pending {rs rs' : List (Registration L)} {deeds : List Deed}
    (h : Changes rs deeds rs') {owner : Nat} {r : Registration L} (hr : rs[owner]? = some r)
    (hout : r.stage ≠ .pending) : ∃ s, rs'[owner]? = some s ∧ s.stage ≠ .pending := by
  induction h generalizing r with
  | refl => exact ⟨r, hr, hout⟩
  | step hc _ ih =>
    obtain ⟨s, hs, hsout⟩ := hc.not_pending hr hout
    exact ih hs hsout

namespace Table

/-- The registrations that are still to be failed are out of the table. -/
def Retired (t : Table L) : Prop :=
  ∀ owner, Listed t.agenda owner → ∃ r, t.registrations[owner]? = some r ∧ r.stage ≠ .pending

theorem listed_cons_iff {a : Activity} {agenda : List Activity} {owner : Nat} :
    Listed (a :: agenda) owner ↔
      (∃ owners code diagnostic finished, a = .failing owners code diagnostic finished ∧
        owner ∈ owners) ∨ Listed agenda owner := by
  simp only [Listed, List.mem_cons, or_and_right, exists_or, eq_comm (a := a)]

/-- Listeners that begin to hear something are not operations to be failed. -/
theorem listed_resume_iff {t : Table L} {signs : List Sign} {rest : List Activity} {owner : Nat} :
    Listed (t.resume signs rest).1.agenda owner ↔ Listed (rest ++ t.agenda) owner := by
  have hhearings : ∀ a ∈ hearings signs, ∃ place, a = .hearing place := exists_hearing_of_mem
  simp only [resume]
  generalize hearings signs = as at hhearings ⊢
  induction as with
  | nil => rfl
  | cons a as ih =>
    obtain ⟨place, rfl⟩ := hhearings a List.mem_cons_self
    have hrest : Listed (as ++ rest ++ t.agenda) owner ↔ Listed (rest ++ t.agenda) owner :=
      ih fun b hb => hhearings b (List.mem_cons_of_mem _ hb)
    rw [List.cons_append, List.cons_append, listed_cons_iff, hrest]
    simp

/-- Only the call that takes all operations out of the table gives operations to be failed. -/
theorem listed_of_call {t : Table L} {c : Call L}
    (hc : ∀ code diagnostic, c ≠ .failAll code diagnostic) {owner : Nat}
    (h : Listed (t.call c).1.agenda owner) : Listed t.agenda owner := by
  have hresume {t' : Table L} {signs : List Sign} {rest : List Activity} {deeds : List Deed}
      (he : t.Evolves deeds t') (h : Listed (t'.resume signs rest).1.agenda owner)
      (hrest : ∀ agenda, Listed (rest ++ agenda) owner → Listed agenda owner) :
      Listed t.agenda owner := by
    rw [← he.agenda]
    exact hrest _ (listed_resume_iff.1 h)
  have hanswering (reply : Reply) (agenda : List Activity)
      (h : Listed ([.answering reply] ++ agenda) owner) : Listed agenda owner := by
    simpa [listed_cons_iff] using h
  cases c with
  | failAll code diagnostic => exact absurd rfl (hc code diagnostic)
  | register id kind timeout listener =>
    cases hr : t.register id kind timeout listener with
    | ok x =>
      simp only [call, hr] at h
      exact hresume (evolves_register hr) h (hanswering _)
    | error e =>
      simp only [call, hr] at h
      exact hresume (.refl t) h (hanswering _)
  | deliver id d => exact hresume (evolves_deliver t id d) h (hanswering _)
  | complete id verdict => exact hresume (evolves_complete t id verdict) h (hanswering _)
  | timeout id => exact hresume (evolves_timeout t id) h (hanswering _)
  | abandon id => exact hresume (evolves_abandon t id) h (hanswering _)
  | fire timer => exact hresume (evolves_fire t timer) h (hanswering _)
  | advance time =>
    have hclock : t.Evolves [] { t with now := t.now + time } := ⟨.refl _, rfl, rfl⟩
    exact hresume hclock h fun agenda h => by simpa [listed_cons_iff] using h
  | query id => exact hresume (.refl t) h (hanswering _)
  | describe => exact hresume (.refl t) h (hanswering _)

/-- What is done next leaves nobody to be failed who was not listed before. -/
theorem listed_of_perform {t : Table L} {a : Activity} {owner : Nat}
    (h : Listed (t.perform a).1.agenda owner) : Listed (a :: t.agenda) owner := by
  cases a with
  | hearing place => exact listed_cons_iff.2 (.inr h)
  | answering reply => exact listed_cons_iff.2 (.inr h)
  | ringing =>
    simp only [perform] at h
    split at h
    · exact listed_cons_iff.2 (.inr h)
    · rw [listed_resume_iff, (evolves_ring t _).agenda] at h
      exact h
  | failing owners code diagnostic finished =>
    cases owners with
    | nil =>
      have hrest := listed_resume_iff.1 h
      rw [List.cons_append, List.nil_append, listed_cons_iff] at hrest
      exact listed_cons_iff.2 (.inr (hrest.resolve_left (by simp)))
    | cons first owners =>
      -- those after the first stay on the list
      have hrest (n : Nat) (h : Listed ([.failing owners code diagnostic n] ++ t.agenda) owner) :
          Listed (.failing (first :: owners) code diagnostic finished :: t.agenda) owner := by
        rw [List.cons_append, List.nil_append, listed_cons_iff] at h
        rcases h with ⟨_, _, _, _, heq, hmem⟩ | h
        · cases heq
          exact listed_cons_iff.2 (.inl ⟨_, _, _, _, rfl, List.mem_cons_of_mem _ hmem⟩)
        · exact listed_cons_iff.2 (.inr h)
      simp only [perform] at h
      split at h
      · next hfinish =>
        rw [listed_resume_iff, (evolves_finish hfinish).agenda] at h
        exact hrest _ h
      · exact hrest _ (listed_resume_iff.1 h)

theorem listed_of_rearrange {t : Table L} {owners : List Nat} {owner : Nat}
    (h : Listed (t.rearrange owners).agenda owner) : Listed t.agenda owner := by
  unfold rearrange at h
  split at h
  · next listed code diagnostic n agenda hagenda =>
    rw [hagenda]
    split at h
    · next hperm =>
      rcases listed_cons_iff.1 h with ⟨_, _, _, _, heq, hmem⟩ | h
      · cases heq
        exact listed_cons_iff.2
          (.inl ⟨_, _, _, _, rfl, (List.isPerm_iff.1 hperm).mem_iff.1 hmem⟩)
      · exact listed_cons_iff.2 (.inr h)
    · rwa [hagenda] at h
  · exact h

namespace Retired

variable {t t' : Table L}

/-- Those that were out of the table stay out of it. -/
theorem changes (h : t.Retired) {deeds : List Deed}
    (hc : Changes t.registrations deeds t'.registrations)
    (hlisted : ∀ owner, Listed t'.agenda owner → Listed t.agenda owner) : t'.Retired := by
  intro owner howner
  obtain ⟨r, hr, hout⟩ := h owner (hlisted owner howner)
  exact hc.not_pending hr hout

/-- When all operations are taken out of the table, no pending one is left. -/
theorem failAll (h : t.Retired) (code : ResultCode) (diagnostic : String) :
    (t.failAll code diagnostic).Retired := by
  intro owner howner
  obtain ⟨r, hr⟩ : ∃ r, t.registrations[owner]? = some r := by
    rcases listed_cons_iff.1 howner with ⟨_, _, _, _, heq, hmem⟩ | howner
    · cases heq
      have hlt := List.mem_range.1 (List.mem_filter.1 hmem).1
      exact ⟨_, List.getElem?_eq_getElem hlt⟩
    · obtain ⟨r, hr, -⟩ := h owner howner
      exact ⟨r, hr⟩
  refine ⟨r.drain, by simp [Table.failAll, hr], ?_⟩
  unfold Registration.drain
  split
  · simp
  · assumption

theorem step (h : t.Retired) (m : Move L) : (t.step m).1.Retired := by
  cases m with
  | rearrange owners =>
    have hc : Changes t.registrations [] (t.rearrange owners).registrations := by
      unfold Table.rearrange
      split
      · split <;> exact .refl _
      · exact .refl _
    exact h.changes hc fun _ => listed_of_rearrange
  | proceed =>
    simp only [Table.step, Table.proceed]
    cases hagenda : t.agenda with
    | nil => exact h
    | cons a agenda =>
      refine h.changes (advances_perform { t with agenda } a).changes fun owner howner => ?_
      rw [hagenda]
      exact listed_of_perform howner
  | call c =>
    simp only [Table.step]
    split
    · by_cases hfailAll : ∃ code diagnostic, c = .failAll code diagnostic
      · obtain ⟨code, diagnostic, rfl⟩ := hfailAll
        exact h.failAll code diagnostic
      · have ha := (t.advances_call c).resolve_left hfailAll
        refine h.changes ha.changes fun owner => listed_of_call fun code diagnostic heq => ?_
        exact hfailAll ⟨code, diagnostic, heq⟩
    · exact h

theorem run (h : t.Retired) (ms : List (Move L)) : (t.run ms).1.Retired := by
  induction ms generalizing t with
  | nil => exact h
  | cons m ms ih => exact ih (h.step m)

end Retired

theorem retired_empty (scheduler : Scheduler) (abandons : Bool) :
    (empty scheduler abandons : Table L).Retired := by
  rintro owner ⟨_, _, _, _, hmem, -⟩
  cases hmem

/-! ## The table by identifiers -/

/-- Where a registration stays as it is, the same identifiers lead to it. -/
theorem find?_iff_of_same {t t' : Table L} {deeds deeds' : List Deed} (h : t.Sound deeds)
    (h' : t'.Sound deeds') {owner : Nat}
    (hsame : t'.registrations[owner]? = t.registrations[owner]?) (id : Int32) :
    t'.find? id = some owner ↔ t.find? id = some owner := by
  rw [h.find?_eq_some_iff, h'.find?_eq_some_iff, hsame]

/-- A registration that is ended leaves the table if it stands there. What else its identifier leads
to stays. -/
theorem find?_put_finish {t : Table L} {deeds deeds' : List Deed} {place : Nat} {r : Registration L}
    {byTimer : Bool} (h : t.Sound deeds) (h' : (t.put place (r.finish byTimer)).Sound deeds')
    (hr : t.registrations[place]? = some r) (id : Int32) :
    (t.put place (r.finish byTimer)).find? id =
      if t.find? id = some place then none else t.find? id := by
  have hgone : (t.put place (r.finish byTimer)).find? id ≠ some place := by
    intro hfound
    obtain ⟨s, hs, hpending, -⟩ := pending_of_find? hfound
    obtain rfl := Option.some.inj ((registrations_put _ hr).symm.trans hs)
    cases hpending
  have hothers (owner : Nat) (hne : place ≠ owner) :
      (t.put place (r.finish byTimer)).find? id = some owner ↔ t.find? id = some owner :=
    find?_iff_of_same h h' (List.getElem?_set_ne hne) id
  refine Option.ext fun owner => ?_
  by_cases hne : place = owner
  · subst hne
    by_cases hbefore : t.find? id = some place <;> simp [hbefore, hgone]
  · rw [hothers owner hne]
    by_cases hbefore : t.find? id = some place <;> simp [hbefore, hne]

/-- Ending a registration takes out of the table what an identifier leads to if this is the
registration itself, and nothing if another one has the identifier by now. -/
theorem find?_finish {t t' : Table L} {deeds : List Deed} (h : t.Sound deeds) {place : Nat}
    {byTimer : Bool} {verdict : Verdict} {p : Progress} {signs : List Sign}
    (hfinish : t.finish place byTimer verdict = some (p, t', signs)) (id : Int32) :
    t'.find? id = if t.find? id = some place then none else t.find? id := by
  have h' := h.advances (evolves_finish hfinish).advances
  obtain ⟨r, hr, -, -, rfl, -⟩ := exists_live_of_finish hfinish
  exact find?_put_finish h h' hr id

/-- Forgetting an operation takes it out of the table, and nothing else. -/
theorem find?_abandon {t : Table L} {deeds : List Deed} (h : t.Sound deeds) (id id' : Int32) :
    (t.abandon id).2.find? id' = if id' = id then none else t.find? id' := by
  have h' := h.advances (evolves_abandon t id).advances
  cases hplace : t.find? id with
  | none =>
    have hsame : (t.abandon id).2 = t := by rw [abandon, hplace]
    rw [hsame]
    split
    · next heq => rw [heq, hplace]
    · rfl
  | some place =>
    obtain ⟨r, hr, -, hid⟩ := pending_of_find? hplace
    have hput : (t.abandon id).2 = t.put place (r.finish false) := by
      rw [abandon, hplace]
      simp only [hr]
    rw [hput] at h' ⊢
    -- no other identifier leads to the place
    have hfound : t.find? id' = some place ↔ id' = id := by
      refine ⟨fun hfound => ?_, fun heq => heq ▸ hplace⟩
      obtain ⟨s, hs, -, hid'⟩ := pending_of_find? hfound
      obtain rfl := Option.some.inj (hr.symm.trans hs)
      exact hid'.symm.trans hid
    simp only [find?_put_finish h h' hr, hfound]

/-- In every run of a table, whatever listeners call from within, a timer belongs for ever to the
registration that armed it; those that are still to be failed are not in the table; and a move, be
it a timer that goes off, an end or an abandonment, does nothing to any registration but the one
that it is about: the others are as they were, no sign tells of them, and they are found under their
identifiers as before. Only the call that takes all operations out of the table is about more than
one. To end a registration takes out of the table what an identifier leads to only if this is the
registration itself, and to forget an operation takes out that one alone. -/
theorem others_unharmed (scheduler : Scheduler) (abandons : Bool) (before : List (Move L))
    (m : Move L) :
    let t := ((empty scheduler abandons : Table L).run before).1
    let t' := (t.step m).1
    (t'.timerOwners = t.timerOwners ∨
      (∃ id kind timeout listener, m = .call (.register id kind timeout listener)) ∧
        t'.timerOwners = t.timerOwners ++ [t.registrations.length]) ∧
    (∀ owner, Listed t.agenda owner → ∀ id, t.find? id ≠ some owner) ∧
    ((∀ code diagnostic, m ≠ .call (.failAll code diagnostic)) →
      ∀ other, t.subject? m ≠ some other →
        t'.registrations[other]? = t.registrations[other]? ∧
        (∀ s ∈ (t.step m).2, s.owner? ≠ some other) ∧
        ∀ id, t'.find? id = some other ↔ t.find? id = some other) ∧
    (∀ place byTimer verdict p ended signs,
      t.finish place byTimer verdict = some (p, ended, signs) →
        ∀ id, ended.find? id = if t.find? id = some place then none else t.find? id) ∧
    ∀ id id', (t.abandon id).2.find? id' = if id' = id then none else t.find? id' := by
  intro t t'
  have hsound : t.Sound ([] ++ _) := (sound_empty scheduler abandons).run before
  refine ⟨timerOwners_step t m, ?listed, ?others, ?ended, find?_abandon hsound⟩
  case listed =>
    intro owner howner id hfound
    obtain ⟨r, hr, hpending, -⟩ := pending_of_find? hfound
    obtain ⟨s, hs, hout⟩ := (retired_empty scheduler abandons).run before owner howner
    obtain rfl := Option.some.inj (hr.symm.trans hs)
    exact hout hpending
  case others =>
    intro hm other hother
    obtain ⟨hsame, htold⟩ := others_step t hm hother
    exact ⟨hsame, htold, find?_iff_of_same hsound (hsound.step m) hsame⟩
  case ended =>
    intro place byTimer verdict p ended signs hfinish
    exact find?_finish hsound hfinish

/-- While the first of two operations hears that everything is failed, its listener registers
another one under the identifier of the second. Then the timer of the second goes off and ends it,
and the new one is left alone: the identifier leads to it as before. -/
theorem unharmed_by_timer_of_former :
    let before : List (Move Unit) :=
      [.call (.register 1 .add none ()), .proceed, .call (.register 2 .search (some 10) ()),
        .proceed, .call (.failAll .serverDown "down"), .proceed,
        .call (.register 2 .search none ()), .proceed]
    let t := ((empty .manual false : Table Unit).run before).1
    let x := t.step (.call (.fire 0))
    t.find? 2 = some 2 ∧ t.subject? (.call (.fire 0)) = some 1 ∧
      x.2.map Sign.owner? = [some 1] ∧ x.1.find? 2 = some 2 ∧
      x.1.registrations[2]? = t.registrations[2]? ∧
      ∃ p ended signs, t.finish 1 true (.timeout false) = some (p, ended, signs) ∧
        ended.find? 2 = some 2 := by
  intro before t x
  obtain ⟨-, -, hothers, hended, -⟩ := others_unharmed .manual false before (.call (.fire 0))
  have hfound : t.find? 2 = some 2 := by decide
  have hsubject : t.subject? (.call (.fire 0)) = some 1 := by decide
  obtain ⟨hsame, -, hfind⟩ := hothers nofun 2 (by simp [t, hsubject])
  obtain ⟨⟨p, ended, signs⟩, hfinish⟩ :=
    Option.isSome_iff_exists.1 (show (t.finish 1 true (.timeout false)).isSome by decide)
  have hleads := hended 1 true (.timeout false) p ended signs hfinish 2
  rw [if_neg (by rw [hfound]; decide), hfound] at hleads
  exact ⟨hfound, hsubject, by decide, (hfind 2).2 hfound, hsame, p, ended, signs, hfinish, hleads⟩

end Table
end Ldap
