import Ldap.Proofs.Pending.Reuse

/-!
# What a move does to one registration

A move is about one registration at most, and there is little that it can do to it: something comes
for it, or it is ended, by its time, by a response, by a failure of everything or by an abandonment.
`Fate` lists these cases with the signs that tell of them, and `fate_step` says that there are no
others. `Lived` is what a whole run makes of it: what came for a registration, what ended it, what
was counted and what was told of it fit together.
-/

namespace Ldap

variable {L : Type}

/-! ## Ends and parcels -/

/-- What ends a registration. -/
inductive Cause where
  /-- Its time is up: its timer goes off, or somebody says so. -/
  | time
  /-- It is completed. -/
  | response
  /-- Everything is failed. -/
  | failure
  /-- It is forgotten. -/
  | abandonment
  deriving DecidableEq, Repr

/-- What a call ends registrations by, if it ends any. The time of one that is registered may be up
at once. -/
def Call.cause? : Call L → Option Cause
  | .timeout _ | .fire _ | .register .. => some .time
  | .complete .. => some .response
  | .abandon _ => some .abandonment
  | .deliver .. | .failAll .. | .advance _ | .query _ | .describe => none

/-- What something on the agenda ends registrations by, if it ends any. -/
def Activity.cause? : Activity → Option Cause
  | .failing .. => some .failure
  | .ringing => some .time
  | .hearing _ | .answering _ => none

/-- What a registration that is ended tells, the result being the last thing that its listener
hears. Before the result of one whose time is up the server is told, if anybody is to tell it. -/
def Cause.signs (abandons : Bool) (owner : Nat) (id : Int32) (o : Outcome) : Cause → List Sign
  | .time => (if abandons then [.abandoning owner id] else []) ++ [.heard owner id (.result o)]
  | .response | .failure => [.heard owner id (.result o)]
  | .abandonment => []

/-- Something that came for a registration, and whether the call that passes it on was answered
with success. -/
structure Parcel where
  owner : Nat
  delivery : Delivery
  accepted : Bool
  deriving DecidableEq, Repr

/-- The signs that tell of the registration at a place. -/
def Sign.about (owner : Nat) (signs : List Sign) : List Sign :=
  signs.filter (·.owner? = some owner)

theorem Sign.about_append (owner : Nat) (a b : List Sign) :
    about owner (a ++ b) = about owner a ++ about owner b :=
  List.filter_append ..

theorem Cause.about_signs (cause : Cause) (abandons : Bool) (owner : Nat) (id : Int32)
    (o : Outcome) : Sign.about owner (cause.signs abandons owner id o)
      = cause.signs abandons owner id o := by
  cases cause <;> cases abandons <;> simp [Cause.signs, Sign.about, Sign.owner?]

namespace Table

/-- What a move ends registrations by, if it ends any. -/
def cause? (t : Table L) : Move L → Option Cause
  | .call c => c.cause?
  | .proceed => t.agenda.head?.bind Activity.cause?
  | .rearrange _ => none

/-- What a call passes on to a registration. -/
def parcelOfCall? (t : Table L) : Call L → Option Parcel
  | .deliver id d => (t.find? id).map fun owner => ⟨owner, d, (t.deliver id d).1⟩
  | _ => none

/-- What a move passes on to the registration at a place. -/
def parcelFor? (t : Table L) (owner : Nat) : Move L → Option Parcel
  | .call c => if t.isListening then (t.parcelOfCall? c).filter (·.owner = owner) else none
  | .proceed | .rearrange _ => none

end Table

/-! ## Fates -/

/-- A registration is the same as another but for its stage and its timer. -/
structure Registration.Kin (r r' : Registration L) : Prop where
  id : r'.id = r.id
  kind : r'.kind = r.kind
  created : r'.created = r.created
  listener : r'.listener = r.listener
  entries : r'.entries = r.entries
  references : r'.references = r.references

namespace Registration.Kin

theorem refl (r : Registration L) : r.Kin r :=
  ⟨rfl, rfl, rfl, rfl, rfl, rfl⟩

theorem trans {r r' r'' : Registration L} (h : r.Kin r') (h' : r'.Kin r'') : r.Kin r'' :=
  ⟨h'.id.trans h.id, h'.kind.trans h.kind, h'.created.trans h.created,
    h'.listener.trans h.listener, h'.entries.trans h.entries, h'.references.trans h.references⟩

theorem finish (r : Registration L) (byTimer : Bool) : r.Kin (r.finish byTimer) :=
  ⟨rfl, rfl, rfl, rfl, rfl, rfl⟩

theorem drain (r : Registration L) : r.Kin r.drain := by
  unfold Registration.drain
  split
  · exact ⟨rfl, rfl, rfl, rfl, rfl, rfl⟩
  · exact refl r

/-- What is known about a registration is known about its kin. -/
theorem progress {r r' : Registration L} (h : r.Kin r') (now : Nat) :
    r'.progress now = r.progress now := by
  simp only [Registration.progress, h.id, h.kind, h.created, h.entries, h.references]

end Registration.Kin

/-- Taking a registration out of the table does not end it. -/
theorem drain_over_iff (r : Registration L) : r.drain.stage = .over ↔ r.stage = .over := by
  unfold Registration.drain
  split <;> simp_all

/-- A registration that was just made. -/
structure Registration.Fresh (r : Registration L) : Prop where
  live : r.stage ≠ .over
  entries : r.entries = 0
  references : r.references = 0

/-- What becomes in one move of the registration at a place: what comes for it, what the move ends
registrations by, how the registration was before if it was there, what is told of it, and how it
is afterwards. -/
inductive Fate (abandons : Bool) (owner : Nat) : Option Parcel → Option Cause →
    Option (Registration L) → List Sign → Option (Registration L) → Prop
  | absent {cause : Option Cause} : Fate abandons owner none cause none [] none
  | made {cause : Option Cause} {r : Registration L} (fresh : r.Fresh) :
      Fate abandons owner none cause none [] (some r)
  /-- Nothing is told of it, and it is over exactly if it was over before. -/
  | stays {cause : Option Cause} {r r' : Registration L} (kin : r.Kin r')
      (ended : r'.stage = .over ↔ r.stage = .over) :
      Fate abandons owner none cause (some r) [] (some r')
  /-- What comes is counted, and heard of if it may come. -/
  | comes {cause : Option Cause} {r : Registration L} (d : Delivery)
      (pending : r.stage = .pending) :
      Fate abandons owner (some ⟨owner, d, r.admits d⟩) cause (some r)
        (if r.admits d then [.heard owner r.id (.delivery d)] else []) (some (r.count d))
  /-- It is ended, at once if it was just made. -/
  | ends {cause : Cause} {before : Option (Registration L)} {r r' : Registration L}
      (verdict : Verdict) (now : Nat) (there : before = some r ∨ before = none ∧ r.Fresh)
      (live : r.stage ≠ .over) (kin : r.Kin r') (ended : r'.stage = .over)
      (timely : cause = .time → verdict = .timeout abandons) :
      Fate abandons owner none (some cause) before
        (cause.signs abandons owner r.id ((r.progress now).outcome verdict)) (some r')

namespace Fate

variable {abandons : Bool} {owner : Nat} {parcel : Option Parcel} {cause : Option Cause}
  {before after : Option (Registration L)} {signs : List Sign}

/-- Nothing becomes of a registration that is left alone. -/
theorem same (cause : Option Cause) (before : Option (Registration L)) :
    Fate abandons owner none cause before [] before := by
  cases before with
  | none => exact .absent
  | some r => exact .stays (.refl r) .rfl

/-- Signs that tell of what becomes of a registration tell of this one. -/
theorem about_signs (h : Fate abandons owner parcel cause before signs after) :
    Sign.about owner signs = signs := by
  cases h with
  | absent | made | stays => rfl
  | @comes _ r d _ => cases r.admits d <;> simp [Sign.about, Sign.owner?]
  | ends => exact Cause.about_signs ..

/-- Nothing becomes of a registration that is over. -/
theorem of_over {r r' : Registration L}
    (h : Fate abandons owner parcel cause (some r) signs (some r')) (hover : r.stage = .over) :
    parcel = none ∧ signs = [] ∧ r.Kin r' ∧ r'.stage = .over := by
  cases h with
  | stays kin ended => exact ⟨rfl, rfl, kin, ended.2 hover⟩
  | comes d pending => cases pending.symm.trans hover
  | ends verdict now there live =>
    obtain heq | ⟨hnone, -⟩ := there
    · cases heq
      exact absurd hover live
    · cases hnone

/-- What becomes of a registration that was changed a little before is what becomes of it. -/
theorem of_kin {r r₁ : Registration L} (kin : r.Kin r₁) (stage : r₁.stage = r.stage)
    (h : Fate abandons owner none cause (some r₁) signs after) :
    Fate abandons owner none cause (some r) signs after := by
  cases h with
  | stays kin' ended => exact .stays (kin.trans kin') (by rw [ended, stage])
  | ends verdict now there live kin' ended timely =>
    obtain heq | ⟨hnone, -⟩ := there
    · cases heq
      rw [kin.progress now, kin.id]
      exact .ends verdict now (.inl rfl) (stage ▸ live) (kin.trans kin') ended timely
    · cases hnone

/-- What becomes at once of a registration that is being made is what becomes of the place. -/
theorem of_fresh {r : Registration L} (fresh : r.Fresh)
    (h : Fate abandons owner none cause (some r) signs after) :
    Fate abandons owner none cause none signs after := by
  cases h with
  | stays kin ended =>
    exact .made ⟨fun hover => fresh.live (ended.1 hover), kin.entries.trans fresh.entries,
      kin.references.trans fresh.references⟩
  | ends verdict now there live kin ended timely =>
    obtain heq | ⟨hnone, -⟩ := there
    · cases heq
      exact .ends verdict now (.inr ⟨rfl, fresh⟩) live kin ended timely
    · cases hnone

end Fate

/-! ## Ends -/

namespace Table

/-- Ending a registration is one of its fates, by whatever tells as much as its end does. -/
theorem fate_finish {t t' : Table L} {place : Nat} {byTimer : Bool} {verdict : Verdict}
    {p : Progress} {signs : List Sign} {cause : Cause}
    (h : t.finish place byTimer verdict = some (p, t', signs))
    (timely : cause = .time → verdict = .timeout t.abandons)
    (told : ∀ id o, cause.signs t.abandons place id o =
      (if byTimer && t.abandons then [.abandoning place id] else [])
        ++ [.heard place id (.result o)]) :
    Fate t.abandons place none (some cause) t.registrations[place]? signs
      t'.registrations[place]? := by
  obtain ⟨r, hr, hlive, -, rfl, rfl⟩ := exists_live_of_finish h
  rw [registrations_put _ hr, ← told]
  exact .ends verdict t.now (.inl hr) hlive (.finish r byTimer) rfl timely

/-- When its time is up, a registration is ended unless it is over. -/
theorem fate_expire (t : Table L) (place : Nat) :
    Fate t.abandons place none (some .time) t.registrations[place]? (t.expire place).2.2
      (t.expire place).2.1.registrations[place]? := by
  unfold expire
  split
  · next h => exact fate_finish h (fun _ => rfl) fun _ _ => rfl
  · exact .same _ _

/-- A timer that goes off lets the time of its registration be up, be it late or cancelled. -/
theorem fate_ring (t : Table L) (place : Nat) :
    Fate t.abandons place none (some .time) t.registrations[place]? (t.ring place).2.2
      (t.ring place).2.1.registrations[place]? := by
  unfold ring
  split
  · exact .same _ _
  next r hr =>
  split
  · exact .same _ _
  next timer _ =>
  split
  · exact .same _ _
  · have h := fate_expire (t.put place { r with timer := some timer.fire }) place
    rw [registrations_put _ hr] at h
    rw [hr]
    refine Fate.of_kin ?_ ?_ h
    · exact ⟨rfl, rfl, rfl, rfl, rfl, rfl⟩
    · rfl

/-! ## Calls -/

theorem fate_complete (t : Table L) {id : Int32} {place : Nat} (hplace : t.find? id = some place)
    (verdict : Verdict) :
    Fate t.abandons place none (some .response) t.registrations[place]?
      (t.complete id verdict).2.2 (t.complete id verdict).2.1.registrations[place]? := by
  simp only [complete, hplace, Option.bind_some]
  split
  · next h => exact fate_finish h nofun fun _ _ => rfl
  · exact .same _ _

theorem fate_timeout (t : Table L) {id : Int32} {place : Nat} (hplace : t.find? id = some place) :
    Fate t.abandons place none (some .time) t.registrations[place]? (t.timeout id).2.2
      (t.timeout id).2.1.registrations[place]? := by
  simp only [timeout, hplace]
  exact t.fate_expire place

theorem fate_abandon (t : Table L) {id : Int32} {place : Nat} (hplace : t.find? id = some place) :
    Fate t.abandons place none (some .abandonment) t.registrations[place]? []
      (t.abandon id).2.registrations[place]? := by
  obtain ⟨r, hr, hpending, -⟩ := pending_of_find? hplace
  simp only [abandon, hplace, hr]
  rw [registrations_put _ hr]
  -- no outcome is made of it, so any will do
  exact .ends (.timeout false) 0 (.inl rfl) (by simp [hpending]) (.finish r false) rfl
    fun htime => Cause.noConfusion htime

theorem fate_deliver (t : Table L) {id : Int32} {place : Nat} (hplace : t.find? id = some place)
    (d : Delivery) (cause : Option Cause) :
    Fate t.abandons place (some ⟨place, d, (t.deliver id d).1⟩) cause t.registrations[place]?
      (t.deliver id d).2.2 (t.deliver id d).2.1.registrations[place]? := by
  obtain ⟨r, hr, hpending, rfl⟩ := pending_of_find? hplace
  have h : Fate t.abandons place _ cause (some r) _ _ := .comes d hpending
  cases hadmits : r.admits d with
  | true =>
    simp only [deliver, hplace, hr, hadmits, if_true]
    rw [registrations_put _ hr]
    rwa [hadmits, if_pos rfl] at h
  | false =>
    simp only [deliver, hplace, hr, hadmits, Bool.false_eq_true, if_false]
    rw [registrations_put _ hr]
    rwa [hadmits, if_neg Bool.false_ne_true] at h

/-- The place behind the registrations is that of the one that is made, if it is made. -/
theorem fate_register {t t' : Table L} {id : Int32} {kind : OperationKind} {timeout : Option Nat}
    {listener : L} {signs : List Sign}
    (h : t.register id kind timeout listener = .ok (t', signs)) :
    Fate t.abandons t.registrations.length none (some .time) none signs
      t'.registrations[t.registrations.length]? := by
  obtain ⟨r, -, -, -, hpending, ⟨hentries, hreferences⟩, -, hcases⟩ := register_cases h
  have hfresh : r.Fresh := ⟨by simp [hpending], hentries, hreferences⟩
  have hadded : (t.registrations ++ [r])[t.registrations.length]? = some r :=
    List.getElem?_concat_length
  obtain ⟨rfl, rfl⟩ | ⟨-, hexpire⟩ := hcases
  · rw [hadded]
    exact .made hfresh
  · -- the timer goes off while it is armed
    have hfate := fate_expire { t with registrations := t.registrations ++ [r] }
      t.registrations.length
    rw [hadded, hexpire] at hfate
    exact hfate.of_fresh hfresh

theorem fate_failAll (t : Table L) (code : ResultCode) (diagnostic : String) (owner : Nat) :
    Fate t.abandons owner none none t.registrations[owner]? []
      (t.failAll code diagnostic).registrations[owner]? := by
  simp only [failAll, List.getElem?_map]
  cases t.registrations[owner]? with
  | none => exact .absent
  | some r => exact .stays (.drain r) (drain_over_iff r)

/-- What a call does to the registration that it is about. -/
theorem fate_call (t : Table L) {c : Call L} {owner : Nat} (h : t.subjectOfCall? c = some owner) :
    Fate t.abandons owner (t.parcelOfCall? c) c.cause? t.registrations[owner]? (t.call c).2
      (t.call c).1.registrations[owner]? := by
  cases c with
  | register id kind timeout listener =>
    obtain rfl : t.registrations.length = owner := Option.some.inj h
    cases hr : t.register id kind timeout listener with
    | error e =>
      simp only [call, hr]
      exact .same _ _
    | ok x =>
      simp only [call, hr]
      rw [List.getElem?_eq_none le_rfl]
      show Fate t.abandons _ none (some .time) none x.2 x.1.registrations[_]?
      exact fate_register hr
  | deliver id d =>
    have hparcel : t.parcelOfCall? (.deliver id d) = some ⟨owner, d, (t.deliver id d).1⟩ := by
      rw [parcelOfCall?, show t.find? id = some owner from h, Option.map_some]
    rw [hparcel]
    exact t.fate_deliver h d none
  | complete id verdict => exact t.fate_complete h verdict
  | timeout id => exact t.fate_timeout h
  | abandon id => exact t.fate_abandon h
  | fire timer =>
    have hfire : t.fire timer = t.ring owner := by
      rw [fire, show t.timerOwners[timer]? = some owner from h]
    simp only [call, hfire]
    exact t.fate_ring owner
  | failAll | advance | query | describe => cases h

/-! ## Steps -/

/-- What is done for a call in progress does to the registration that it is about. -/
theorem fate_perform (t : Table L) {a : Activity} {owner : Nat}
    (h : t.subjectOfActivity? a = some owner) :
    Fate t.abandons owner none a.cause? t.registrations[owner]? (t.perform a).2
      (t.perform a).1.registrations[owner]? := by
  cases a with
  | hearing | answering => cases h
  | ringing =>
    simp only [perform, show t.nextDue? = some owner from h]
    exact t.fate_ring owner
  | failing owners code diagnostic finished =>
    cases owners with
    | nil => cases h
    | cons first owners =>
      obtain rfl : first = owner := Option.some.inj h
      simp only [perform]
      split
      · next h =>
        have hfate : Fate t.abandons first none (some .failure) _ _ _ :=
          fate_finish h (by simp) fun _ _ => rfl
        exact hfate
      · exact .same _ _

/-- A call passes nothing on to a registration that it is not about. -/
theorem filter_parcelOfCall?_of_ne {t : Table L} {c : Call L} {owner : Nat}
    (h : t.subjectOfCall? c ≠ some owner) :
    (t.parcelOfCall? c).filter (·.owner = owner) = none := by
  cases c with
  | deliver id d =>
    rw [parcelOfCall?, Option.filter_eq_none_iff]
    intro p hp
    obtain ⟨place, hplace, rfl⟩ := Option.map_eq_some_iff.1 hp
    rw [decide_eq_true_eq]
    rintro rfl
    exact h hplace
  | _ => rfl

/-- What a call passes on, it passes on to the registration that it is about. -/
theorem filter_parcelOfCall? {t : Table L} {c : Call L} {owner : Nat}
    (h : t.subjectOfCall? c = some owner) :
    (t.parcelOfCall? c).filter (·.owner = owner) = t.parcelOfCall? c := by
  cases c with
  | deliver id d =>
    simp only [parcelOfCall?, show t.find? id = some owner from h, Option.map_some]
    exact Option.filter_some_pos (by simp)
  | _ => rfl

/-- Signs that tell of nobody tell nothing of a registration. -/
theorem about_eq_nil {owner : Nat} {signs : List Sign}
    (h : ∀ s ∈ signs, s.owner? ≠ some owner) : Sign.about owner signs = [] :=
  List.filter_eq_nil_iff.2 fun s hs => by simpa using h s hs

/-- What concerns other registrations leaves one alone. -/
theorem fate_of_confined {t t' : Table L} {place : Option Nat} {signs : List Sign}
    (h : t.Confined place signs t') {owner : Nat} (hplace : place ≠ some owner)
    (cause : Option Cause) :
    Fate t.abandons owner none cause t.registrations[owner]? (Sign.about owner signs)
      t'.registrations[owner]? := by
  rw [h.others owner hplace, about_eq_nil fun s hs howner => hplace (h.told s hs owner howner).1]
  exact .same _ _

/-- Whatever call is made, one of the fates befalls each registration. -/
theorem fate_callFor (t : Table L) (c : Call L) (owner : Nat) :
    Fate t.abandons owner ((t.parcelOfCall? c).filter (·.owner = owner)) c.cause?
      t.registrations[owner]? (Sign.about owner (t.call c).2)
      (t.call c).1.registrations[owner]? := by
  by_cases hsubject : t.subjectOfCall? c = some owner
  · -- the registration that the call is about
    have h := t.fate_call hsubject
    rw [filter_parcelOfCall? hsubject]
    rwa [← h.about_signs] at h
  · -- the others are left alone, but for being taken out of the table
    rw [filter_parcelOfCall?_of_ne hsubject]
    rcases confined_call t c with ⟨code, diagnostic, rfl⟩ | h | ⟨⟨id, kind, timeout, listener, rfl⟩,
      r, h⟩
    · exact t.fate_failAll code diagnostic owner
    · exact fate_of_confined h hsubject _
    · have h' := fate_of_confined h hsubject (Call.cause? (.register id kind timeout listener))
      rwa [getElem?_add r fun heq => hsubject (congrArg some heq)] at h'

/-- Whatever move is followed, one of the fates befalls each registration. -/
theorem fate_step (t : Table L) (m : Move L) (owner : Nat) :
    Fate t.abandons owner (t.parcelFor? owner m) (t.cause? m) t.registrations[owner]?
      (Sign.about owner (t.step m).2) (t.step m).1.registrations[owner]? := by
  cases m with
  | rearrange owners => exact fate_of_confined (confined_rearrange t owners) nofun _
  | call c =>
    simp only [step, parcelFor?, cause?]
    split
    · exact t.fate_callFor c owner
    · exact .same _ _
  | proceed =>
    by_cases hsubject : t.subject? .proceed = some owner
    · simp only [step, proceed, parcelFor?, cause?, subject?] at hsubject ⊢
      cases hagenda : t.agenda with
      | nil =>
        rw [hagenda] at hsubject
        cases hsubject
      | cons a agenda =>
        rw [hagenda] at hsubject
        have h := fate_perform { t with agenda } (a := a) hsubject
        rwa [← h.about_signs] at h
    · exact fate_of_confined t.confined_proceed hsubject _

/-! ## Whether the server is told -/

theorem abandons_finish {t t' : Table L} {place : Nat} {byTimer : Bool} {verdict : Verdict}
    {p : Progress} {signs : List Sign} (h : t.finish place byTimer verdict = some (p, t', signs)) :
    t'.abandons = t.abandons := by
  obtain ⟨r, -, -, -, rfl, -⟩ := exists_live_of_finish h
  rfl

@[simp]
theorem abandons_expire (t : Table L) (place : Nat) :
    (t.expire place).2.1.abandons = t.abandons := by
  unfold expire
  split
  · next h => exact abandons_finish h
  · rfl

@[simp]
theorem abandons_ring (t : Table L) (place : Nat) : (t.ring place).2.1.abandons = t.abandons := by
  unfold ring
  split
  · rfl
  · split
    · rfl
    · split
      · rfl
      · exact abandons_expire ..

theorem abandons_register {t t' : Table L} {id : Int32} {kind : OperationKind}
    {timeout : Option Nat} {listener : L} {signs : List Sign}
    (h : t.register id kind timeout listener = .ok (t', signs)) : t'.abandons = t.abandons := by
  obtain ⟨r, -, -, -, -, -, -, ⟨rfl, -⟩ | ⟨-, hexpire⟩⟩ := register_cases h
  · rfl
  · obtain rfl := congrArg Prod.fst hexpire
    exact abandons_expire ..

theorem abandons_call (t : Table L) (c : Call L) : (t.call c).1.abandons = t.abandons := by
  cases c with
  | register id kind timeout listener =>
    simp only [call]
    split
    · next h => exact (abandons_register h :)
    · rfl
  | deliver id d =>
    simp only [call, resume, deliver]
    split
    · rfl
    · split
      · rfl
      · split <;> rfl
  | complete id verdict =>
    simp only [call, resume, complete]
    split
    · next h =>
      obtain ⟨place, -, hfinish⟩ := Option.bind_eq_some_iff.1 h
      exact abandons_finish hfinish
    · rfl
  | timeout id =>
    simp only [call, resume, timeout]
    split
    · exact abandons_expire ..
    · rfl
  | abandon id =>
    simp only [call, resume, abandon]
    split
    · rfl
    · split <;> rfl
  | fire timer =>
    simp only [call, resume, fire]
    split
    · exact abandons_ring ..
    · rfl
  | failAll | advance | query | describe => rfl

theorem abandons_perform (t : Table L) (a : Activity) : (t.perform a).1.abandons = t.abandons := by
  cases a with
  | hearing | answering => rfl
  | ringing =>
    simp only [perform]
    split
    · rfl
    · exact abandons_ring ..
  | failing owners code diagnostic finished =>
    cases owners with
    | nil => rfl
    | cons first owners =>
      simp only [perform]
      split
      · next h => exact (abandons_finish h :)
      · rfl

/-- Whether the server is told of operations whose time is up stays as it was settled. -/
theorem abandons_step (t : Table L) (m : Move L) : (t.step m).1.abandons = t.abandons := by
  cases m with
  | call c =>
    simp only [step]
    split
    · exact abandons_call t c
    · rfl
  | proceed =>
    simp only [step, proceed]
    split
    · rfl
    · exact abandons_perform ..
  | rearrange owners =>
    simp only [step, rearrange]
    split
    · split <;> rfl
    · rfl

end Table

/-! ## Ends and parcels of a run -/

/-- What a move ended a registration by, if it did: it is over afterwards, and was not over
before. -/
def endBetween (cause : Option Cause) (before after : Option (Registration L)) : Option Cause :=
  if before.any (·.stage = .over) = false ∧ after.any (·.stage = .over) = true then cause else none

namespace Table

/-- What moves end the registration at a place by. -/
def endsOf (t : Table L) (owner : Nat) : List (Move L) → List Cause
  | [] => []
  | m :: ms =>
    (endBetween (t.cause? m) t.registrations[owner]?
      (t.step m).1.registrations[owner]?).toList ++ (t.step m).1.endsOf owner ms

/-- What moves pass on to the registration at a place. -/
def parcelsFor (t : Table L) (owner : Nat) : List (Move L) → List Parcel
  | [] => []
  | m :: ms => (t.parcelFor? owner m).toList ++ (t.step m).1.parcelsFor owner ms

end Table

/-! ## Lives with their counts -/

/-- A registration counts what came for it, and only what it admits is accepted. -/
structure Registration.Tallies (r : Registration L) (parcels : List Parcel) : Prop where
  entries : r.entries = parcels.countP (·.delivery.kind = .entry)
  references : r.references = parcels.countP (·.delivery.kind = .reference)
  accepted : ∀ p ∈ parcels, p.accepted = r.admits p.delivery

/-- What is told of accepted parcels. -/
def Parcel.signs (owner : Nat) (id : Int32) (parcels : List Parcel) : List Sign :=
  (parcels.filter (·.accepted)).map fun p => .heard owner id (.delivery p.delivery)

namespace Registration.Tallies

variable {r r' : Registration L} {parcels : List Parcel}

theorem of_fresh (fresh : r.Fresh) : r.Tallies [] :=
  ⟨fresh.entries, fresh.references, nofun⟩

theorem of_kin (h : r.Tallies parcels) (kin : r.Kin r') : r'.Tallies parcels where
  entries := kin.entries.trans h.entries
  references := kin.references.trans h.references
  accepted p hp := by
    rw [h.accepted p hp]
    cases p.delivery <;> simp [Registration.admits, kin.kind]

/-- What comes next is counted. -/
theorem count (h : r.Tallies parcels) (owner : Nat) (d : Delivery) :
    (r.count d).Tallies (parcels ++ [⟨owner, d, r.admits d⟩]) where
  entries := by
    rw [List.countP_append, ← h.entries]
    cases d <;> rfl
  references := by
    rw [List.countP_append, ← h.references]
    cases d <;> rfl
  accepted p hp := by
    have hadmits (d' : Delivery) : (r.count d).admits d' = r.admits d' := by
      cases d <;> cases d' <;> rfl
    rw [hadmits]
    obtain hp | hp := List.mem_append.1 hp
    · exact h.accepted p hp
    · cases List.mem_singleton.1 hp
      rfl

end Registration.Tallies

/-- What came for the registration at a place, what ended it, how it is and what was told of it fit
together: all that came was counted, and heard of if it was accepted; once it is over, and not
before, one thing has ended it, and what is told of this end is told last. -/
inductive Lived (abandons : Bool) (owner : Nat) :
    Option (Registration L) → List Parcel → List Cause → List Sign → Prop
  | absent : Lived abandons owner none [] [] []
  | live {r : Registration L} {parcels : List Parcel} (live : r.stage ≠ .over)
      (tallies : r.Tallies parcels) :
      Lived abandons owner (some r) parcels [] (Parcel.signs owner r.id parcels)
  | ended {r : Registration L} {parcels : List Parcel} {cause : Cause} (verdict : Verdict)
      (now : Nat) (ended : r.stage = .over) (tallies : r.Tallies parcels)
      (timely : cause = .time → verdict = .timeout abandons) :
      Lived abandons owner (some r) parcels [cause]
        (Parcel.signs owner r.id parcels
          ++ cause.signs abandons owner r.id ((r.progress now).outcome verdict))

namespace Lived

variable {abandons : Bool} {owner : Nat} {before after : Option (Registration L)}
  {parcels : List Parcel} {causes : List Cause} {signs : List Sign}

/-- A life goes on by the fates that befall it. -/
theorem fate {parcel : Option Parcel} {cause : Option Cause} {told : List Sign}
    (h : Lived abandons owner before parcels causes signs)
    (hf : Fate abandons owner parcel cause before told after) :
    Lived abandons owner after (parcels ++ parcel.toList)
      (causes ++ (endBetween cause before after).toList) (signs ++ told) := by
  cases hf with
  | absent =>
    cases h
    exact .absent
  | @made _ r fresh =>
    cases h
    have hend : endBetween cause none (some r) = none := if_neg (by simp [fresh.live])
    rw [hend]
    exact .live fresh.live (.of_fresh fresh)
  | @stays _ r r' kin ended =>
    have hend : endBetween cause (some r) (some r') = none := if_neg (by simp [ended])
    simp only [hend, Option.toList_none, List.append_nil]
    cases h with
    | live live tallies =>
      rw [← kin.id]
      exact .live (fun hover => live (ended.1 hover)) (tallies.of_kin kin)
    | ended verdict now hover tallies timely =>
      rw [← kin.progress now, ← kin.id]
      exact .ended verdict now (ended.2 hover) (tallies.of_kin kin) timely
  | @comes _ r d pending =>
    have hstage : (r.count d).stage = r.stage := by cases d <;> rfl
    have hid : (r.count d).id = r.id := by cases d <;> rfl
    have hend : endBetween cause (some r) (some (r.count d)) = none := if_neg (by simp [hstage])
    simp only [hend, Option.toList_none, List.append_nil, Option.toList_some]
    cases h with
    | live live tallies =>
      have hsigns : Parcel.signs owner r.id parcels ++
          (if r.admits d then [.heard owner r.id (.delivery d)] else []) =
          Parcel.signs owner (r.count d).id (parcels ++ [⟨owner, d, r.admits d⟩]) := by
        rw [hid, Parcel.signs, Parcel.signs, List.filter_append, List.map_append]
        cases r.admits d <;> rfl
      rw [hsigns]
      exact .live (by rwa [hstage]) (tallies.count owner d)
    | ended _ _ hover => cases pending.symm.trans hover
  | @ends cause before r r' verdict now there live kin hover timely =>
    obtain rfl | ⟨rfl, fresh⟩ := there
    · have hend : endBetween (some cause) (some r) (some r') = some cause :=
        if_pos (by simp [live, hover])
      rw [hend]
      cases h with
      | live _ tallies =>
        rw [← kin.progress now, ← kin.id, Option.toList_none, List.append_nil]
        exact .ended verdict now hover (tallies.of_kin kin) timely
      | ended _ _ hover => exact absurd hover live
    · have hend : endBetween (some cause) none (some r') = some cause := if_pos (by simp [hover])
      rw [hend]
      cases h
      rw [← kin.progress now, ← kin.id]
      exact .ended verdict now hover ((Registration.Tallies.of_fresh fresh).of_kin kin) timely

/-- Whatever moves are followed, each registration has lived a life. -/
theorem run {t : Table L}
    (h : Lived t.abandons owner t.registrations[owner]? parcels causes signs)
    (ms : List (Move L)) :
    Lived t.abandons owner (t.run ms).1.registrations[owner]? (parcels ++ t.parcelsFor owner ms)
      (causes ++ t.endsOf owner ms) (signs ++ Sign.about owner (t.run ms).2) := by
  induction ms generalizing t parcels causes signs with
  | nil => simpa [Table.run, Table.parcelsFor, Table.endsOf, Sign.about] using h
  | cons m ms ih =>
    have hm := h.fate (t.fate_step m owner)
    rw [← t.abandons_step m] at hm
    have hms := ih hm
    rw [t.abandons_step m] at hms
    rw [Table.run, Table.parcelsFor, Table.endsOf, Sign.about_append]
    simpa only [List.append_assoc] using hms

end Lived

/-- Every registration of every run has lived a life, from the empty table on. -/
theorem lived (scheduler : Scheduler) (abandons : Bool) (owner : Nat) (ms : List (Move L)) :
    let t : Table L := .empty scheduler abandons
    Lived abandons owner (t.run ms).1.registrations[owner]? (t.parcelsFor owner ms)
      (t.endsOf owner ms) (Sign.about owner (t.run ms).2) :=
  Lived.run (t := .empty scheduler abandons) .absent ms

end Ldap
