import Ldap.Proofs.Connection.Results
import Ldap.Proofs.Pending.Fate

/-!
# What a move of a connection does to one request

A move of a connection does one thing with the table of pending operations, and one of the fates of
the table befalls each registration. The connection follows what the table tells, so that the
listener of a registration hears of its fate, and of no other. `fate_of_step` says this of every
move, and that what comes for a registration is what the move brings under its identifier.
-/

namespace Ldap

/-! ## What a listener hears -/

/-- The event that a sign tells of. -/
def Sign.event? : Sign → Option Event
  | .heard _ _ e => some e
  | .abandoning .. | .answered _ => none

/-- The events among signs that the listener of the registration at a place hears. -/
def Sign.events (owner : Nat) (signs : List Sign) : List Event :=
  (about owner signs).filterMap event?

theorem Sign.events_cons (owner : Nat) (s : Sign) (signs : List Sign) :
    events owner (s :: signs) = events owner [s] ++ events owner signs := by
  rw [← List.singleton_append, events, about_append, List.filterMap_append]
  rfl

theorem Sign.events_append (owner : Nat) (a b : List Sign) :
    events owner (a ++ b) = events owner a ++ events owner b := by
  rw [events, about_append, List.filterMap_append]
  rfl

theorem Sign.events_heard (owner other : Nat) (id : Int32) (e : Event) :
    events owner [.heard other id e] = if other = owner then [e] else [] := by
  by_cases h : other = owner <;> simp [events, about, owner?, event?, h]

/-- What is told of an end is the outcome, unless the operation is forgotten. -/
theorem Cause.events_signs (cause : Cause) (abandons : Bool) (owner : Nat) (id : Int32)
    (o : Outcome) : (cause.signs abandons owner id o).filterMap Sign.event? =
      if cause = .abandonment then [] else [.result o] := by
  cases cause <;> cases abandons <;> rfl

/-- A listener after it heard events. -/
def Listener.hearAll (l : Listener) (events : List Event) : Listener :=
  events.foldl hear l

/-- A registration whose listener heard events. -/
def Registration.hearAll (r : Registration Listener) (events : List Event) :
    Registration Listener :=
  { r with listener := r.listener.hearAll events }

theorem Registration.hearAll_append (r : Registration Listener) (a b : List Event) :
    r.hearAll (a ++ b) = (r.hearAll a).hearAll b := by
  simp [hearAll, Listener.hearAll]

namespace Table

/-! ## Fates of registrations -/

/-- What is passed on to the registration at a place. -/
def comesFor? {L : Type} (t : Table L) (owner : Nat) (passed : Option (Int32 × Delivery)) :
    Option Delivery :=
  passed.bind fun x => if t.find? x.1 = some owner then some x.2 else none

end Table

namespace Connection

/-- Whatever a connection does with its table, one of the fates befalls each registration, and what
comes for it is what is passed on to it. -/
theorem TableEffect.fate {t : Table Listener} {accepted : Option Message}
    {passed : Option (Int32 × Delivery)} {x : Table Listener × List Sign}
    (h : TableEffect t accepted passed x) (owner : Nat) :
    ∃ parcel cause, Fate t.abandons owner parcel cause t.registrations[owner]?
      (Sign.about owner x.2) x.1.registrations[owner]? ∧
      parcel.map (·.delivery) = t.comesFor? owner passed := by
  have hcall (call : Call Listener) (hcall : t.parcelOfCall? call = none) :
      ∃ parcel cause, Fate t.abandons owner parcel cause t.registrations[owner]?
        (Sign.about owner (t.call call).2) (t.call call).1.registrations[owner]? ∧
        parcel.map (·.delivery) = t.comesFor? owner none := by
    have hfate := t.fate_callFor call owner
    rw [hcall] at hfate
    exact ⟨none, _, hfate, rfl⟩
  cases h with
  | idle => exact ⟨none, none, .same _ _, rfl⟩
  | proceed => exact ⟨none, _, t.fate_step .proceed owner, rfl⟩
  | rearrange owners => exact ⟨none, _, t.fate_step (.rearrange owners) owner, rfl⟩
  | respond m => exact hcall _ rfl
  | fault id code diagnostic => exact hcall _ rfl
  | fire timer => exact hcall _ rfl
  | advance time => exact hcall _ rfl
  | failAll code diagnostic => exact hcall _ rfl
  | abandon id => exact hcall (.abandon id) rfl
  | @register q kind timeout listener table op_kind accepted =>
    have hregister := hcall (.register q.id kind timeout listener) rfl
    simp only [Table.call, accepted] at hregister
    exact hregister
  | deliver id d =>
    refine ⟨_, _, t.fate_callFor (.deliver id d) owner, ?_⟩
    rw [Table.parcelOfCall?, Table.comesFor?, Option.bind_some]
    cases hfind : t.find? id with
    | none => simp
    | some place =>
      by_cases hplace : place = owner <;> simp [hplace]

/-! ## Following the table -/

theorem registration_follow (c : Connection) (s : Sign) (owner : Nat) :
    (c.follow s).1.table.registrations[owner]? =
      c.table.registrations[owner]?.map (·.hearAll (Sign.events owner [s])) := by
  have hnothing : c.table.registrations[owner]?.map (·.hearAll []) =
      c.table.registrations[owner]? := Option.map_id'
  cases s with
  | abandoning other id =>
    have htable : (c.follow (.abandoning other id)).1.table = c.table := table_send _ _
    have hevents : Sign.events owner [.abandoning other id] = [] := by
      by_cases h : other = owner <;> simp [Sign.events, Sign.about, Sign.owner?, Sign.event?, h]
    rw [htable, hevents, hnothing]
  | answered reply => exact hnothing.symm
  | heard other id e =>
    rw [Sign.events_heard]
    simp only [follow]
    by_cases hother : other = owner
    · subst hother
      rw [if_pos rfl]
      cases hr : c.table.registrations[other]? with
      | none => exact hr
      | some r => exact Table.registrations_put _ hr
    · rw [if_neg hother, hnothing]
      split
      · rfl
      · exact List.getElem?_set_ne hother

/-- A registration is what it was when what the table tells is followed, but its listener heard of
it. -/
theorem registration_followAll (c : Connection) (told : List Sign) (owner : Nat) :
    (c.followAll told).1.table.registrations[owner]? =
      c.table.registrations[owner]?.map (·.hearAll (Sign.events owner told)) := by
  induction told generalizing c with
  | nil => exact Option.map_id'.symm
  | cons s told ih =>
    rw [Sign.events_cons]
    refine (ih (c.follow s).1).trans ?_
    rw [registration_follow, Option.map_map]
    exact congrArg (Option.map · _) (funext fun r => (r.hearAll_append _ _).symm)

theorem events_follow {c : Connection} {owner : Nat} {r : Registration Listener}
    (hr : c.table.registrations[owner]? = some r) (s : Sign) :
    Sign.events owner (signs (c.follow s).2) = Sign.events owner [s] := by
  cases s with
  | abandoning other id =>
    have hnone : signs (c.follow (.abandoning other id)).2 = [] := signs_send _ _
    rw [hnone]
    by_cases h : other = owner <;> simp [Sign.events, Sign.about, Sign.owner?, Sign.event?, h]
  | answered reply => rfl
  | heard other id e =>
    simp only [follow]
    split
    · next hnone =>
      have hother : other ≠ owner := by
        rintro rfl
        rw [hr] at hnone
        cases hnone
      rw [Sign.events_heard, if_neg hother]
      rfl
    · rfl

/-- The listener of a registration hears what the table tells of it. -/
theorem events_followAll {c : Connection} {owner : Nat} {r : Registration Listener}
    (hr : c.table.registrations[owner]? = some r) (told : List Sign) :
    Sign.events owner (signs (c.followAll told).2) = Sign.events owner told := by
  induction told generalizing c r with
  | nil => rfl
  | cons s told ih =>
    have hnext : (c.follow s).1.table.registrations[owner]? =
        some (r.hearAll (Sign.events owner [s])) := by
      rw [registration_follow, hr, Option.map_some]
    rw [Sign.events_cons, ← ih hnext, ← events_follow hr, ← Sign.events_append]
    exact congrArg (Sign.events owner) List.filterMap_append

/-! ## Moves -/

/-- What a move brings for the registration at a place. -/
def comes? (c : Connection) (owner : Nat) (m : ConnectionMove) : Option Delivery :=
  c.table.comesFor? owner (c.passed? m)

/-- One of the fates befalls a registration in every move: what comes for it is what the move brings
under its identifier, and its listener hears what is told of it. -/
theorem fate_of_step {c : Connection} {deeds : List Deed} (h : c.Sound deeds) (m : ConnectionMove)
    {owner : Nat} {r : Registration Listener} (hr : c.table.registrations[owner]? = some r) :
    ∃ parcel cause told r', Fate c.table.abandons owner parcel cause (some r) told (some r') ∧
      parcel.map (·.delivery) = c.comes? owner m ∧
      (c.step m).1.table.registrations[owner]? =
        some (r'.hearAll (told.filterMap Sign.event?)) ∧
      Sign.events owner (signs (c.step m).2) = told.filterMap Sign.event? := by
  obtain ⟨x, d, effect, htable, hseen⟩ := uses_step h m
  obtain ⟨parcel, cause, hfate, hparcel⟩ := effect.fate owner
  rw [hr] at hfate
  obtain ⟨r', hr'⟩ : ∃ r', x.1.registrations[owner]? = some r' := by
    generalize Sign.about owner x.2 = told, x.1.registrations[owner]? = after at hfate
    cases hfate with
    | stays | comes | ends => exact ⟨_, rfl⟩
  rw [hr'] at hfate
  have hthere : ({ d with table := x.1 } : Connection).table.registrations[owner]? = some r' := hr'
  refine ⟨parcel, cause, _, r', hfate, hparcel, ?_, ?_⟩
  · rw [htable, withTable, registration_followAll, hthere]
    rfl
  · rw [hseen]
    exact events_followAll hthere x.2

/-- Nothing comes for a registration that is over, and its listener hears nothing. -/
theorem over_of_step {c : Connection} {deeds : List Deed} (h : c.Sound deeds) (m : ConnectionMove)
    {owner : Nat} {r : Registration Listener} (hr : c.table.registrations[owner]? = some r)
    (hover : r.stage = .over) :
    ∃ r', (c.step m).1.table.registrations[owner]? = some r' ∧ r'.stage = .over ∧
      r'.listener = r.listener ∧ c.comes? owner m = none ∧
      Sign.events owner (signs (c.step m).2) = [] := by
  obtain ⟨parcel, cause, told, r', hfate, hparcel, hafter, hevents⟩ := fate_of_step h m hr
  obtain ⟨rfl, rfl, kin, ended⟩ := hfate.of_over hover
  exact ⟨r', hafter, ended, kin.listener, hparcel.symm, hevents⟩

end Connection
end Ldap
