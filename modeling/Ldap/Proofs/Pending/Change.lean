import Ldap.Pending.Step
import Mathlib.Tactic

/-!
# What can become of registrations

Whatever is called and whatever is next on the agenda, a registration changes in one of a few ways:
it is made, hears something, is ended, is forgotten, or changes in what its listener never hears of.
`Change` lists these ways together with the deeds that tell of them, and `Evolves` says that a table
went through some of them and through nothing else. Taking all operations out of the table, to fail
them, is the one change that is not in the list; `drained` has a section of its own.
-/

namespace Ldap

variable {L : Type}

/-! ## Deeds -/

/-- What befalls a registration, which is named by its place. -/
inductive Deed where
  | registered (owner : Nat)
  /-- Its listener begins to hear an event. -/
  | heard (owner : Nat) (event : Event)
  /-- A call to forget it was answered with success. -/
  | abandoned (owner : Nat)
  deriving DecidableEq, Repr

namespace Deed

/-- The place of the registration that a deed befalls. -/
def owner : Deed → Nat
  | registered owner | heard owner _ | abandoned owner => owner

/-- The deed that a sign of the table tells of. -/
def ofSign? : Sign → Option Deed
  | .heard owner _ event => some (heard owner event)
  | .abandoning .. | .answered _ => none

/-- The deeds that signs of the table tell of. -/
def ofSigns (signs : List Sign) : List Deed :=
  signs.filterMap ofSign?

@[simp] theorem ofSigns_nil : ofSigns [] = [] := rfl

@[simp] theorem ofSigns_append (a b : List Sign) : ofSigns (a ++ b) = ofSigns a ++ ofSigns b :=
  List.filterMap_append

@[simp] theorem ofSigns_heard (owner : Nat) (id : Int32) (event : Event) :
    ofSigns [.heard owner id event] = [heard owner event] := rfl

@[simp] theorem ofSigns_answered (reply : Reply) : ofSigns [.answered reply] = [] := rfl

@[simp] theorem ofSigns_ite_abandoning (c : Prop) [Decidable c] (owner : Nat) (id : Int32) :
    ofSigns (if c then [.abandoning owner id] else []) = [] := by
  split <;> rfl

end Deed

/-! ## Changes -/

/-- Replacing a member by one that is the same to a function is nothing to it. -/
theorem map_set_of_getElem? {α β : Type} {f : α → β} {as : List α} {place : Nat} {a b : α}
    (there : as[place]? = some a) (same : f b = f a) : (as.set place b).map f = as.map f := by
  have hat : (as.map f)[place]? = some (f b) := by
    rw [List.getElem?_map, there, Option.map_some, same]
  obtain ⟨hlt, heq⟩ := List.getElem?_eq_some_iff.1 hat
  rw [List.map_set, ← heq, List.set_getElem_self]

/-- One thing that can become of registrations, with the deeds that tell of it. -/
inductive Change : List (Registration L) → List Deed → List (Registration L) → Prop
  /-- A registration is made, under an identifier that no pending one has. -/
  | register {rs : List (Registration L)} (r : Registration L) (pending : r.stage = .pending)
      (uncounted : r.entries = 0 ∧ r.references = 0) (fresh : ∀ s ∈ rs, s.isPending r.id = false) :
      Change rs [.registered rs.length] (rs ++ [r])
  /-- A pending registration hears of what came for it. -/
  | hear {rs : List (Registration L)} {owner : Nat} {r : Registration L} (d : Delivery)
      (there : rs[owner]? = some r) (pending : r.stage = .pending) (admits : r.admits d = true) :
      Change rs [.heard owner (.delivery d)] (rs.set owner (r.count d))
  /-- What came may not come for a registration of its kind, and is counted all the same. -/
  | refuse {rs : List (Registration L)} {owner : Nat} {r : Registration L} (d : Delivery)
      (there : rs[owner]? = some r) (pending : r.stage = .pending) (admits : r.admits d = false) :
      Change rs [] (rs.set owner (r.count d))
  /-- A registration that is not over hears its outcome. -/
  | finish {rs : List (Registration L)} {owner : Nat} {r : Registration L} (byTimer : Bool)
      (verdict : Verdict) (now : Nat) (there : rs[owner]? = some r) (live : r.stage ≠ .over) :
      Change rs [.heard owner (.result ((r.progress now).outcome verdict))]
        (rs.set owner (r.finish byTimer))
  /-- A pending registration is forgotten. -/
  | abandon {rs : List (Registration L)} {owner : Nat} {r : Registration L}
      (there : rs[owner]? = some r) (pending : r.stage = .pending) :
      Change rs [.abandoned owner] (rs.set owner (r.finish false))
  /-- The timer or the listener changes. -/
  | adjust {rs : List (Registration L)} {owner : Nat} {r : Registration L} (listener : L)
      (timer : Option Timer) (there : rs[owner]? = some r) :
      Change rs [] (rs.set owner { r with listener, timer })

/-- Some changes one after the other, with their deeds. -/
inductive Changes : List (Registration L) → List Deed → List (Registration L) → Prop
  | refl (rs : List (Registration L)) : Changes rs [] rs
  | step {rs rs' rs'' : List (Registration L)} {deeds later : List Deed} :
      Change rs deeds rs' → Changes rs' later rs'' → Changes rs (deeds ++ later) rs''

namespace Changes

variable {rs rs' rs'' : List (Registration L)} {deeds later : List Deed}

/-- One change. -/
theorem single (h : Change rs deeds rs') : Changes rs deeds rs' := by
  simpa using Changes.step h (.refl rs')

/-- What was done in two steps was done in one, and the deeds stand one behind the other. -/
theorem trans (h : Changes rs deeds rs') (h' : Changes rs' later rs'') :
    Changes rs (deeds ++ later) rs'' := by
  -- on the changes that come first
  induction h with
  | refl => exact h'
  | step hc _ ih =>
    rw [List.append_assoc]
    exact .step hc (ih h')

/-- No registration is removed. -/
theorem length_le (h : Changes rs deeds rs') : rs.length ≤ rs'.length := by
  induction h with
  | refl => exact le_rfl
  | step hc _ ih => cases hc <;> simp_all; omega

end Changes

/-! ## What calls do -/

namespace Table

/-- A table went through changes of its registrations, and is else as it was. -/
structure Evolves (t : Table L) (deeds : List Deed) (t' : Table L) : Prop where
  changes : Changes t.registrations deeds t'.registrations
  agenda : t'.agenda = t.agenda
  scheduler : t'.scheduler = t.scheduler

theorem Evolves.refl (t : Table L) : t.Evolves [] t :=
  ⟨.refl _, rfl, rfl⟩

theorem Evolves.trans {t t' t'' : Table L} {deeds later : List Deed} (h : t.Evolves deeds t')
    (h' : t'.Evolves later t'') : t.Evolves (deeds ++ later) t'' :=
  ⟨h.changes.trans h'.changes, h'.agenda.trans h.agenda, h'.scheduler.trans h.scheduler⟩

/-- Replacing a registration is one change if it is one of the list. -/
theorem Evolves.put {t : Table L} {owner : Nat} {r : Registration L} {deeds : List Deed}
    (h : Change t.registrations deeds (t.registrations.set owner r)) :
    t.Evolves deeds (t.put owner r) :=
  ⟨.single h, rfl, rfl⟩

/-- What signs put on the agenda are listeners that begin to hear something. -/
theorem exists_hearing_of_mem {signs : List Sign} :
    ∀ a ∈ hearings signs, ∃ owner, a = .hearing owner := by
  intro a ha
  obtain ⟨s, -, hs⟩ := List.mem_filterMap.1 ha
  cases s with
  | heard owner id event => exact ⟨owner, (Option.some.inj hs).symm⟩
  | abandoning owner id => cases hs
  | answered reply => cases hs

/-- An identifier leads to a pending registration that has it. -/
theorem pending_of_find? {t : Table L} {id : Int32} {owner : Nat} (h : t.find? id = some owner) :
    ∃ r, t.registrations[owner]? = some r ∧ r.stage = .pending ∧ r.id = id := by
  obtain ⟨hlt, hp, -⟩ := List.findIdx?_eq_some_iff_getElem.1 h
  refine ⟨_, List.getElem?_eq_getElem hlt, ?_⟩
  simpa [Registration.isPending] using hp

/-- A registration that was put at a place is there. -/
theorem registrations_put {t : Table L} {owner : Nat} {r : Registration L} (r' : Registration L)
    (there : t.registrations[owner]? = some r) :
    (t.put owner r').registrations[owner]? = some r' :=
  List.getElem?_set_self (List.getElem?_eq_some_iff.1 there).1

/-- What was ended is a registration that was not over. The table is the one with that registration
ended, and its listener hears the outcome, after the server if a timer ended it. -/
theorem exists_live_of_finish {t t' : Table L} {owner : Nat} {byTimer : Bool} {verdict : Verdict}
    {p : Progress} {signs : List Sign}
    (h : t.finish owner byTimer verdict = some (p, t', signs)) :
    ∃ r, t.registrations[owner]? = some r ∧ r.stage ≠ .over ∧ p = r.progress t.now ∧
      t' = t.put owner (r.finish byTimer) ∧
      signs = (if byTimer && t.abandons then [.abandoning owner r.id] else [])
        ++ [.heard owner r.id (.result ((r.progress t.now).outcome verdict))] := by
  unfold finish at h
  split at h
  · cases h
  · next r hr =>
    split at h
    · cases h
    · next hlive =>
      simp only [Option.some.injEq, Prod.mk.injEq] at h
      exact ⟨r, hr, hlive, h.1.symm, h.2.1.symm, h.2.2.symm⟩

/-- An end is a deed of the registration that is ended. -/
theorem evolves_finish {t t' : Table L} {owner : Nat} {byTimer : Bool} {verdict : Verdict}
    {p : Progress} {signs : List Sign}
    (h : t.finish owner byTimer verdict = some (p, t', signs)) :
    t.Evolves (Deed.ofSigns signs) t' := by
  obtain ⟨r, hr, hlive, -, rfl, rfl⟩ := exists_live_of_finish h
  simpa using Evolves.put (.finish byTimer verdict t.now hr hlive)

/-- A registration whose time is up is ended by the client. -/
theorem evolves_expire (t : Table L) (owner : Nat) :
    t.Evolves (Deed.ofSigns (t.expire owner).2.2) (t.expire owner).2.1 := by
  unfold expire
  split
  · next h => exact evolves_finish h
  · exact .refl t

theorem evolves_complete (t : Table L) (id : Int32) (verdict : Verdict) :
    t.Evolves (Deed.ofSigns (t.complete id verdict).2.2) (t.complete id verdict).2.1 := by
  unfold complete
  split
  · next h =>
    rcases Option.bind_eq_some_iff.1 h with ⟨owner, -, hf⟩
    exact evolves_finish hf
  · exact .refl t

theorem evolves_timeout (t : Table L) (id : Int32) :
    t.Evolves (Deed.ofSigns (t.timeout id).2.2) (t.timeout id).2.1 := by
  unfold timeout
  split
  · exact evolves_expire t _
  · exact .refl t

/-- A delivery is a deed only if it is admitted; it is counted anyway. -/
theorem evolves_deliver (t : Table L) (id : Int32) (d : Delivery) :
    t.Evolves (Deed.ofSigns (t.deliver id d).2.2) (t.deliver id d).2.1 := by
  unfold deliver
  split
  · exact .refl t
  · next owner howner =>
    obtain ⟨r, hr, hp, -⟩ := pending_of_find? howner
    simp only [hr]
    split
    · next hadm => exact .put (.hear d hr hp hadm)
    · next hadm => exact .put (.refuse d hr hp (by simpa using hadm))

theorem evolves_ring (t : Table L) (owner : Nat) :
    t.Evolves (Deed.ofSigns (t.ring owner).2.2) (t.ring owner).2.1 := by
  unfold ring
  split
  · exact .refl t
  · next r hr =>
    split
    · exact .refl t
    · next timer _ =>
      split
      · exact .refl t
      · -- the timer is marked first, so that the listener finds it gone off
        have hput : t.Evolves [] (t.put owner { r with timer := some timer.fire }) :=
          .put (.adjust r.listener (some timer.fire) hr)
        exact hput.trans (evolves_expire _ owner)

/-- A timer does to the table what its registration would do if it rang. -/
theorem evolves_fire (t : Table L) (timer : Nat) :
    t.Evolves (Deed.ofSigns (t.fire timer).2.2) (t.fire timer).2.1 := by
  unfold fire
  split
  · exact evolves_ring t _
  · exact .refl t

/-- The deeds of a call to forget an operation. -/
def deedsOfAbandon (t : Table L) (id : Int32) : List Deed :=
  if (t.abandon id).1 then ((t.find? id).map .abandoned).toList else []

/-- Nothing is registered by forgetting an operation. -/
theorem registered_not_mem_deedsOfAbandon (t : Table L) (id : Int32) (owner : Nat) :
    .registered owner ∉ t.deedsOfAbandon id := by
  unfold deedsOfAbandon
  split
  · cases t.find? id <;> simp
  · exact List.not_mem_nil

/-- An abandonment is a deed that no listener hears of. -/
theorem evolves_abandon (t : Table L) (id : Int32) :
    t.Evolves (t.deedsOfAbandon id) (t.abandon id).2 := by
  unfold deedsOfAbandon abandon
  split
  · exact .refl t
  · next owner howner =>
    obtain ⟨r, hr, hp, -⟩ := pending_of_find? howner
    simp only [hr, if_true, howner, Option.map_some, Option.toList_some]
    exact .put (.abandon hr hp)

/-- What was registered stands behind the registrations, under an identifier that was free. This is
all, unless timers go off where they are armed: then the time of the operation may be up at once. -/
theorem register_cases {t t' : Table L} {id : Int32} {kind : OperationKind} {timeout : Option Nat}
    {listener : L} {signs : List Sign}
    (h : t.register id kind timeout listener = .ok (t', signs)) :
    ∃ r : Registration L, r.id = id ∧ r.kind = kind ∧ r.listener = listener ∧ r.stage = .pending ∧
      (r.entries = 0 ∧ r.references = 0) ∧ t.contains r.id = false ∧
      (t' = { t with registrations := t.registrations ++ [r] } ∧ signs = [] ∨
        t.scheduler = .immediate ∧
        (({ t with registrations := t.registrations ++ [r] } : Table L).expire
          t.registrations.length).2 = (t', signs)) := by
  unfold register at h
  split at h
  · cases h
  split at h
  · cases h
  split at h
  · cases h
  -- what is left are identifiers that are usable and free
  next hfree =>
  rw [Bool.not_eq_true] at hfree
  split at h
  · cases h
    exact ⟨_, rfl, rfl, rfl, rfl, ⟨rfl, rfl⟩, hfree, .inl ⟨rfl, rfl⟩⟩
  split at h
  · next himmediate =>
    exact ⟨_, rfl, rfl, rfl, rfl, ⟨rfl, rfl⟩, hfree, .inr ⟨himmediate, Except.ok.inj h⟩⟩
  · cases h
    exact ⟨_, rfl, rfl, rfl, rfl, ⟨rfl, rfl⟩, hfree, .inl ⟨rfl, rfl⟩⟩

/-- Adding a registration under an identifier that is free. -/
theorem evolves_add {t : Table L} {r : Registration L} (hp : r.stage = .pending)
    (hc : r.entries = 0 ∧ r.references = 0) (hfree : t.contains r.id = false) :
    t.Evolves [.registered t.registrations.length]
      { t with registrations := t.registrations ++ [r] } := by
  refine ⟨.single (.register r hp hc ?_), rfl, rfl⟩
  intro s hs
  exact Bool.eq_false_iff.2 fun h => by simp_all [contains]

/-- A registration that is accepted is made before its listener hears anything. -/
theorem evolves_register {t t' : Table L} {id : Int32} {kind : OperationKind}
    {timeout : Option Nat} {listener : L} {signs : List Sign}
    (h : t.register id kind timeout listener = .ok (t', signs)) :
    t.Evolves (.registered t.registrations.length :: Deed.ofSigns signs) t' := by
  obtain ⟨r, -, -, -, hpending, huncounted, hfree, ⟨rfl, rfl⟩ | ⟨-, hexpire⟩⟩ := register_cases h
  · exact evolves_add hpending huncounted hfree
  · -- the timer goes off at once, so that the listener hears its outcome within the call
    have hexpires := evolves_expire { t with registrations := t.registrations ++ [r] }
      t.registrations.length
    rw [hexpire] at hexpires
    exact (evolves_add hpending huncounted hfree).trans hexpires

end Table
end Ldap
