import Ldap.Proofs.Pending.Change

/-!
# The life of a registration

A run of the table is followed by a chronicle of deeds, and the deeds that befall one registration
are its life: it is made, hears what comes for it, and at last hears its outcome or is forgotten.
`life_of_registration` says that every registration of every run lives like that, whatever listeners
call from within, and that it stands in the table, between calls, exactly until its last deed.

The induction over the run carries `Sound`: the chronicle fits the stages of the registrations, no
two pending ones share an identifier, and those taken out of the table are still to be failed.
-/

namespace Ldap

variable {L : Type}

/-! ## Lives -/

namespace Deed

/-- The deeds that befall the registration at a place. -/
def lifeOf (owner : Nat) (deeds : List Deed) : List Deed :=
  deeds.filter (·.owner = owner)

/-- The life of a registration for which some deliveries came, up to its last deed if there is
one. -/
def life (owner : Nat) (ds : List Delivery) (last : Option Deed) : List Deed :=
  registered owner :: ds.map (fun d => heard owner (.delivery d)) ++ last.toList

/-- Whether a deed ends the life of a registration: it is forgotten or hears its outcome. -/
def IsLast (owner : Nat) (deed : Deed) : Prop :=
  deed = abandoned owner ∨ ∃ o, deed = heard owner (.result o)

theorem lifeOf_append (owner : Nat) (a b : List Deed) :
    lifeOf owner (a ++ b) = lifeOf owner a ++ lifeOf owner b :=
  List.filter_append ..

theorem lifeOf_eq_self {owner : Nat} {deeds : List Deed} (h : ∀ d ∈ deeds, d.owner = owner) :
    lifeOf owner deeds = deeds :=
  List.filter_eq_self.2 fun d hd => by simpa using h d hd

theorem lifeOf_eq_nil {owner other : Nat} {deeds : List Deed} (h : ∀ d ∈ deeds, d.owner = other)
    (hne : other ≠ owner) : lifeOf owner deeds = [] :=
  List.filter_eq_nil_iff.2 fun d hd => by simpa [h d hd] using hne

end Deed

open Deed (lifeOf life IsLast)

/-! ## Chronicles and stages -/

/-- A chronicle fits registrations: each has lived the life of one that is over, or not yet over, as
its stage says. -/
structure Recorded (rs : List (Registration L)) (deeds : List Deed) : Prop where
  missing : ∀ owner, rs.length ≤ owner → lifeOf owner deeds = []
  present : ∀ owner r, rs[owner]? = some r → ∃ ds last, lifeOf owner deeds = life owner ds last ∧
    (∀ d ∈ last, IsLast owner d) ∧ (last = none ↔ r.stage ≠ .over)

namespace Recorded

variable {rs rs' : List (Registration L)} {deeds new : List Deed}

/-- When one registration changes, only its own life has to be looked at. -/
theorem set {owner : Nat} {r r' : Registration L} (h : Recorded rs deeds)
    (there : rs[owner]? = some r) (hnew : ∀ d ∈ new, d.owner = owner)
    (hlife : ∀ ds last, (∀ d ∈ last, IsLast owner d) → (last = none ↔ r.stage ≠ .over) →
      ∃ ds' last', life owner ds last ++ new = life owner ds' last' ∧
        (∀ d ∈ last', IsLast owner d) ∧ (last' = none ↔ r'.stage ≠ .over)) :
    Recorded (rs.set owner r') (deeds ++ new) := by
  have hlt : owner < rs.length := (List.getElem?_eq_some_iff.1 there).1
  constructor
  · intro other hother
    rw [List.length_set] at hother
    rw [Deed.lifeOf_append, h.missing other hother, Deed.lifeOf_eq_nil hnew (by omega)]
    rfl
  · intro other s hs
    rw [Deed.lifeOf_append]
    -- the others live on as before, as no new deed befalls them
    by_cases heq : owner = other
    · subst heq
      rw [List.getElem?_set_self hlt] at hs
      obtain rfl := Option.some.inj hs
      obtain ⟨ds, last, hl, hlast, hover⟩ := h.present owner r there
      rw [hl, Deed.lifeOf_eq_self hnew]
      exact hlife ds last hlast hover
    · rw [List.getElem?_set_ne heq] at hs
      rw [Deed.lifeOf_eq_nil hnew heq, List.append_nil]
      exact h.present other s hs

/-- A chronicle goes on to fit when nothing is told of a registration and its stage stays. -/
theorem set_same {owner : Nat} {r r' : Registration L} (h : Recorded rs deeds)
    (there : rs[owner]? = some r) (hstage : r'.stage = r.stage) :
    Recorded (rs.set owner r') deeds := by
  have hset : Recorded (rs.set owner r') (deeds ++ []) := by
    refine h.set there (by simp) fun ds last hlast hover => ⟨ds, last, by simp, hlast, ?_⟩
    rw [hstage]
    exact hover
  simpa using hset

/-- A chronicle goes on to fit when a registration lives its last deed. -/
theorem set_last {owner : Nat} {r r' : Registration L} {deed : Deed} (h : Recorded rs deeds)
    (there : rs[owner]? = some r) (live : r.stage ≠ .over) (hdeed : IsLast owner deed)
    (hover : r'.stage = .over) : Recorded (rs.set owner r') (deeds ++ [deed]) := by
  refine h.set there ?_ fun ds last _ hlast => ⟨ds, some deed, ?_, ?_, ?_⟩
  · rcases hdeed with rfl | ⟨o, rfl⟩ <;> simp [Deed.owner]
  · rw [hlast.2 live]
    simp [life]
  · simpa using hdeed
  · simp [hover]

/-- Each change tells what it does. -/
theorem change (h : Recorded rs deeds) (hc : Change rs new rs') : Recorded rs' (deeds ++ new) := by
  cases hc with
  | register r pending _ _ =>
    have hnew : ∀ d ∈ [Deed.registered rs.length], d.owner = rs.length := by simp [Deed.owner]
    constructor
    · intro owner howner
      rw [List.length_append, List.length_singleton] at howner
      rw [Deed.lifeOf_append, h.missing owner (by omega), Deed.lifeOf_eq_nil hnew (by omega)]
      rfl
    · intro owner s hs
      rw [Deed.lifeOf_append]
      -- a place that was there before, or the new one at the end
      by_cases hlt : owner < rs.length
      · rw [List.getElem?_append_left hlt] at hs
        rw [Deed.lifeOf_eq_nil hnew (by omega), List.append_nil]
        exact h.present owner s hs
      · obtain ⟨rfl, rfl⟩ : owner = rs.length ∧ r = s := by
          rw [List.getElem?_append_right (by omega)] at hs
          have hz := (List.getElem?_eq_some_iff.1 hs).1
          rw [List.length_singleton] at hz
          refine ⟨by omega, ?_⟩
          rw [show owner - rs.length = 0 by omega] at hs
          exact Option.some.inj hs
        rw [h.missing _ le_rfl, Deed.lifeOf_eq_self hnew]
        exact ⟨[], none, rfl, by simp, by simp [pending]⟩
  | hear d there pending _ =>
    refine h.set there (by simp [Deed.owner]) fun ds last _ hlast => ⟨ds ++ [d], none, ?_, ?_, ?_⟩
    · rw [hlast.2 (by simp [pending])]
      simp [life]
    · simp
    · cases d <;> simp [Registration.count, pending]
  | refuse d there _ _ =>
    -- a delivery of the wrong kind is counted, but nobody hears of it
    rw [List.append_nil]
    exact h.set_same there (by cases d <;> rfl)
  | finish byTimer verdict now there live =>
    exact h.set_last there live (.inr ⟨_, rfl⟩) rfl
  | abandon there pending =>
    exact h.set_last there (by simp [pending]) (.inl rfl) rfl
  | adjust listener timer there =>
    rw [List.append_nil]
    exact h.set_same there rfl

theorem changes (h : Recorded rs deeds) (hc : Changes rs new rs') :
    Recorded rs' (deeds ++ new) := by
  induction hc generalizing deeds with
  | refl => simpa using h
  | step hc _ ih =>
    rw [← List.append_assoc]
    exact ih (h.change hc)

/-- Taking all operations out of the table ends no life. -/
theorem drain (h : Recorded rs deeds) : Recorded (rs.map Registration.drain) deeds := by
  constructor
  · simpa using h.missing
  · intro owner s hs
    rw [List.getElem?_map, Option.map_eq_some_iff] at hs
    rcases hs with ⟨r, hr, rfl⟩
    obtain ⟨ds, last, hl, hlast, hover⟩ := h.present owner r hr
    refine ⟨ds, last, hl, hlast, hover.trans ?_⟩
    unfold Registration.drain
    split <;> simp_all

end Recorded

/-! ## Registrations that are not over -/

/-- A registration that is not over has come from one of the same stage and identifier, or was just
made under a free identifier. -/
theorem Change.origin {rs rs' : List (Registration L)} {deeds : List Deed}
    (h : Change rs deeds rs') {owner : Nat} {s : Registration L} (hs : rs'[owner]? = some s)
    (live : s.stage ≠ .over) :
    (∃ r, rs[owner]? = some r ∧ r.stage = s.stage ∧ r.id = s.id) ∨
      (owner = rs.length ∧ s.stage = .pending ∧ deeds = [.registered owner] ∧
        ∀ r ∈ rs, r.isPending s.id = false) := by
  -- all changes but the first replace one registration
  have hset : ∀ (place : Nat) (r r' : Registration L), rs[place]? = some r →
      rs' = rs.set place r' → (r'.stage ≠ .over → r'.stage = r.stage ∧ r'.id = r.id) →
      ∃ r, rs[owner]? = some r ∧ r.stage = s.stage ∧ r.id = s.id := by
    intro place r r' there heq hsame
    subst heq
    by_cases hplace : place = owner
    · subst hplace
      rw [List.getElem?_set_self (List.getElem?_eq_some_iff.1 there).1] at hs
      obtain rfl := Option.some.inj hs
      exact ⟨r, there, (hsame live).1.symm, (hsame live).2.symm⟩
    · rw [List.getElem?_set_ne hplace] at hs
      exact ⟨s, hs, rfl, rfl⟩
  cases h with
  | register r pending _ fresh =>
    by_cases hlt : owner < rs.length
    · rw [List.getElem?_append_left hlt] at hs
      exact .inl ⟨s, hs, rfl, rfl⟩
    · rw [List.getElem?_append_right (by omega), List.getElem?_singleton] at hs
      split at hs
      · obtain rfl := Option.some.inj hs
        obtain rfl : owner = rs.length := by omega
        exact .inr ⟨rfl, pending, rfl, fresh⟩
      · cases hs
  | hear d there _ _ | refuse d there _ _ =>
    exact .inl (hset _ _ _ there rfl fun _ => by cases d <;> exact ⟨rfl, rfl⟩)
  | finish _ _ _ there _ | abandon there _ =>
    exact .inl (hset _ _ _ there rfl fun hover => absurd rfl hover)
  | adjust _ _ there => exact .inl (hset _ _ _ there rfl fun _ => ⟨rfl, rfl⟩)

/-- No two pending registrations have the same identifier. -/
def PendingDistinct (rs : List (Registration L)) : Prop :=
  ∀ (i j : Nat) (r s : Registration L), rs[i]? = some r → rs[j]? = some s →
    r.stage = .pending → s.stage = .pending → r.id = s.id → i = j

namespace PendingDistinct

variable {rs rs' : List (Registration L)} {deeds : List Deed}

theorem change (h : PendingDistinct rs) (hc : Change rs deeds rs') : PendingDistinct rs' := by
  intro i j r s hr hs hrp hsp hid
  -- two that were there before, or one of them is new and its identifier was free
  rcases hc.origin hr (by simp [hrp]) with ⟨r₀, hr₀, hrs, hri⟩ | ⟨rfl, -, -, hfresh⟩ <;>
    rcases hc.origin hs (by simp [hsp]) with ⟨s₀, hs₀, hss, hsi⟩ | ⟨rfl, -, -, hfresh'⟩
  · exact h i j r₀ s₀ hr₀ hs₀ (hrs.trans hrp) (hss.trans hsp) (by rw [hri, hsi, hid])
  · have hp := hfresh' r₀ (List.mem_of_getElem? hr₀)
    simp [Registration.isPending, hrs, hrp, hri, hid] at hp
  · have hp := hfresh s₀ (List.mem_of_getElem? hs₀)
    simp [Registration.isPending, hss, hsp, hsi, hid] at hp
  · rfl

theorem changes (h : PendingDistinct rs) (hc : Changes rs deeds rs') : PendingDistinct rs' := by
  induction hc with
  | refl => exact h
  | step hc _ ih => exact ih (h.change hc)

theorem drain (rs : List (Registration L)) : PendingDistinct (rs.map Registration.drain) := by
  intro i j r s hr _ hrp
  rw [List.getElem?_map, Option.map_eq_some_iff] at hr
  rcases hr with ⟨r₀, -, rfl⟩
  unfold Registration.drain at hrp
  split at hrp <;> simp_all

end PendingDistinct

/-- After some changes a registration that is not over is of the stage that it had before, or is one
that was made meanwhile. -/
theorem Changes.origin {rs rs' : List (Registration L)} {deeds : List Deed}
    (h : Changes rs deeds rs') {owner : Nat} {s : Registration L} (hs : rs'[owner]? = some s)
    (live : s.stage ≠ .over) :
    (∃ r, rs[owner]? = some r ∧ r.stage = s.stage ∧ r.id = s.id) ∨
      (s.stage = .pending ∧ .registered owner ∈ deeds) := by
  -- on the changes, from the first one: what is made by it may change in the later ones
  induction h with
  | refl => exact .inl ⟨s, hs, rfl, rfl⟩
  | step hc _ ih =>
    rcases ih hs with ⟨r, hr, hstage, hid⟩ | ⟨hp, hmem⟩
    · rcases hc.origin hr (by rwa [hstage]) with ⟨r₀, hr₀, hstage₀, hid₀⟩ | ⟨rfl, hp, hnew, -⟩
      · exact .inl ⟨r₀, hr₀, hstage₀.trans hstage, hid₀.trans hid⟩
      · exact .inr ⟨hstage.symm.trans hp, by simp [hnew]⟩
    · exact .inr ⟨hp, List.mem_append_right _ hmem⟩

/-- A registration that was taken out of the table was so before. -/
theorem Changes.drained {rs rs' : List (Registration L)} {deeds : List Deed}
    (h : Changes rs deeds rs') {owner : Nat} {s : Registration L} (hs : rs'[owner]? = some s)
    (hdrained : s.stage = .drained) : ∃ r, rs[owner]? = some r ∧ r.stage = .drained := by
  rcases h.origin hs (by simp [hdrained]) with ⟨r, hr, hstage, -⟩ | ⟨hp, -⟩
  · exact ⟨r, hr, hstage.trans hdrained⟩
  · simp [hdrained] at hp

/-! ## Steps -/

namespace Table

/-- A table went through changes, and nothing on its agenda was lost. -/
structure Advances (t : Table L) (deeds : List Deed) (t' : Table L) : Prop where
  changes : Changes t.registrations deeds t'.registrations
  agenda : t.agenda <:+ t'.agenda
  scheduler : t'.scheduler = t.scheduler

theorem Evolves.advances {t t' : Table L} {deeds : List Deed} (h : t.Evolves deeds t') :
    t.Advances deeds t' :=
  ⟨h.changes, by rw [h.agenda], h.scheduler⟩

/-- What a call puts on the agenda stands before what is there. -/
theorem Evolves.resume {t t' : Table L} {deeds : List Deed} (h : t.Evolves deeds t')
    (signs : List Sign) (rest : List Activity) :
    t.Advances deeds (t'.resume signs rest).1 := by
  refine ⟨h.changes, ?_, h.scheduler⟩
  unfold Table.resume
  rw [h.agenda]
  exact List.suffix_append _ _

/-- The deeds of a call that no listener hears of. -/
def deedsOfCall (t : Table L) : Call L → List Deed
  | .register id kind timeout listener =>
    match t.register id kind timeout listener with
    | .ok _ => [.registered t.registrations.length]
    | .error _ => []
  | .abandon id => t.deedsOfAbandon id
  | _ => []

/-- Every call but the one that fails all operations makes changes and adds to the agenda. -/
theorem advances_call (t : Table L) (c : Call L) :
    (∃ code diagnostic, c = .failAll code diagnostic) ∨
      t.Advances (t.deedsOfCall c ++ Deed.ofSigns (t.call c).2) (t.call c).1 := by
  cases c with
  | register id kind timeout listener =>
    right
    cases h : t.register id kind timeout listener with
    | ok x =>
      simp only [call, deedsOfCall, h]
      exact (evolves_register h).resume _ _
    | error e =>
      simp only [call, deedsOfCall, h]
      exact (Evolves.refl t).resume _ _
  | deliver id d => exact .inr ((evolves_deliver t id d).resume _ _)
  | complete id verdict => exact .inr ((evolves_complete t id verdict).resume _ _)
  | timeout id => exact .inr ((evolves_timeout t id).resume _ _)
  | abandon id =>
    right
    -- an abandonment is told by its answer, as no listener hears of it
    have h := (evolves_abandon t id).resume [] [.answering (.flag (t.abandon id).1)]
    simpa [call, deedsOfCall, Table.resume] using h
  | failAll code diagnostic => exact .inl ⟨code, diagnostic, rfl⟩
  | fire timer => exact .inr ((evolves_fire t timer).resume _ _)
  | advance time =>
    have hclock : t.Evolves [] { t with now := t.now + time } := ⟨.refl _, rfl, rfl⟩
    exact .inr (hclock.resume _ _)
  | query id => exact .inr ((Evolves.refl t).resume _ _)
  | describe => exact .inr ((Evolves.refl t).resume _ _)

/-- Whatever is done next makes changes and adds to the agenda. -/
theorem advances_perform (t : Table L) (a : Activity) :
    t.Advances (Deed.ofSigns (t.perform a).2) (t.perform a).1 := by
  cases a with
  | hearing _ => exact (Evolves.refl t).advances
  | answering reply => exact (Evolves.refl t).advances
  | ringing =>
    simp only [perform]
    split
    · exact (Evolves.refl t).advances
    · exact (evolves_ring t _).resume _ _
  | failing owners code diagnostic finished =>
    cases owners with
    | nil => exact (Evolves.refl t).resume _ _
    | cons owner owners =>
      simp only [perform]
      split
      · next h => exact (evolves_finish h).resume _ _
      · exact (Evolves.refl t).resume _ _

/-- Whether a registration is on an agenda to be failed. -/
def Listed (agenda : List Activity) (owner : Nat) : Prop :=
  ∃ owners code diagnostic finished,
    .failing owners code diagnostic finished ∈ agenda ∧ owner ∈ owners

/-- An operation that is failed is not failed again, and the others on the list stay there. -/
theorem listed_perform_failing (t : Table L) {first owner : Nat} (owners : List Nat)
    (code : ResultCode) (diagnostic : String) (finished : Nat) (hmem : owner ∈ first :: owners)
    {r : Registration L}
    (hr : (t.perform (.failing (first :: owners) code diagnostic finished)).1.registrations[owner]?
      = some r) (hdrained : r.stage = .drained) :
    Listed (t.perform (.failing (first :: owners) code diagnostic finished)).1.agenda owner := by
  rcases List.mem_cons.1 hmem with rfl | hmem
  · -- the first one is over now, or was before
    exfalso
    simp only [perform] at hr
    cases hf : t.finish owner false (.clientSide code diagnostic) with
    | some x =>
      rcases x with ⟨p, t', signs⟩
      rw [hf] at hr
      obtain ⟨r₀, hr₀, -, -, rfl, -⟩ := exists_live_of_finish hf
      obtain rfl : r₀.finish false = r := Option.some.inj ((registrations_put _ hr₀).symm.trans hr)
      cases hdrained
    | none =>
      rw [hf] at hr
      replace hr : t.registrations[owner]? = some r := hr
      simp [finish, hr, hdrained] at hf
  · simp only [perform]
    split
    · exact ⟨owners, code, diagnostic, finished + 1, by simp [resume], hmem⟩
    · exact ⟨owners, code, diagnostic, finished, by simp [resume], hmem⟩

/-! ## What holds in every run -/

/-- The chronicle of a table fits its registrations, no two pending ones share an identifier, and
those that were taken out of the table are still to be failed. -/
structure Sound (t : Table L) (deeds : List Deed) : Prop where
  recorded : Recorded t.registrations deeds
  distinct : PendingDistinct t.registrations
  listed : ∀ owner r, t.registrations[owner]? = some r → r.stage = .drained →
    Listed t.agenda owner

namespace Sound

variable {t t' : Table L} {deeds new : List Deed}

theorem advances (h : t.Sound deeds) (ha : t.Advances new t') : t'.Sound (deeds ++ new) := by
  refine ⟨h.recorded.changes ha.changes, h.distinct.changes ha.changes, fun owner s hs hsd => ?_⟩
  obtain ⟨r, hr, hrd⟩ := ha.changes.drained hs hsd
  obtain ⟨owners, code, diagnostic, n, hmem, howner⟩ := h.listed owner r hr hrd
  exact ⟨owners, code, diagnostic, n, ha.agenda.subset hmem, howner⟩

theorem failAll (h : t.Sound deeds) (code : ResultCode) (diagnostic : String) :
    (t.failAll code diagnostic).Sound deeds := by
  refine ⟨h.recorded.drain, .drain _, fun owner s hs hsd => ?_⟩
  replace hs : (t.registrations.map Registration.drain)[owner]? = some s := hs
  rw [List.getElem?_map, Option.map_eq_some_iff] at hs
  rcases hs with ⟨r, hr, rfl⟩
  -- those that were pending are listed now, the others were listed before
  by_cases hp : r.stage = .pending
  · refine ⟨_, code, diagnostic, 0, List.mem_cons_self, ?_⟩
    have hlt := (List.getElem?_eq_some_iff.1 hr).1
    exact List.mem_filter.2 ⟨List.mem_range.2 hlt, by simpa [hr] using hp⟩
  · rw [Registration.drain, if_neg hp] at hsd
    obtain ⟨owners, code', diagnostic', n, hmem, howner⟩ := h.listed owner r hr hsd
    exact ⟨owners, code', diagnostic', n, List.mem_cons_of_mem _ hmem, howner⟩

theorem call (h : t.Sound deeds) (c : Call L) :
    (t.call c).1.Sound (deeds ++ (t.deedsOfCall c ++ Deed.ofSigns (t.call c).2)) := by
  rcases t.advances_call c with ⟨code, diagnostic, rfl⟩ | ha
  · simpa [Table.call, deedsOfCall] using h.failAll code diagnostic
  · exact h.advances ha

theorem proceed (h : t.Sound deeds) :
    t.proceed.1.Sound (deeds ++ Deed.ofSigns t.proceed.2) := by
  cases hagenda : t.agenda with
  | nil => simpa [Table.proceed, hagenda] using h
  | cons a agenda =>
    have hproceed : t.proceed = { t with agenda }.perform a := by simp [Table.proceed, hagenda]
    have ha := advances_perform { t with agenda } a
    rw [hproceed]
    refine ⟨h.recorded.changes ha.changes, h.distinct.changes ha.changes, fun owner s hs hsd => ?_⟩
    obtain ⟨r, hr, hrd⟩ := ha.changes.drained hs hsd
    obtain ⟨owners, code, diagnostic, n, hmem, howner⟩ := h.listed owner r hr hrd
    rw [hagenda] at hmem
    -- the registration is on the list that is being worked on, or on a later one
    rcases List.mem_cons.1 hmem with rfl | hmem
    · cases owners with
      | nil => cases howner
      | cons first owners => exact listed_perform_failing _ owners code diagnostic n howner hs hsd
    · exact ⟨owners, code, diagnostic, n, ha.agenda.subset hmem, howner⟩

theorem rearrange (h : t.Sound deeds) (owners : List Nat) : (t.rearrange owners).Sound deeds := by
  unfold Table.rearrange
  split
  · next listed code diagnostic n agenda hagenda =>
    split
    · next hperm =>
      refine ⟨h.recorded, h.distinct, fun owner s hs hsd => ?_⟩
      obtain ⟨owners', code', diagnostic', n', hmem, howner⟩ := h.listed owner s hs hsd
      rw [hagenda] at hmem
      rcases List.mem_cons.1 hmem with heq | hmem
      · -- another order of the same list
        cases heq
        exact ⟨owners, code, diagnostic, n, List.mem_cons_self,
          (List.isPerm_iff.1 hperm).mem_iff.2 howner⟩
      · exact ⟨owners', code', diagnostic', n', List.mem_cons_of_mem _ hmem, howner⟩
    · exact h
  · exact h

/-- Between calls no operation is taken out of the table and yet to be failed. -/
theorem not_drained (h : t.Sound deeds) (hidle : t.agenda = []) {owner : Nat} {r : Registration L}
    (hr : t.registrations[owner]? = some r) : r.stage ≠ .drained := by
  intro hd
  obtain ⟨_, _, _, _, hmem, -⟩ := h.listed owner r hr hd
  rw [hidle] at hmem
  cases hmem

/-- A registration stands in the table exactly if it is pending. -/
theorem find?_eq_some_iff (h : t.Sound deeds) {id : Int32} {owner : Nat} :
    t.find? id = some owner ↔
      ∃ r, t.registrations[owner]? = some r ∧ r.stage = .pending ∧ r.id = id := by
  refine ⟨pending_of_find?, fun ⟨r, hr, hp, hid⟩ => ?_⟩
  -- an identifier leads to no other place, as pending ones are told apart by it
  cases hf : t.find? id with
  | none =>
    have hnone := List.findIdx?_eq_none_iff.1 hf r (List.mem_of_getElem? hr)
    simp [Registration.isPending, hp, hid] at hnone
  | some other =>
    obtain ⟨s, hs, hsp, hsid⟩ := pending_of_find? hf
    rw [h.distinct other owner s r hs hr hsp hp (hsid.trans hid.symm)]

end Sound

/-! ## Runs -/

/-- What a move does to registrations, in the order in which it happens. -/
def deeds (t : Table L) (m : Move L) : List Deed :=
  (match m with
    | .call c => if t.isListening then t.deedsOfCall c else []
    | _ => []) ++ Deed.ofSigns (t.step m).2

/-- What moves do to registrations, in the order in which it happens. -/
def chronicle (t : Table L) : List (Move L) → List Deed
  | [] => []
  | m :: ms => t.deeds m ++ (t.step m).1.chronicle ms

theorem Sound.step {t : Table L} {deeds : List Deed} (h : t.Sound deeds) (m : Move L) :
    (t.step m).1.Sound (deeds ++ t.deeds m) := by
  cases m with
  | call c =>
    unfold Table.step Table.deeds
    by_cases hl : t.isListening = true
    · simpa [Table.step, hl] using h.call c
    · simpa [Table.step, hl] using h
  | proceed => simpa [Table.step, Table.deeds] using h.proceed
  | rearrange owners => simpa [Table.step, Table.deeds] using h.rearrange owners

theorem Sound.run {t : Table L} {deeds : List Deed} (h : t.Sound deeds) (ms : List (Move L)) :
    (t.run ms).1.Sound (deeds ++ t.chronicle ms) := by
  -- the chronicle so far grows by the deeds of each move
  induction ms generalizing t deeds with
  | nil => simpa [Table.run, chronicle] using h
  | cons m ms ih =>
    have hrest := ih (h.step m)
    rw [List.append_assoc] at hrest
    exact hrest

theorem sound_empty (scheduler : Scheduler) (abandons : Bool) :
    (empty scheduler abandons : Table L).Sound [] := by
  refine ⟨⟨fun _ _ => rfl, ?_⟩, ?_, ?_⟩ <;> intro owner <;> simp [empty]

/-- What the life of a registration tells of it in a sound table. -/
theorem Sound.life {t : Table L} {deeds : List Deed} (h : t.Sound deeds) (owner : Nat) :
    (t.registrations.length ≤ owner ∧ lifeOf owner deeds = []) ∨
      ∃ ds last, lifeOf owner deeds = Deed.life owner ds last ∧ (∀ d ∈ last, IsLast owner d) ∧
        (t.agenda = [] → ((∃ id, t.find? id = some owner) ↔ last = none)) := by
  cases hr : t.registrations[owner]? with
  | none => exact .inl ⟨List.getElem?_eq_none_iff.1 hr, h.recorded.missing _
      (List.getElem?_eq_none_iff.1 hr)⟩
  | some r =>
    obtain ⟨ds, last, hl, hlast, hover⟩ := h.recorded.present owner r hr
    refine .inr ⟨ds, last, hl, hlast, fun hidle => ?_⟩
    -- between calls there are but two stages left: pending, and over
    have hnd := h.not_drained hidle hr
    constructor
    · intro h
      rcases h with ⟨id, hid⟩
      rcases h.find?_eq_some_iff.1 hid with ⟨s, hs, hp, -⟩
      obtain rfl := Option.some.inj (hr.symm.trans hs)
      exact hover.2 (by simp [hp])
    · intro hnone
      have hp : r.stage = .pending := by
        have hlive := hover.1 hnone
        cases hstage : r.stage <;> simp_all
      exact ⟨r.id, h.find?_eq_some_iff.2 ⟨r, hr, hp, rfl⟩⟩

/-- In every run of a table, whatever is called in between from within listeners, a registration
that was made hears some deliveries, then at most one outcome; nothing after the outcome began or
after it was forgotten; and when no call is in progress it stands in the table exactly if neither
has happened. -/
theorem life_of_registration (scheduler : Scheduler) (abandons : Bool) (ms : List (Move L))
    (owner : Nat) :
    let start : Table L := empty scheduler abandons
    let t := (start.run ms).1
    let lived := lifeOf owner (start.chronicle ms)
    (t.registrations.length ≤ owner ∧ lived = []) ∨
      ∃ (ds : List Delivery) (last : Option Deed),
        lived = .registered owner :: ds.map (fun d => .heard owner (.delivery d)) ++ last.toList ∧
        (∀ deed ∈ last, deed = .abandoned owner ∨ ∃ o, deed = .heard owner (.result o)) ∧
        (t.agenda = [] → ((∃ id, t.find? id = some owner) ↔ last = none)) := by
  have h := (sound_empty (L := L) scheduler abandons).run ms
  rw [List.nil_append] at h
  exact h.life owner

end Table
end Ldap
