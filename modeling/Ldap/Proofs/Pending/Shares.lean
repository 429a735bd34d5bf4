import Ldap.Proofs.Pending.Change

/-!
# The share of an identifier

Between calls, with listeners that make no calls of their own, a table is as good as one table for
each identifier: what an action does depends on the registrations that were made under its
identifier, and it touches no others. `Share.deal` is the table of one identifier, `Table.act_spec`
says that every action does as it says, and `Table.share_actAll` that any run looks, from an
identifier, as if only the actions under it were made.

A registration is named here by its identifier and its number under it, as its place in the table
depends on when others are made.
-/

namespace Ldap

variable {L : Type}

/-! ## Actions -/

/-- Something that is done under one identifier. -/
inductive Action (L : Type) where
  | register (kind : OperationKind) (timeout : Option Nat) (listener : L)
  | deliver (delivery : Delivery)
  | complete (verdict : Verdict)
  | timeout
  | abandon
  /-- The timer that the registration with a number armed goes off. -/
  | ring (number : Nat)

/-- An action and the identifier under which it is done. -/
structure Errand (L : Type) where
  id : Int32
  action : Action L

/-- What befalls a registration from the outside. -/
inductive Told where
  | heard (event : Event)
  /-- The server is to be told that nobody waits for the operation. -/
  | abandoning
  deriving DecidableEq, Repr

/-- How actions went: the table that they lead to, the answer to each, and what was told, with the
identifier and the number of the registration that it was told of. -/
structure Course (L : Type) where
  table : Table L
  answers : List (Errand L × Reply)
  told : List (Int32 × Nat × Told)

/-- What a sign answers. -/
def Sign.reply? : Sign → Option Reply
  | .answered reply => some reply
  | .heard .. | .abandoning .. => none

namespace Table

/-- The registrations that were made under an identifier. -/
def under (t : Table L) (id : Int32) : List (Registration L) :=
  t.registrations.filter (·.id = id)

/-- The number of the registration at a place among those under an identifier. -/
def number (t : Table L) (id : Int32) (owner : Nat) : Nat :=
  (t.registrations.take owner).countP (·.id = id)

/-- Whether a place is that of the registration with a number under an identifier. -/
def isNumbered (t : Table L) (id : Int32) (number owner : Nat) : Bool :=
  (t.registrations[owner]?).any (·.id = id) && t.number id owner = number

/-- What a sign tells, with the identifier and the number of the registration. -/
def tell (t : Table L) : Sign → Option (Int32 × Nat × Told)
  | .heard owner id event => some (id, t.number id owner, .heard event)
  | .abandoning owner id => some (id, t.number id owner, .abandoning)
  | .answered _ => none

/-- The call by which an action is done. -/
def callFor (t : Table L) (e : Errand L) : Call L :=
  match e.action with
  | .register kind timeout listener => .register e.id kind timeout listener
  | .deliver delivery => .deliver e.id delivery
  | .complete verdict => .complete e.id verdict
  | .timeout => .timeout e.id
  | .abandon => .abandon e.id
  | .ring number => .fire (t.timerOwners.findIdx (t.isNumbered e.id number))

/-- Makes a call and does what it puts on the agenda, while no listener makes calls of its own. -/
def carryOut (t : Table L) (c : Call L) : Table L × List Sign :=
  t.run (.call c :: .replicate (t.call c).1.agenda.length .proceed)

/-- Does an action at some time. -/
def act (t : Table L) (now : Nat) (e : Errand L) : Course L :=
  let start := { t with now }
  let (after, signs) := start.carryOut (start.callFor e)
  ⟨after, (signs.filterMap Sign.reply?).map (e, ·), signs.filterMap after.tell⟩

/-- Does actions one after the other, each at its time. -/
def actAll (t : Table L) : List (Nat × Errand L) → Course L
  | [] => ⟨t, [], []⟩
  | (now, e) :: errands =>
    let first := t.act now e
    let rest := first.table.actAll errands
    ⟨rest.table, first.answers ++ rest.answers, first.told ++ rest.told⟩

end Table

/-! ## The table of one identifier -/

/-- What a course comes to under one identifier. -/
structure Share (L : Type) where
  registrations : List (Registration L)
  told : List (Nat × Told)
  answers : List (Errand L × Reply)

/-- What a course comes to under an identifier. -/
def Course.share (x : Course L) (id : Int32) : Share L :=
  ⟨x.table.under id, (x.told.filter (·.1 = id)).map (·.2), x.answers.filter (·.1.id = id)⟩

/-- What becomes of a registration, what is told of it, and what the action is answered. -/
structure Turn (L : Type) where
  registration : Registration L
  told : List Told
  reply : Reply

namespace Registration

/-- Something comes for a registration. -/
def receive (r : Registration L) (d : Delivery) : Turn L :=
  ⟨r.count d, if r.admits d then [.heard (.delivery d)] else [], .flag (r.admits d)⟩

/-- A registration is ended by a verdict. -/
def conclude (r : Registration L) (now : Nat) (verdict : Verdict) : Turn L :=
  ⟨r.finish false, [.heard (.result ((r.progress now).outcome verdict))],
    .completed (some (r.progress now))⟩

/-- The time of a registration is up. -/
def lapse (r : Registration L) (abandons : Bool) (now : Nat) : Turn L :=
  if r.stage = .over then ⟨r, [], .flag false⟩
  else ⟨r.finish true, (if abandons then [.abandoning] else [])
    ++ [.heard (.result ((r.progress now).outcome (.timeout abandons)))], .flag true⟩

/-- The timer of a registration goes off. -/
def chime (r : Registration L) (abandons : Bool) (now : Nat) : Turn L :=
  match r.timer with
  | none => ⟨r, [], .flag false⟩
  | some timer =>
    if timer.state = .fired then ⟨r, [], .flag false⟩
    else { lapse { r with timer := some timer.fire } abandons now with reply := .flag true }

end Registration

theorem Registration.lapse_id (r : Registration L) (abandons : Bool) (now : Nat) :
    (r.lapse abandons now).registration.id = r.id := by
  unfold Registration.lapse
  split <;> rfl

theorem Registration.chime_id (r : Registration L) (abandons : Bool) (now : Nat) :
    (r.chime abandons now).registration.id = r.id := by
  unfold Registration.chime
  split
  · rfl
  · split
    · rfl
    · exact Registration.lapse_id _ _ _

namespace Share

/-- A registration has its turn, if there is one at a place. -/
def turn (e : Errand L) (rs : List (Registration L)) (place : Option Nat) (miss : Reply)
    (f : Registration L → Turn L) : Share L :=
  match place.bind fun n => (rs[n]?).map (n, ·) with
  | none => ⟨rs, [], [(e, miss)]⟩
  | some (n, r) => ⟨rs.set n (f r).registration, (f r).told.map (n, ·), [(e, (f r).reply)]⟩

/-- The place of the pending registration. -/
def pending? (rs : List (Registration L)) (id : Int32) : Option Nat :=
  rs.findIdx? (·.isPending id)

/-- A registration is added after its first turn. -/
def add (e : Errand L) (rs : List (Registration L)) (first : Turn L) : Share L :=
  ⟨rs ++ [first.registration], first.told.map (rs.length, ·), [(e, .registered e.id)]⟩

/-- A registration is made, unless it is refused. It has its first turn at once if timers go off
where they are armed. -/
def enroll (scheduler : Scheduler) (abandons : Bool) (now : Nat) (e : Errand L)
    (rs : List (Registration L)) (kind : OperationKind) (timeout : Option Nat) (listener : L) :
    Share L :=
  let made (timer : Option Timer) : Registration L :=
    ⟨e.id, kind, now, listener, .pending, 0, 0, timer⟩
  if !kind.expectsResponse then ⟨rs, [], [(e, .refused (.unanswered kind))]⟩
  else if e.id ≤ 0 then ⟨rs, [], [(e, .refused (.unusableId e.id))]⟩
  else if (pending? rs e.id).isSome then ⟨rs, [], [(e, .refused (.duplicateId e.id))]⟩
  else
    match timeout.filter (0 < ·) with
    | none => add e rs ⟨made none, [], .done⟩
    | some delay =>
      if scheduler = .immediate then add e rs ((made none).lapse abandons now)
      else add e rs ⟨made (some ⟨delay, now + delay, .armed⟩), [], .done⟩

/-- What an action does to the registrations under its identifier. -/
def deal (scheduler : Scheduler) (abandons : Bool) (now : Nat) (e : Errand L)
    (rs : List (Registration L)) : Share L :=
  match e.action with
  | .register kind timeout listener => enroll scheduler abandons now e rs kind timeout listener
  | .deliver d => turn e rs (pending? rs e.id) (.flag false) (·.receive d)
  | .complete verdict =>
    turn e rs (pending? rs e.id) (.completed none) (·.conclude now verdict)
  | .timeout => turn e rs (pending? rs e.id) (.flag false) (·.lapse abandons now)
  | .abandon => turn e rs (pending? rs e.id) (.flag false) fun r => ⟨r.finish false, [], .flag true⟩
  | .ring number => turn e rs (some number) (.flag false) (·.chime abandons now)

/-- What actions do to the registrations under their identifier. -/
def dealAll (scheduler : Scheduler) (abandons : Bool) (rs : List (Registration L)) :
    List (Nat × Errand L) → Share L
  | [] => ⟨rs, [], []⟩
  | (now, e) :: errands =>
    let first := deal scheduler abandons now e rs
    let rest := dealAll scheduler abandons first.registrations errands
    ⟨rest.registrations, first.told ++ rest.told, first.answers ++ rest.answers⟩

end Share

/-! ## Places and numbers -/

section Filter

variable {α : Type} {p : α → Bool} {l : List α} {i : Nat} {a b : α}

/-- An element of a list divides it in two. -/
theorem exists_append_of_getElem? (there : l[i]? = some a) :
    ∃ before after, l = before ++ a :: after ∧ before.length = i := by
  obtain ⟨hlt, rfl⟩ := List.getElem?_eq_some_iff.1 there
  refine ⟨l.take i, l.drop (i + 1), ?_, List.length_take_of_le hlt.le⟩
  rw [List.getElem_cons_drop, List.take_append_drop]

/-- Where an element stands after filtering is told by the number of those before it. -/
theorem filter_getElem? (there : l[i]? = some a) (ha : p a = true) :
    (l.filter p)[(l.take i).countP p]? = some a := by
  obtain ⟨before, after, rfl, rfl⟩ := exists_append_of_getElem? there
  simp [ha, List.countP_eq_length_filter]

theorem filter_set (there : l[i]? = some a) (ha : p a = true) (hb : p b = true) :
    (l.set i b).filter p = (l.filter p).set ((l.take i).countP p) b := by
  obtain ⟨before, after, rfl, rfl⟩ := exists_append_of_getElem? there
  simp [ha, hb, List.countP_eq_length_filter]

/-- Replacing what is filtered out by something that is too. -/
theorem filter_set_out (there : l[i]? = some a) (ha : p a = false) (hb : p b = false) :
    (l.set i b).filter p = l.filter p := by
  obtain ⟨before, after, rfl, rfl⟩ := exists_append_of_getElem? there
  simp [ha, hb]

/-- What is searched for is found after filtering, unless it is filtered out. -/
theorem findIdx?_filter {q : α → Bool} (hq : ∀ x, q x = true → p x = true) (l : List α) :
    (l.filter p).findIdx? q = (l.findIdx? q).map fun i => (l.take i).countP p := by
  induction l with
  | nil => rfl
  | cons x l ih =>
    by_cases hx : q x = true
    · simp [hq x hx, hx, List.findIdx?_cons]
    · by_cases hp : p x = true
      · simp [hp, hx, List.findIdx?_cons, ih, Function.comp_def]
      · simp [hp, hx, List.findIdx?_cons, ih, Function.comp_def]

theorem exists_of_filter_getElem? {n : Nat} (h : (l.filter p)[n]? = some a) :
    ∃ i, l[i]? = some a ∧ p a = true ∧ (l.take i).countP p = n := by
  obtain ⟨before, after, heq, rfl⟩ := exists_append_of_getElem? h
  obtain ⟨l₁, l₂, rfl, rfl, hcons⟩ := List.filter_eq_append_iff.1 heq
  obtain ⟨l₃, l₄, rfl, hout, ha, -⟩ := List.filter_eq_cons_iff.1 hcons
  have hnone : l₃.countP p = 0 := List.countP_eq_zero.2 hout
  refine ⟨(l₁ ++ l₃).length, by simp, ha, ?_⟩
  rw [← List.append_assoc, List.take_left, List.countP_append, hnone,
    List.countP_eq_length_filter, Nat.add_zero]

theorem countP_take_lt {j : Nat} (there : l[i]? = some a) (ha : p a = true) (hij : i < j) :
    (l.take i).countP p < (l.take j).countP p :=
  calc (l.take i).countP p < (l.take (i + 1)).countP p := by simp [List.take_add_one, there, ha]
    _ ≤ (l.take j).countP p := (List.take_prefix_take_left hij).sublist.countP_le

/-- No two elements that stay have the same number. -/
theorem eq_of_countP_eq {j : Nat} (hi : l[i]? = some a) (ha : p a = true) (hj : l[j]? = some b)
    (hb : p b = true) (h : (l.take i).countP p = (l.take j).countP p) : i = j := by
  rcases lt_trichotomy i j with hij | hij | hij
  · exact absurd h (countP_take_lt hi ha hij).ne
  · exact hij
  · exact absurd h (countP_take_lt hj hb hij).ne'

end Filter

/-! ## What a call does under its identifier -/

namespace Told

/-- The sign that tells something of the registration at a place. -/
def sign (owner : Nat) (id : Int32) : Told → Sign
  | heard event => .heard owner id event
  | abandoning => .abandoning owner id

end Told

namespace Table

/-- What happened to a table happened under one identifier: this is how the registrations under it
are now, and what was told of them. -/
structure Deals (t : Table L) (id : Int32) (rs : List (Registration L)) (told : List (Nat × Told))
    (t' : Table L) (signs : List Sign) : Prop where
  own : t'.under id = rs
  others : ∀ other, other ≠ id → t'.under other = t.under other
  told : signs.filterMap t'.tell = told.map (id, ·)
  unanswered : signs.filterMap Sign.reply? = []
  agenda : t'.agenda = t.agenda
  scheduler : t'.scheduler = t.scheduler
  abandons : t'.abandons = t.abandons

theorem tell_sign (t : Table L) (owner : Nat) (id : Int32) (told : List Told) :
    (told.map (Told.sign owner id)).filterMap t.tell =
      (told.map (t.number id owner, ·)).map (id, ·) := by
  rw [List.filterMap_map, List.map_map, ← List.filterMap_eq_map]
  refine List.filterMap_congr fun x _ => ?_
  cases x <;> rfl

theorem reply?_sign (owner : Nat) (id : Int32) (told : List Told) :
    (told.map (Told.sign owner id)).filterMap Sign.reply? = [] := by
  rw [List.filterMap_map]
  exact List.filterMap_eq_nil_iff.2 fun x _ => by cases x <;> rfl

namespace Deals

variable {t : Table L} {id : Int32}

/-- Nothing happened. -/
theorem refl (t : Table L) (id : Int32) : t.Deals id (t.under id) [] t [] where
  own := rfl
  others _ _ := rfl
  told := rfl
  unanswered := rfl
  agenda := rfl
  scheduler := rfl
  abandons := rfl

/-- A registration is replaced. -/
theorem put {owner : Nat} {r r' : Registration L} (there : t.registrations[owner]? = some r)
    (hid : r.id = id) (hid' : r'.id = id) (told : List Told) :
    t.Deals id ((t.under id).set (t.number id owner) r') (told.map (t.number id owner, ·))
      (t.put owner r') (told.map (Told.sign owner id)) where
  own := filter_set there (by simpa using hid) (by simpa using hid')
  others other hother :=
    filter_set_out there (by simpa [hid] using hother.symm) (by simpa [hid'] using hother.symm)
  told := by
    -- those before the place are as they were
    have hnumber : (t.put owner r').number id owner = t.number id owner := by
      simp only [number, Table.put, List.take_set_of_le le_rfl]
    rw [tell_sign, hnumber]
  unanswered := reply?_sign owner id told
  agenda := rfl
  scheduler := rfl
  abandons := rfl

/-- A registration is made. -/
theorem add (t : Table L) {r : Registration L} (hid : r.id = id) (told : List Told) :
    t.Deals id (t.under id ++ [r]) (told.map ((t.under id).length, ·))
      { t with registrations := t.registrations ++ [r] }
      (told.map (Told.sign t.registrations.length id)) where
  own := by simp [under, hid]
  others other hother := by simp [under, hid, hother.symm]
  told := by
    have hnumber : number { t with registrations := t.registrations ++ [r] } id
        t.registrations.length = (t.under id).length := by
      simp [number, under, List.countP_eq_length_filter]
    rw [tell_sign, hnumber]
  unanswered := reply?_sign _ id told
  agenda := rfl
  scheduler := rfl
  abandons := rfl

end Deals

/-! ## The calls -/

/-- The pending registration under an identifier, by its number. -/
theorem pending?_under (t : Table L) (id : Int32) :
    Share.pending? (t.under id) id = (t.find? id).map (t.number id) :=
  findIdx?_filter (fun r hr => by simp_all [Registration.isPending]) t.registrations

theorem getElem?_under {t : Table L} {id : Int32} {owner : Nat} {r : Registration L}
    (there : t.registrations[owner]? = some r) (hid : r.id = id) :
    (t.under id)[t.number id owner]? = some r :=
  filter_getElem? there (by simpa using hid)

theorem put_self {t : Table L} {owner : Nat} {r : Registration L}
    (there : t.registrations[owner]? = some r) : t.put owner r = t := by
  obtain ⟨hlt, rfl⟩ := List.getElem?_eq_some_iff.1 there
  simp [put]

theorem put_put (t : Table L) (owner : Nat) (r r' : Registration L) :
    (t.put owner r).put owner r' = t.put owner r' := by
  simp [put]

/-- Ending a registration that is not over. -/
theorem finish_eq {t : Table L} {owner : Nat} {r : Registration L}
    (there : t.registrations[owner]? = some r) (live : r.stage ≠ .over) (byTimer : Bool)
    (verdict : Verdict) :
    t.finish owner byTimer verdict = some (r.progress t.now, t.put owner (r.finish byTimer),
      (if byTimer && t.abandons then [.abandoning owner r.id] else [])
        ++ [.heard owner r.id (.result ((r.progress t.now).outcome verdict))]) := by
  simp only [finish, there, if_neg live]

/-- When the time of a registration is up, it lapses. -/
theorem expire_eq {t : Table L} {owner : Nat} {r : Registration L}
    (there : t.registrations[owner]? = some r) :
    t.expire owner = (decide (r.stage ≠ .over),
      t.put owner (r.lapse t.abandons t.now).registration,
      (r.lapse t.abandons t.now).told.map (Told.sign owner r.id)) := by
  by_cases hover : r.stage = .over
  · simp [expire, finish, there, hover, Registration.lapse, put_self there]
  · simp only [expire, finish_eq there hover, Registration.lapse, if_neg hover]
    cases t.abandons <;> simp [hover, Told.sign]

/-- When the timer of a registration goes off, it has its turn. -/
theorem ring_eq {t : Table L} {owner : Nat} {r : Registration L}
    (there : t.registrations[owner]? = some r) :
    ∃ b, (r.chime t.abandons t.now).reply = .flag b ∧
      t.ring owner = (b, t.put owner (r.chime t.abandons t.now).registration,
        (r.chime t.abandons t.now).told.map (Told.sign owner r.id)) := by
  cases htimer : r.timer with
  | none => exact ⟨false, by simp [Registration.chime, ring, there, htimer, put_self there]⟩
  | some timer =>
    by_cases hfired : timer.state = .fired
    · exact ⟨false, by simp [Registration.chime, ring, there, htimer, hfired, put_self there]⟩
    · have hmarked := registrations_put { r with timer := some timer.fire } there
      refine ⟨true, by simp [Registration.chime, htimer, hfired], ?_⟩
      simp only [ring, there, htimer, if_neg hfired, expire_eq hmarked, Registration.chime,
        put_put]
      rfl

/-- A call comes to a share of what is under an identifier: it changes the table and tells of it as
the share says, and gives the answer of the share. -/
def Serves (t : Table L) (c : Call L) (e : Errand L) (x : Share L) : Prop :=
  ∃ t' signs reply, t.call c = t'.resume signs [.answering reply] ∧
    t.Deals e.id x.registrations x.told t' signs ∧ x.answers = [(e, reply)]

namespace Serves

variable {t : Table L} {e : Errand L} {c : Call L}

/-- A call that finds nobody. -/
theorem miss {place : Option Nat} {reply : Reply} {f : Registration L → Turn L}
    (hnone : place.bind (fun n => (t.under e.id)[n]?) = none)
    (hcall : t.call c = t.resume [] [.answering reply]) :
    t.Serves c e (Share.turn e (t.under e.id) place reply f) := by
  have hturn : Share.turn e (t.under e.id) place reply f = ⟨t.under e.id, [], [(e, reply)]⟩ := by
    cases place with
    | none => rfl
    | some n => simp only [Option.bind_some] at hnone; simp [Share.turn, hnone]
  rw [hturn]
  exact ⟨t, [], reply, hcall, .refl t e.id, rfl⟩

/-- A call by which a registration has its turn. -/
theorem turn {owner : Nat} {r : Registration L} {reply : Reply} {f : Registration L → Turn L}
    (there : t.registrations[owner]? = some r) (hid : r.id = e.id)
    (hid' : (f r).registration.id = e.id)
    (hcall : t.call c = (t.put owner (f r).registration).resume
      ((f r).told.map (Told.sign owner e.id)) [.answering (f r).reply]) :
    t.Serves c e (Share.turn e (t.under e.id) (some (t.number e.id owner)) reply f) := by
  refine ⟨_, _, _, hcall, ?_, ?_⟩
  · simpa [Share.turn, getElem?_under there hid] using Deals.put there hid hid' (f r).told
  · simp [Share.turn, getElem?_under there hid]

/-- A call to the pending registration under an identifier. -/
theorem pending {miss : Reply} {f : Registration L → Turn L}
    (hid : ∀ r : Registration L, (f r).registration.id = r.id)
    (hmiss : t.find? e.id = none → t.call c = t.resume [] [.answering miss])
    (hcall : ∀ owner r, t.find? e.id = some owner → t.registrations[owner]? = some r →
      r.stage = .pending → r.id = e.id → t.call c = (t.put owner (f r).registration).resume
        ((f r).told.map (Told.sign owner e.id)) [.answering (f r).reply]) :
    t.Serves c e
      (Share.turn e (t.under e.id) (Share.pending? (t.under e.id) e.id) miss f) := by
  rw [pending?_under]
  cases hfound : t.find? e.id with
  | none => exact Serves.miss rfl (hmiss hfound)
  | some owner =>
    obtain ⟨r, hr, hp, hrid⟩ := pending_of_find? hfound
    exact Serves.turn hr hrid ((hid r).trans hrid) (hcall owner r hfound hr hp hrid)

end Serves

theorem serves_deliver (t : Table L) (e : Errand L) (d : Delivery) :
    t.Serves (.deliver e.id d) e (Share.turn e (t.under e.id)
      (Share.pending? (t.under e.id) e.id) (.flag false) (·.receive d)) := by
  refine .pending (fun r => by cases d <;> rfl) (fun hnone => ?_) fun owner r hfound hr _ _ => ?_
  · simp only [call, deliver, hnone]
  · cases hadmits : r.admits d <;>
      simp [call, deliver, hfound, hr, hadmits, Registration.receive, Told.sign]

theorem serves_complete (t : Table L) (e : Errand L) (verdict : Verdict) :
    t.Serves (.complete e.id verdict) e (Share.turn e (t.under e.id)
      (Share.pending? (t.under e.id) e.id) (.completed none) (·.conclude t.now verdict)) := by
  refine .pending (fun r => rfl) (fun hnone => ?_) fun owner r hfound hr hp hid => ?_
  · simp only [call, complete, hnone, Option.bind_none]
  · have hlive : r.stage ≠ .over := by simp [hp]
    simp [call, complete, hfound, finish_eq hr hlive, Registration.conclude, Told.sign, hid]

theorem serves_timeout (t : Table L) (e : Errand L) :
    t.Serves (.timeout e.id) e (Share.turn e (t.under e.id)
      (Share.pending? (t.under e.id) e.id) (.flag false) (·.lapse t.abandons t.now)) := by
  refine .pending (fun r => r.lapse_id _ _) (fun hnone => ?_) fun owner r hfound hr hp hid => ?_
  · simp only [call, timeout, hnone]
  · have hlive : r.stage ≠ .over := by simp [hp]
    simp [call, timeout, hfound, expire_eq hr, hid, Registration.lapse, hlive]

theorem serves_abandon (t : Table L) (e : Errand L) :
    t.Serves (.abandon e.id) e (Share.turn e (t.under e.id)
      (Share.pending? (t.under e.id) e.id) (.flag false)
        fun r => ⟨r.finish false, [], .flag true⟩) := by
  refine .pending (fun r => rfl) (fun hnone => ?_) fun owner r hfound hr _ _ => ?_
  · simp only [call, abandon, hnone]
  · simp [call, abandon, hfound, hr]

theorem isNumbered_iff {t : Table L} {id : Int32} {n place : Nat} :
    t.isNumbered id n place = true ↔
      ∃ r, t.registrations[place]? = some r ∧ r.id = id ∧ t.number id place = n := by
  rw [isNumbered, Bool.and_eq_true, Option.any_eq_true, ← exists_and_right]
  simp [and_assoc]

theorem mem_timerOwners_iff {t : Table L} {place : Nat} :
    place ∈ t.timerOwners ↔
      ∃ r, t.registrations[place]? = some r ∧ r.timer.isSome = true := by
  rw [timerOwners, List.mem_filter, Option.any_eq_true, List.mem_range]
  exact and_iff_right_of_imp fun ⟨r, hr, _⟩ => (List.getElem?_eq_some_iff.1 hr).1

/-- A timer named by a number is that of the registration with the number, if it has one. -/
theorem find?_timerOwners {t : Table L} {id : Int32} {owner : Nat} {r : Registration L}
    (there : t.registrations[owner]? = some r) (hid : r.id = id) :
    t.timerOwners.find? (t.isNumbered id (t.number id owner)) =
      if r.timer.isSome then some owner else none := by
  have honly : ∀ place, t.isNumbered id (t.number id owner) place = true → place = owner := by
    intro place hplace
    obtain ⟨s, hs, hsid, hnumber⟩ := isNumbered_iff.1 hplace
    exact eq_of_countP_eq hs (by simpa using hsid) there (by simpa using hid) hnumber
  split
  · next htimer =>
    cases hfind : t.timerOwners.find? (t.isNumbered id (t.number id owner)) with
    | none =>
      have hmem := mem_timerOwners_iff.2 ⟨r, there, htimer⟩
      exact absurd (isNumbered_iff.2 ⟨r, there, hid, rfl⟩) (List.find?_eq_none.1 hfind owner hmem)
    | some place => rw [honly place (List.find?_some hfind)]
  · next htimer =>
    refine List.find?_eq_none.2 fun place hplace hnumbered => ?_
    obtain rfl := honly place hnumbered
    obtain ⟨s, hs, hstimer⟩ := mem_timerOwners_iff.1 hplace
    obtain rfl := Option.some.inj (there.symm.trans hs)
    exact htimer hstimer

theorem serves_ring (t : Table L) (e : Errand L) (n : Nat) :
    t.Serves (.fire (t.timerOwners.findIdx (t.isNumbered e.id n))) e
      (Share.turn e (t.under e.id) (some n) (.flag false) (·.chime t.abandons t.now)) := by
  cases hn : (t.under e.id)[n]? with
  | none =>
    -- nobody has the number, and so no timer is the one that is named
    refine .miss hn ?_
    have hnobody : t.timerOwners.find? (t.isNumbered e.id n) = none := by
      refine List.find?_eq_none.2 fun place _ hplace => ?_
      obtain ⟨s, hs, hid, rfl⟩ := isNumbered_iff.1 hplace
      rw [getElem?_under hs hid] at hn
      cases hn
    simp only [call, fire, ← List.find?_eq_getElem?_findIdx, hnobody]
  | some r =>
    obtain ⟨owner, hr, hid, rfl⟩ := exists_of_filter_getElem? hn
    replace hid : r.id = e.id := by simpa using hid
    refine .turn hr hid ((r.chime_id _ _).trans hid) ?_
    have hfind := find?_timerOwners hr hid
    rw [number] at hfind
    cases htimer : r.timer with
    | none =>
      rw [htimer] at hfind
      simp [call, fire, ← List.find?_eq_getElem?_findIdx, hfind, Registration.chime, htimer,
        put_self hr]
    | some timer =>
      obtain ⟨b, hreply, hring⟩ := ring_eq hr
      rw [htimer] at hfind
      simp [call, fire, ← List.find?_eq_getElem?_findIdx, hfind, hring, hreply, hid]

theorem serves_register (t : Table L) (e : Errand L) (kind : OperationKind) (timeout : Option Nat)
    (listener : L) :
    t.Serves (.register e.id kind timeout listener) e
      (Share.enroll t.scheduler t.abandons t.now e (t.under e.id) kind timeout listener) := by
  -- what is refused changes nothing, and what is accepted is added
  have hrefused {error : SessionError}
      (h : t.register e.id kind timeout listener = .error error) :
      t.Serves (.register e.id kind timeout listener) e
        ⟨t.under e.id, [], [(e, .refused error)]⟩ :=
    ⟨t, [], _, by simp only [call, h], .refl t e.id, rfl⟩
  have haccepted {r : Registration L} (told : List Told) (hid : r.id = e.id)
      (h : t.register e.id kind timeout listener =
        .ok ({ t with registrations := t.registrations ++ [r] },
          told.map (Told.sign t.registrations.length e.id))) :
      t.Serves (.register e.id kind timeout listener) e
        ⟨t.under e.id ++ [r], told.map ((t.under e.id).length, ·), [(e, .registered e.id)]⟩ :=
    ⟨_, _, _, by simp only [call, h], .add t hid told, rfl⟩
  have hcontains : (Share.pending? (t.under e.id) e.id).isSome = t.contains e.id := by
    rw [pending?_under, Option.isSome_map, find?, contains, List.findIdx?_isSome]
  unfold Share.enroll
  rw [hcontains]
  split
  · next hkind => exact hrefused (by simp only [register, if_pos hkind])
  next hkind =>
  split
  · next hunusable => exact hrefused (by simp only [register, if_neg hkind, if_pos hunusable])
  next hunusable =>
  split
  · next htaken =>
    exact hrefused (by simp only [register, if_neg hkind, if_neg hunusable, if_pos htaken])
  next hfree =>
  split
  · next hdelay =>
    exact haccepted [] rfl (by
      simp only [register, if_neg hkind, if_neg hunusable, if_neg hfree, hdelay, List.map_nil])
  next delay hdelay =>
  split
  · next himmediate =>
    have hthere (r : Registration L) :
        ({ t with registrations := t.registrations ++ [r] } : Table L).registrations[
          t.registrations.length]? = some r := by simp
    refine haccepted _ (Registration.lapse_id _ _ _) ?_
    simp only [register, if_neg hkind, if_neg hunusable, if_neg hfree, hdelay, if_pos himmediate,
      expire_eq (hthere _)]
    simp [put]
  · next hlater =>
    exact haccepted [] rfl (by
      simp only [register, if_neg hkind, if_neg hunusable, if_neg hfree, hdelay, if_neg hlater,
        List.map_nil])

/-- What an action does is what its share says. -/
theorem serves_callFor (t : Table L) (e : Errand L) :
    t.Serves (t.callFor e) e (Share.deal t.scheduler t.abandons t.now e (t.under e.id)) := by
  unfold callFor Share.deal
  cases e.action with
  | register kind timeout listener => exact serves_register t e kind timeout listener
  | deliver d => exact serves_deliver t e d
  | complete verdict => exact serves_complete t e verdict
  | timeout => exact serves_timeout t e
  | abandon => exact serves_abandon t e
  | ring n => exact serves_ring t e n

/-! ## Runs -/

/-- Listeners that make no calls are done with what they hear, and the call gives its answer. -/
theorem run_proceed (t : Table L) {heard : List Activity}
    (hheard : ∀ a ∈ heard, ∃ owner, a = .hearing owner) (reply : Reply) :
    ({ t with agenda := heard ++ [.answering reply] } : Table L).run
        (.replicate (heard ++ [Activity.answering reply]).length .proceed) =
      ({ t with agenda := [] }, [.answered reply]) := by
  induction heard with
  | nil => rfl
  | cons a heard ih =>
    obtain ⟨owner, rfl⟩ := hheard a List.mem_cons_self
    exact ih fun b hb => hheard b (List.mem_cons_of_mem _ hb)

/-- A call that is carried out leaves nothing on the agenda. -/
theorem carryOut_eq {t t' : Table L} {c : Call L} {signs : List Sign} {reply : Reply}
    (idle : t.agenda = []) (h : t.call c = t'.resume signs [.answering reply])
    (idle' : t'.agenda = []) : t.carryOut c = (t', signs ++ [.answered reply]) := by
  have hlistening : t.isListening = true := by simp [isListening, idle]
  have hrun := run_proceed t' (exists_hearing_of_mem : ∀ a ∈ hearings signs, _) reply
  have hresume : (t'.resume signs [.answering reply]).1 =
      { t' with agenda := hearings signs ++ [.answering reply] } := by
    rw [resume, idle', List.append_nil]
  simp only [carryOut, run, step, hlistening, if_true, h, hresume, hrun]
  rw [← idle']
  rfl

/-- Where nothing is in progress, an action is done as the share of its identifier says, and other
identifiers have no share in it. -/
theorem act_spec {t : Table L} (idle : t.agenda = []) (now : Nat) (e : Errand L) :
    (t.act now e).share e.id = Share.deal t.scheduler t.abandons now e (t.under e.id) ∧
      (∀ id, id ≠ e.id → (t.act now e).share id = ⟨t.under id, [], []⟩) ∧
      (t.act now e).answers.map (·.1) = [e] ∧ (t.act now e).table.agenda = [] ∧
      (t.act now e).table.scheduler = t.scheduler ∧
      (t.act now e).table.abandons = t.abandons := by
  obtain ⟨t', signs, reply, hcall, hdeals, hanswers⟩ :
      Serves { t with now } _ e (Share.deal t.scheduler t.abandons now e (t.under e.id)) :=
    serves_callFor { t with now } e
  have hidle : ({ t with now } : Table L).agenda = [] := idle
  have hcarry := carryOut_eq hidle hcall (hdeals.agenda.trans hidle)
  have hact : t.act now e = ⟨t', [(e, reply)], signs.filterMap t'.tell⟩ := by
    simp only [act, hcarry, List.filterMap_append, hdeals.unanswered]
    exact congrArg _ (List.append_nil _)
  rw [hact, hdeals.told]
  generalize Share.deal t.scheduler t.abandons now e (t.under e.id) = x at *
  refine ⟨?_, fun id hid => ?_, rfl, hdeals.agenda.trans idle, hdeals.scheduler, hdeals.abandons⟩
  · obtain ⟨rs, told, answers⟩ := x
    obtain rfl : answers = [(e, reply)] := hanswers
    simp [Course.share, hdeals.own, List.filter_map, Function.comp_def]
  · have hunder : t'.under id = t.under id := hdeals.others id hid
    simp [Course.share, hunder, hid.symm, List.filter_map, Function.comp_def]

/-- From an identifier, a run looks as if only the actions under it were made. -/
theorem share_actAll {t : Table L} (idle : t.agenda = []) (errands : List (Nat × Errand L))
    (id : Int32) :
    (t.actAll errands).share id = Share.dealAll t.scheduler t.abandons (t.under id)
      (errands.filter (·.2.id = id)) := by
  induction errands generalizing t with
  | nil => rfl
  | cons x errands ih =>
    obtain ⟨now, e⟩ := x
    obtain ⟨hown, hothers, -, hidle, hscheduler, habandons⟩ := act_spec idle now e
    -- what the first action comes to, and the rest
    have hcons : (t.actAll ((now, e) :: errands)).share id =
        ⟨(((t.act now e).table.actAll errands).share id).registrations,
          ((t.act now e).share id).told ++ (((t.act now e).table.actAll errands).share id).told,
          ((t.act now e).share id).answers ++
            (((t.act now e).table.actAll errands).share id).answers⟩ := by
      simp [actAll, Course.share]
    have hunder : (t.act now e).table.under id = ((t.act now e).share id).registrations := rfl
    rw [hcons, ih hidle, hscheduler, habandons, hunder]
    by_cases hid : e.id = id
    · subst hid
      simp [hown, Share.dealAll]
    · simp [hothers id (Ne.symm hid), hid]

/-- Every action is answered once. -/
theorem answered_actAll {t : Table L} (idle : t.agenda = []) (errands : List (Nat × Errand L)) :
    (t.actAll errands).answers.map (·.1) = errands.map (·.2) ∧
      (t.actAll errands).table.agenda = [] ∧
      (t.actAll errands).table.scheduler = t.scheduler ∧
      (t.actAll errands).table.abandons = t.abandons := by
  induction errands generalizing t with
  | nil => exact ⟨rfl, idle, rfl, rfl⟩
  | cons x errands ih =>
    obtain ⟨now, e⟩ := x
    obtain ⟨-, -, hanswers, hidle, hscheduler, habandons⟩ := act_spec idle now e
    obtain ⟨hrest, hidle', hscheduler', habandons'⟩ := ih hidle
    refine ⟨?_, hidle', hscheduler'.trans hscheduler, habandons'.trans habandons⟩
    rw [actAll, List.map_append, hanswers, hrest]
    rfl

end Table

end Ldap
