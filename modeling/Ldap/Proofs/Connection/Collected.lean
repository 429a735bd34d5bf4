import Ldap.Proofs.Connection.Turns
import Ldap.Proofs.Pending.Progress

/-!
# Searches that are collected

Whoever submits a search with an inbox takes its events one by one, or waits for its outcome and
gets with it the entries and references that came. The table counts what comes, and the inbox keeps
it: `Gathers` says that the two agree, however the search ends and however much is taken in the
meantime. A move is followed by `Gathers.move` and the taking of an event by `Gathers.take`;
`search_collected` puts together what holds of a whole run.
-/

namespace Ldap

/-- A registration of a search that has counted what came for it. -/
structure Registration.Searches {L : Type} (r : Registration L) (id : Int32)
    (came : List Delivery) : Prop where
  id_eq : r.id = id
  kind : r.kind = .search
  entries : r.entries = (Found.among came).entries.length
  references : r.references = (Found.among came).references.length

namespace Registration.Searches

variable {L : Type} {r r' : Registration L} {id : Int32} {came : List Delivery}

theorem of_kin (h : r.Searches id came) (kin : r.Kin r') : r'.Searches id came :=
  ⟨kin.id.trans h.id_eq, kin.kind.trans h.kind, kin.entries.trans h.entries,
    kin.references.trans h.references⟩

/-- What comes next is counted. -/
theorem count (h : r.Searches id came) (d : Delivery) : (r.count d).Searches id (came ++ [d]) := by
  rcases h with ⟨hid, hkind, hentries, hreferences⟩
  simp only [Found.among] at hentries hreferences
  cases d <;> constructor <;>
    simp [Registration.count, Found.among, List.filterMap_cons, Delivery.entry?,
      Delivery.reference?, hid, hkind, hentries, hreferences]

/-- What a listener keeps makes no difference to what was counted. -/
theorem withListener (h : r.Searches id came) (listener : L) :
    { r with listener }.Searches id came :=
  ⟨h.id_eq, h.kind, h.entries, h.references⟩

/-- The outcome tells what was counted. -/
theorem detail_outcome (h : r.Searches id came) (now : Nat) (verdict : Verdict) :
    ((r.progress now).outcome verdict).detail = .search (Found.among came).entries.length
      (Found.among came).references.length none := by
  rw [Progress.detail_of_search h.kind, ← h.entries, ← h.references]
  rfl

end Registration.Searches

namespace Connection

/-! ## Searches -/

/-- How far a search is whose events are kept in an inbox, by what came for it and by what was
answered to those who took events: it may wait for more, or be forgotten, or have its outcome, which
tells what came. -/
inductive Gathers (c : Connection) (id : Int32) (owner : Nat) (came : List Delivery)
    (answers : List Answer) : Option Outcome → Prop
  | waits {r : Registration Listener} {i : Inbox}
      (there : c.table.registrations[owner]? = some r) (listener : r.listener = .inbox i)
      (live : r.stage ≠ .over) (searches : r.Searches id came) (holds : i.Holds came none answers) :
      Gathers c id owner came answers none
  | forgotten {r : Registration Listener} (there : c.table.registrations[owner]? = some r)
      (ended : r.stage = .over) : Gathers c id owner came answers none
  | done {r : Registration Listener} {i : Inbox} {o : Outcome}
      (there : c.table.registrations[owner]? = some r) (listener : r.listener = .inbox i)
      (ended : r.stage = .over)
      (detail : o.detail = .search (Found.among came).entries.length
        (Found.among came).references.length none)
      (holds : i.Holds came (some o) answers) : Gathers c id owner came answers (some o)

namespace Gathers

variable {c : Connection} {id : Int32} {owner : Nat} {came : List Delivery} {answers : List Answer}
  {last : Option Outcome} {deeds : List Deed}

/-- A search that is accepted waits, and nothing has come for it. -/
theorem of_submit (hs : c.Sound deeds) {search : SearchRequest} {controls : List Control}
    (hid : (c.submit (.searchRequest search) controls (.inbox .empty)).1 = .ok id) :
    (c.submit (.searchRequest search) controls (.inbox .empty)).2.1.Gathers id
      c.table.registrations.length [] [] none := by
  rcases hs.submit_cases (.searchRequest search) controls (.inbox .empty) with
    ⟨e, ids, heq⟩ | ⟨kind, id', ids, table, hkind, -, hregister, heq⟩
  · rw [heq] at hid
    cases hid
  rw [heq] at hid ⊢
  cases hid
  cases hkind
  obtain ⟨r, hrid, hrkind, hlistener, hpending, ⟨hentries, hreferences⟩, -, hadded⟩ :=
    Table.register_cases hregister
  -- timers do not go off within the call
  obtain ⟨rfl, -⟩ | ⟨himmediate, -⟩ := hadded
  · exact .waits List.getElem?_concat_length hlistener (by simp [hpending])
      ⟨hrid, hrkind, hentries, hreferences⟩ Inbox.holds_empty
  · cases himmediate.symm.trans hs.scheduler

theorem exists_registration (h : c.Gathers id owner came answers last) :
    ∃ r, c.table.registrations[owner]? = some r := by
  cases h with
  | waits there | forgotten there | done there => exact ⟨_, there⟩

/-- Another connection with the same registration is as far. -/
theorem of_same {c' : Connection} (h : c.Gathers id owner came answers last)
    (hsame : c'.table.registrations[owner]? = c.table.registrations[owner]?) :
    c'.Gathers id owner came answers last := by
  cases h with
  | waits there listener live searches holds =>
    exact .waits (hsame.trans there) listener live searches holds
  | forgotten there ended => exact .forgotten (hsame.trans there) ended
  | done there listener ended detail holds =>
    exact .done (hsame.trans there) listener ended detail holds

/-- A move takes a search further: what it brings is kept and counted, and so is an outcome, which
tells what was counted. These are the events that the listener hears. -/
theorem move (h : c.Gathers id owner came answers last) (hs : c.Sound deeds) (m : ConnectionMove) :
    ∃ last', (c.step m).1.Gathers id owner (came ++ (c.comes? owner m).toList) answers last' ∧
      eventsOf (came ++ (c.comes? owner m).toList) last' =
        eventsOf came last ++ Sign.events owner (signs (c.step m).2) := by
  cases h with
  | @waits r i there listener live searches holds =>
    obtain ⟨parcel, cause, told, r', hfate, hparcel, hafter, hevents⟩ := fate_of_step hs m there
    rw [← hparcel, hevents]
    cases hfate with
    | stays kin ended =>
      simp only [Option.map_none, Option.toList_none, List.append_nil]
      exact ⟨none, .waits hafter (kin.listener.trans listener) (mt ended.1 live)
        (searches.of_kin kin) holds, (List.append_nil _).symm⟩
    | comes d pending =>
      have hadmits : r.admits d = true := (r.admits_iff d).2 (.inl searches.kind)
      have hlistener : ((r.count d).hearAll [.delivery d]).listener =
          .inbox (i.put (.delivery d)) := by
        cases d <;> simp [Registration.hearAll, Registration.count, Listener.hearAll, listener,
          Listener.hear]
      have hlive : (r.count d).stage ≠ .over := by cases d <;> exact live
      simp only [hadmits, if_true, List.filterMap_cons, Sign.event?, List.filterMap_nil]
        at hafter ⊢
      exact ⟨none, .waits hafter hlistener hlive ((searches.count d).withListener _)
        (holds.put_delivery d), eventsOf_append_singleton came d⟩
    | @ends cause _ r₁ _ verdict now there' live' kin ended timely =>
      obtain rfl : r = r₁ := by simpa using there'
      simp only [Option.map_none, Option.toList_none, List.append_nil]
      rw [Cause.events_signs] at hafter ⊢
      split at hafter
      · next habandoned =>
        rw [if_pos habandoned]
        exact ⟨none, .forgotten hafter ended, (List.append_nil _).symm⟩
      · next habandoned =>
        -- the outcome is heard as the last event
        rw [if_neg habandoned]
        have hlistener : ((r'.hearAll [.result ((r.progress now).outcome verdict)])).listener =
            .inbox (i.put (.result ((r.progress now).outcome verdict))) := by
          simp [Registration.hearAll, Listener.hearAll, kin.listener, listener, Listener.hear]
        exact ⟨_, .done hafter hlistener ended (searches.detail_outcome now verdict)
          (holds.put_result _), eventsOf_some came _⟩
  | forgotten there ended =>
    obtain ⟨r', hafter, ended', -, hcomes, hevents⟩ := over_of_step hs m there ended
    rw [hcomes, hevents, Option.toList_none, List.append_nil, List.append_nil]
    exact ⟨none, .forgotten hafter ended', rfl⟩
  | done there listener ended detail holds =>
    obtain ⟨r', hafter, ended', hlistener, hcomes, hevents⟩ := over_of_step hs m there ended
    rw [hcomes, hevents, Option.toList_none, List.append_nil, List.append_nil]
    exact ⟨_, .done hafter (hlistener.trans listener) ended' detail holds, rfl⟩

/-- Whoever takes an event gets the next one, unless there is none so far. -/
theorem next_of_holds {r : Registration Listener} {i : Inbox}
    (there : c.table.registrations[owner]? = some r) (listener : r.listener = .inbox i)
    (holds : i.Holds came last answers) (live : last = none → r.stage ≠ .over) :
    (last ≠ none → (c.next owner).1 = .ok (.ready (eventsOf came last)[answers.length]?)) ∧
      ∃ i', (c.next owner).2.table.registrations[owner]? =
        some { r with listener := .inbox i' } ∧
        i'.Holds came last (answers ++ (Answer.of? (c.next owner).1).toList) := by
  have hopen : last = none → c.table.isLive owner = true := fun hnone =>
    Table.isLive_iff.2 ⟨r, there, live hnone⟩
  rw [next_of_listener there listener]
  dsimp only
  rw [registrations_putInbox there, if_pos rfl]
  rcases (holds.attached (c.table.isLive owner)).next hopen with
    ⟨hnone, hnext⟩ | ⟨hanswer, hrest⟩
  · rw [hnext]
    exact ⟨fun hsome => absurd hnone hsome, _, rfl, by simpa [Answer.of?] using holds.attached _⟩
  · rw [hanswer]
    exact ⟨fun _ => rfl, _, rfl, hrest⟩

/-- Taking an event leaves a search as far as it was. -/
theorem take (h : c.Gathers id owner came answers last) (place : Nat) :
    (c.next place).2.Gathers id owner came
      (answers ++ (c.answer? owner (.take place)).toList) last := by
  by_cases hplace : place = owner
  case neg =>
    have hsame := h.of_same (registrations_next hplace)
    simpa [answer?, hplace] using hsame
  subst hplace
  rw [answer?, if_pos rfl]
  cases h with
  | waits there listener live searches holds =>
    obtain ⟨-, i', there', holds'⟩ := next_of_holds there listener holds fun _ => live
    exact .waits there' rfl live (searches.withListener _) holds'
  | forgotten there ended =>
    obtain ⟨r', there', hstage⟩ := stage_next there place
    exact .forgotten there' (hstage.trans ended)
  | done there listener ended detail holds =>
    obtain ⟨-, i', there', holds'⟩ := next_of_holds there listener holds nofun
    exact .done there' rfl ended detail holds'

theorem turn (h : c.Gathers id owner came answers last) (hs : c.Sound deeds) (t : Turn) :
    ∃ last', (c.turn t).1.Gathers id owner (came ++ (c.brings? owner t).toList)
        (answers ++ (c.answer? owner t).toList) last' ∧
      eventsOf (came ++ (c.brings? owner t).toList) last' =
        eventsOf came last ++ Sign.events owner (signs (c.turn t).2) := by
  cases t with
  | move m =>
    simp only [answer?, Option.toList_none, List.append_nil]
    exact h.move hs m
  | take place =>
    simp only [brings?, Option.toList_none, List.append_nil]
    exact ⟨last, h.take place, (List.append_nil _).symm⟩

/-- Turns take a search further: all that they bring is kept and counted, and the listener hears of
it and, last, of the outcome. -/
theorem turns (h : c.Gathers id owner came answers last) (hs : c.Sound deeds) (ts : List Turn) :
    ∃ last', (c.turns ts).1.Gathers id owner (came ++ c.came owner ts)
        (answers ++ c.answers owner ts) last' ∧
      eventsOf (came ++ c.came owner ts) last' =
        eventsOf came last ++ Sign.events owner (signs (c.turns ts).2) := by
  induction ts generalizing c came answers last deeds with
  | nil =>
    refine ⟨last, ?_, ?_⟩
    · simpa [Connection.came, Connection.answers, along, Connection.turns] using h
    · simp [Connection.came, along, Connection.turns, signs, Sign.events, Sign.about]
  | cons t ts ih =>
    obtain ⟨later, hlater⟩ := hs.turn t
    obtain ⟨last₁, hgathers₁, hevents₁⟩ := h.turn hs t
    obtain ⟨last', hgathers, hevents⟩ := ih hgathers₁ hlater
    rw [List.append_assoc, List.append_assoc] at hgathers
    refine ⟨last', hgathers, ?_⟩
    rw [hevents₁, List.append_assoc, List.append_assoc, ← Sign.events_append] at hevents
    refine hevents.trans (congrArg (_ ++ ·) (congrArg (Sign.events owner) ?_))
    exact List.filterMap_append.symm

/-- Taking events is all that can be done once the connection was given up. -/
theorem takes (h : c.Gathers id owner came answers last) (places : List Nat) :
    (c.turns (places.map .take)).1.Gathers id owner came
      (answers ++ c.answers owner (places.map .take)) last := by
  induction places generalizing c answers with
  | nil => simpa [Connection.answers, along, Connection.turns] using h
  | cons place places ih =>
    have hrest := ih (h.take place)
    rwa [List.append_assoc] at hrest

/-- A search that has its outcome keeps it when the connection is given up. -/
theorem drop {o : Outcome} (h : c.Gathers id owner came answers (some o)) :
    c.drop.Gathers id owner came answers (some o) := by
  cases h with
  | done there listener ended detail holds =>
    exact .done (List.getElem?_map.trans (congrArg _ there)) listener rfl detail holds

/-- As long as a search is not over its registration has its identifier. -/
theorem id_of_live (h : c.Gathers id owner came answers last) {r : Registration Listener}
    (there : c.table.registrations[owner]? = some r) (live : r.stage ≠ .over) : r.id = id := by
  cases h with
  | waits there' listener live' searches holds =>
    cases there.symm.trans there'
    exact searches.id_eq
  | forgotten there' ended | done there' listener ended =>
    cases there.symm.trans there'
    exact absurd ended live

/-- When nothing is in progress, the identifier of a search that is not over leads to it, and no
other does; once it is over none does. -/
theorem find?_iff (h : c.Gathers id owner came answers last) (hs : c.Sound deeds)
    (hidle : c.table.agenda = []) (id' : Int32) :
    c.table.find? id' = some owner ↔ c.table.isLive owner = true ∧ id' = id := by
  rw [hs.table.find?_eq_some_iff, Table.isLive_iff]
  constructor
  · rintro ⟨r, there, hpending, hid⟩
    have hlive : r.stage ≠ .over := by simp [hpending]
    exact ⟨⟨r, there, hlive⟩, hid.symm.trans (h.id_of_live there hlive)⟩
  · rintro ⟨⟨r, there, hlive⟩, rfl⟩
    have hnot := hs.table.not_drained hidle there
    refine ⟨r, there, ?_, h.id_of_live there hlive⟩
    -- it is neither taken out of the table nor over
    cases hstage : r.stage
    · rfl
    · exact absurd hstage hnot
    · exact absurd hstage hlive

/-- What a turn brings for a search is what the frame that is taken holds under its identifier, and
nothing once the search is over. -/
theorem brings_eq (h : c.Gathers id owner came answers last) (hs : c.Sound deeds) (t : Turn) :
    (c.brings? owner t).toList =
      (if c.table.isLive owner then (c.frame? t).toList else []).filterMap (c.broughtTo? id) := by
  cases t with
  | take place => simp [brings?, frame?]
  | move m =>
    rw [brings?, frame?, comes?, passed?]
    cases htaken : c.taken? m with
    | none => simp [Table.comesFor?]
    | some x =>
      have hfind := h.find?_iff hs (idle_of_not_busy (arrival_of_taken htaken).1).1
      cases hbrought : c.brought? x.1 with
      | none => simp [Table.comesFor?, broughtTo?, hbrought]
      | some passed =>
        have hto : c.broughtTo? id x.1 = if passed.1 = id then some passed.2 else none := by
          by_cases hid : passed.1 = id <;> simp [broughtTo?, hbrought, Option.filter, hid]
        simp only [Table.comesFor?, Option.bind_some, Option.map_some, hbrought, hfind]
        by_cases hlive : c.table.isLive owner = true <;> by_cases hid : passed.1 = id <;>
          simp [hto, hlive, hid]

/-- What turns bring for a search is what the frames that are taken until it is over hold under its
identifier. -/
theorem came_eq (h : c.Gathers id owner came answers last) (hs : c.Sound deeds) (ts : List Turn) :
    c.came owner ts = (c.framesFor owner ts).filterMap (c.broughtTo? id) := by
  induction ts generalizing c came answers last deeds with
  | nil => rfl
  | cons t ts ih =>
    obtain ⟨later, hlater⟩ := hs.turn t
    obtain ⟨last', hgathers, -⟩ := h.turn hs t
    have hrest := ih hgathers hlater
    have hsame : (c.turn t).1.broughtTo? id = c.broughtTo? id := by
      funext frame
      rw [broughtTo?, broughtTo?, brought?, brought?, (consumes_turn c t).options]
    rw [hsame] at hrest
    rw [Connection.came, along, h.brings_eq hs t, Connection.framesFor, along,
      List.filterMap_append]
    exact congrArg (_ ++ ·) hrest

end Gathers

/-! ## Outcomes -/

/-- What there is to be had of a search that has its outcome, by what came for it and by what was
answered to those who took events. -/
structure Collected (c : Connection) (owner : Nat) (came : List Delivery) (answers : List Answer)
    (o : Outcome) : Prop where
  /-- The outcome tells how much came. -/
  detail : o.detail = .search (Found.among came).entries.length
    (Found.among came).references.length none
  /-- Whoever waits for the outcome gets it with the entries and references that were not taken. -/
  result : answers.length ≤ came.length →
    let found := Found.among (came.drop answers.length)
    c.result owner = .ok (.ready
      { o with detail := .search found.entries.length found.references.length (some found) })
  /-- Whoever took an event got the next one, or none after the outcome. -/
  answered : ∀ (k : Nat) (a : Answer), answers[k]? = some a →
    a = Except.ok (eventsOf came (some o))[k]?
  next : (c.next owner).1 = .ok (.ready (eventsOf came (some o))[answers.length]?)

theorem Gathers.collected {c : Connection} {id : Int32} {owner : Nat} {came : List Delivery}
    {answers : List Answer} {o : Outcome} (h : c.Gathers id owner came answers (some o)) :
    c.Collected owner came answers o := by
  cases h with
  | done there listener ended detail holds =>
    refine ⟨detail, fun huntaken => ?_, holds.answered,
      (next_of_holds there listener holds nofun).1 nofun⟩
    rw [Connection.result, inbox?_of_listener there listener]
    dsimp only
    rw [(holds.attached _).result huntaken, Inbox.collect, detail]

/-- Whatever happens before and after a search is submitted: what comes for it is what the frames
bring under its identifier that are taken until it is over, in the order in which the server sent
them. Once its listener has heard of an outcome, however that was made, it has heard before of all
that came, and of nothing else. Whoever waits for the outcome then gets it with all these entries
and references, or those that were not taken before, and with their numbers, which are those that
the outcome tells if none was taken. Whoever takes the events one by one gets the same ones in the
same order, the outcome last, and none ever after. All this stays so when the connection is given
up. -/
theorem search_collected (options : Options) (before after : List Turn) (search : SearchRequest)
    (controls : List Control) (id : Int32) :
    let c := ((start options).turns before).1
    let owner := c.table.registrations.length
    let submitted := c.submit (.searchRequest search) controls (.inbox .empty)
    let c' := submitted.2.1
    let d := (c'.turns after).1
    let heard := Sign.events owner (signs (c'.turns after).2)
    let came := c'.came owner after
    let answers := c'.answers owner after
    submitted.1 = .ok id →
      came = (c'.framesFor owner after).filterMap (c'.broughtTo? id) ∧
      c'.framesFor owner after <+: c'.frames after ∧
      c'.Consumes (c'.frames after) (c'.arrivals after) d ∧
      ∀ o, .result o ∈ heard →
        heard = eventsOf came (some o) ∧ d.Collected owner came answers o ∧
        ∀ places : List Nat,
          let takes := places.map Turn.take
          (d.drop.turns takes).1.Collected owner came
            (answers ++ d.drop.answers owner takes) o := by
  intro c owner submitted c' d heard came answers hid
  obtain ⟨deeds, hs⟩ := (sound_start options).turns before
  have hs' : c'.Sound _ := hs.submit (.searchRequest search) controls (.inbox .empty)
  have hstart : c'.Gathers id owner [] [] none := .of_submit hs hid
  refine ⟨hstart.came_eq hs' after, framesFor_prefix hs' hstart.exists_registration after,
    consumes_turns c' after, fun o ho => ?_⟩
  obtain ⟨last, hgathers, hevents⟩ := hstart.turns hs' after
  have hheard : heard = eventsOf came last := hevents.symm
  -- the outcome that was heard is the last event
  obtain rfl : last = some o := by
    rw [hheard, eventsOf, List.mem_append] at ho
    simpa using ho
  exact ⟨hheard, hgathers.collected, fun places => (hgathers.drop.takes places).collected⟩

/-- A search whose time is up after an entry and a reference has both with its outcome. -/
theorem search_collected_of_timeout :
    let submitted := (start .usual).submit
      (.searchRequest ⟨"", .sub, 0, 0, 0, false, .item (.present "cn"), []⟩) [] (.inbox .empty)
    let after : List Turn := [.move (.stream (.arrive
        [0x30, 0x0d, 0x02, 0x01, 0x01, 0x64, 0x08, 0x04, 0x04, 0x63, 0x6e, 0x3d, 0x61, 0x30, 0x00,
          0x30, 0x08, 0x02, 0x01, 0x01, 0x73, 0x03, 0x04, 0x01, 0x62])),
      .move .read, .move .proceed, .move .proceed, .move .read, .move .proceed, .move .proceed,
      .move (.request (.fire 0))]
    let d := (submitted.2.1.turns after).1
    submitted.1 = .ok 1 ∧ ∃ o, .result o ∈ Sign.events 0 (signs (submitted.2.1.turns after).2) ∧
      o.response.code = .timeout ∧ o.detail = .search 1 1 none ∧
      d.result 0 =
        .ok (.ready { o with detail := .search 1 1 (some ⟨[⟨"cn=a", []⟩], [⟨["b"]⟩]⟩) }) ∧
      (d.next 0).1 = .ok (.ready (some (.delivery (.entry ⟨"cn=a", []⟩)))) := by
  intro submitted after d
  let o := (⟨1, .search, 1, 1, 0⟩ : Progress).outcome (.timeout false)
  have hid : submitted.1 = .ok 1 := by rfl
  have hcame : submitted.2.1.came 0 after = [.entry ⟨"cn=a", []⟩, .reference ⟨["b"]⟩] := by
    decide +kernel
  have hanswers : submitted.2.1.answers 0 after = [] := by decide +kernel
  have hheard : .result o ∈ Sign.events 0 (signs (submitted.2.1.turns after).2) := by
    decide +kernel
  obtain ⟨-, -, -, hcollected⟩ := search_collected .usual [] after
    ⟨"", .sub, 0, 0, 0, false, .item (.present "cn"), []⟩ [] 1 hid
  obtain ⟨-, h, -⟩ := hcollected o hheard
  have hcollected : d.Collected 0 [.entry ⟨"cn=a", []⟩, .reference ⟨["b"]⟩] [] o := by
    rw [← hcame, ← hanswers]
    exact h
  exact ⟨hid, o, hheard, rfl, hcollected.detail, hcollected.result (by decide), hcollected.next⟩

end Connection
end Ldap
