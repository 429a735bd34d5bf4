import Ldap.Proofs.Connection.Fate
import Ldap.Proofs.Connection.Inbox
import Ldap.Proofs.Message.Stream

/-!
# Runs in which events are taken

Besides the moves of a connection it may happen that somebody takes the next event from the inbox of
a request, which changes nothing but this inbox. In each turn there may be something to see: what is
brought for a request, what is answered, a frame that is taken off the stream, or bytes that arrive.
The frames that were taken are the first elements of what arrived (`consumes_turns`).
-/

namespace Ldap

open Ber (Element Source)

namespace Connection

/-! ## Turns -/

/-- What happens next to a connection, one of whose requests may be waited for. -/
inductive Turn where
  | move (move : ConnectionMove)
  /-- Somebody takes the next event from the inbox of a request. -/
  | take (owner : Nat)
  deriving DecidableEq, Repr

/-- Follows a turn. -/
def turn (c : Connection) : Turn → Connection × List Occurrence
  | .move m => c.step m
  | .take owner => ((c.next owner).2, [])

/-- Follows turns. -/
def turns (c : Connection) : List Turn → Connection × List Occurrence
  | [] => (c, [])
  | t :: ts =>
    let (c, seen) := c.turn t
    let (c, later) := c.turns ts
    (c, seen ++ later)

/-- What there is to see in each of some turns, one after the other. -/
def along {α : Type} (look : Connection → Turn → List α) (c : Connection) : List Turn → List α
  | [] => []
  | t :: ts => look c t ++ along look (c.turn t).1 ts

/-- What a turn brings for the registration at a place. -/
def brings? (owner : Nat) (c : Connection) : Turn → Option Delivery
  | .move m => c.comes? owner m
  | .take _ => none

/-- What is answered in a turn to whoever takes an event of the registration at a place. -/
def answer? (owner : Nat) (c : Connection) : Turn → Option Answer
  | .move _ => none
  | .take place => if place = owner then Answer.of? (c.next place).1 else none

/-- The frame that the reader takes in a turn. -/
def frame? (c : Connection) : Turn → Option (List UInt8)
  | .move m => (c.taken? m).map (·.1)
  | .take _ => none

/-- The bytes that the stream gets in a turn. -/
def arrived (c : Connection) : Turn → List UInt8
  | .move (.stream (.arrive bytes)) => if c.ending.isNone then bytes else []
  | .move _ | .take _ => []

/-- What a frame brings for the request of an identifier. -/
def broughtTo? (c : Connection) (id : Int32) (frame : List UInt8) : Option Delivery :=
  ((c.brought? frame).filter (·.1 = id)).map (·.2)

/-- What turns bring for the registration at a place. -/
def came (c : Connection) (owner : Nat) : List Turn → List Delivery :=
  along (fun c t => (c.brings? owner t).toList) c

/-- What is answered in turns to whoever takes events of the registration at a place. -/
def answers (c : Connection) (owner : Nat) : List Turn → List Answer :=
  along (fun c t => (c.answer? owner t).toList) c

/-- The frames that the reader takes in turns. -/
def frames (c : Connection) : List Turn → List (List UInt8) :=
  along (fun c t => (c.frame? t).toList) c

/-- The frames that the reader takes in turns while the registration at a place is not over. -/
def framesFor (c : Connection) (owner : Nat) : List Turn → List (List UInt8) :=
  along (fun c t => if c.table.isLive owner then (c.frame? t).toList else []) c

/-- The bytes that the stream gets in turns. -/
def arrivals (c : Connection) : List Turn → List UInt8 :=
  along arrived c

/-! ## Inboxes of a connection -/

section Inboxes

variable {c : Connection} {owner : Nat} {r : Registration Listener} {i : Inbox}

theorem inbox?_of_listener (there : c.table.registrations[owner]? = some r)
    (listener : r.listener = .inbox i) :
    c.inbox? owner = some { i with attached := c.table.isLive owner } := by
  simp [inbox?, there, listener, Listener.inbox?]

/-- Taking an event changes the inbox that it is taken from, and nothing else in the table. -/
theorem registrations_putInbox (there : c.table.registrations[owner]? = some r) (i : Inbox)
    (other : Nat) :
    (c.putInbox owner i).table.registrations[other]? =
      if owner = other then some { r with listener := .inbox i }
      else c.table.registrations[other]? := by
  simp only [putInbox, there]
  split
  · next h =>
    subst h
    exact Table.registrations_put _ there
  · next h => exact List.getElem?_set_ne h

theorem next_of_listener (there : c.table.registrations[owner]? = some r)
    (listener : r.listener = .inbox i) :
    c.next owner = (({ i with attached := c.table.isLive owner } : Inbox).next.1,
      c.putInbox owner ({ i with attached := c.table.isLive owner } : Inbox).next.2) := by
  rw [next, inbox?_of_listener there listener]

/-- Whoever takes an event of another request leaves this one alone. -/
theorem registrations_next {place : Nat} (hplace : place ≠ owner) :
    (c.next place).2.table.registrations[owner]? = c.table.registrations[owner]? := by
  rw [next]
  split
  · rfl
  · cases hr : c.table.registrations[place]? with
    | none => simp [putInbox, hr]
    | some r => rw [registrations_putInbox hr, if_neg hplace]

/-- Taking an event ends no operation. -/
theorem stage_next (there : c.table.registrations[owner]? = some r) (place : Nat) :
    ∃ r', (c.next place).2.table.registrations[owner]? = some r' ∧ r'.stage = r.stage := by
  by_cases hplace : place = owner
  case neg => exact ⟨r, (registrations_next hplace).trans there, rfl⟩
  subst hplace
  rw [next]
  split
  · exact ⟨r, there, rfl⟩
  · exact ⟨_, (registrations_putInbox there _ _).trans (if_pos rfl), rfl⟩

/-- Taking an event changes what a listener keeps, which is nothing that the table looks at. -/
theorem queues_next (c : Connection) (place : Nat) : c.Queues (c.next place).2 := by
  rw [next]
  split
  · exact .refl c
  · simp only [putInbox]
    split
    · exact .refl c
    · next r hr => exact ⟨.put (.adjust (.inbox _) r.timer hr), rfl, rfl, rfl, rfl, id⟩

end Inboxes

theorem Sound.turn {c : Connection} {deeds : List Deed} (h : c.Sound deeds) (t : Turn) :
    ∃ later, (c.turn t).1.Sound later := by
  cases t with
  | move m => exact ⟨_, h.step m⟩
  | take owner => exact ⟨_, h.queues (queues_next c owner)⟩

theorem Sound.turns {c : Connection} {deeds : List Deed} (h : c.Sound deeds) (ts : List Turn) :
    ∃ later, (c.turns ts).1.Sound later := by
  induction ts generalizing c deeds with
  | nil => exact ⟨deeds, h⟩
  | cons t ts ih =>
    obtain ⟨later, hlater⟩ := h.turn t
    exact ih hlater

/-! ## Registrations in turns -/

section Registrations

variable {c : Connection} {owner : Nat} {r : Registration Listener} {deeds : List Deed}

/-- A registration is there after a turn, and over if it was. -/
theorem exists_of_turn (hs : c.Sound deeds) (there : c.table.registrations[owner]? = some r)
    (t : Turn) : ∃ r', (c.turn t).1.table.registrations[owner]? = some r' ∧
      (r.stage = .over → r'.stage = .over) := by
  cases t with
  | move m =>
    obtain ⟨parcel, cause, told, r', hfate, -, hafter, -⟩ := fate_of_step hs m there
    exact ⟨_, hafter, fun hover => (hfate.of_over hover).2.2.2⟩
  | take place =>
    obtain ⟨r', there', hstage⟩ := stage_next there place
    exact ⟨r', there', hstage.trans⟩

theorem framesFor_eq_nil (hs : c.Sound deeds) (there : c.table.registrations[owner]? = some r)
    (hover : r.stage = .over) (ts : List Turn) : c.framesFor owner ts = [] := by
  induction ts generalizing c r deeds with
  | nil => rfl
  | cons t ts ih =>
    obtain ⟨later, hlater⟩ := hs.turn t
    obtain ⟨r', there', hover'⟩ := exists_of_turn hs there t
    have hdead : c.table.isLive owner = false := by simp [Table.isLive, there, hover]
    have hrest := ih hlater there' (hover' hover)
    rw [framesFor] at hrest ⊢
    simp [along, hdead, hrest]

/-- The frames that are taken while a registration is not over come before the others. -/
theorem framesFor_prefix (hs : c.Sound deeds) (there : ∃ r, c.table.registrations[owner]? = some r)
    (ts : List Turn) : c.framesFor owner ts <+: c.frames ts := by
  induction ts generalizing c deeds with
  | nil => exact List.prefix_rfl
  | cons t ts ih =>
    obtain ⟨r, there⟩ := there
    by_cases hover : r.stage = .over
    · rw [framesFor_eq_nil hs there hover]
      exact List.nil_prefix
    · obtain ⟨later, hlater⟩ := hs.turn t
      obtain ⟨r', there', -⟩ := exists_of_turn hs there t
      have hlive : c.table.isLive owner = true := Table.isLive_iff.2 ⟨r, there, hover⟩
      have hrest := ih hlater ⟨r', there'⟩
      rw [framesFor, along, if_pos hlive]
      exact (List.prefix_append_right_inj _).2 hrest

end Registrations

/-! ## The stream -/

/-- A connection is left with what it had to read and with what arrived, but for the frames that
were taken off the front; each of these is one element. -/
structure Consumes (c : Connection) (frames : List (List UInt8)) (arrived : List UInt8)
    (c' : Connection) : Prop where
  bytes_eq : frames.flatten ++ c'.inbound = c.inbound ++ arrived
  elements : ∀ frame ∈ frames, ∃ e, Element.decode frame = .ok e
  options : c'.options = c.options

namespace Consumes

variable {c c' c'' : Connection} {frames frames' : List (List UInt8)}
  {arrived arrived' : List UInt8}

theorem of_same (h : c.SameStream c') : c.Consumes [] [] c' :=
  ⟨by simp [h.inbound], fun _ hframe => absurd hframe List.not_mem_nil, h.options⟩

theorem trans (h : c.Consumes frames arrived c') (h' : c'.Consumes frames' arrived' c'') :
    c.Consumes (frames ++ frames') (arrived ++ arrived') c'' where
  bytes_eq := by
    rw [List.flatten_append, List.append_assoc, h'.bytes_eq, ← List.append_assoc, h.bytes_eq,
      List.append_assoc]
  elements frame hframe := (List.mem_append.1 hframe).elim (h.elements frame) (h'.elements frame)
  options := h'.options.trans h.options

end Consumes

section Stream

variable {c : Connection}

theorem sameStream_accept (c : Connection) (frame : List UInt8) :
    c.SameStream (c.accept frame).1 := by
  have heffect := c.frameEffect_accept frame
  generalize c.accept frame = x at heffect ⊢
  cases heffect with
  | notify m =>
    rcases c.notify_cases m with ⟨-, heq⟩ | ⟨r, o, -, -, heq⟩
    · rw [heq]
      exact ⟨rfl, rfl⟩
    · rw [heq]
      exact ⟨rfl, rfl⟩
  | stop => exact ⟨rfl, rfl⟩
  | ignore => exact ⟨rfl, rfl⟩
  | deliver | complete | fail => exact (sameReader_withTable c _).toSameStream

/-- The frame that is found is the first element of what there is to read. -/
theorem inbound_of_arrival {frame rest : List UInt8} (h : c.arrival = .frame frame rest) :
    c.inbound = frame ++ rest ∧ ∃ e, Element.decode frame = .ok e := by
  unfold arrival at h
  dsimp only at h
  split at h
  · next hread =>
    cases h
    obtain ⟨hgave, e, he, -⟩ := Frame.gave_of_read hread
    exact ⟨(Source.bytes_ofBytes c.inbound).symm.trans hgave.bytes_eq, e, he⟩
  all_goals cases h

/-- A frame is taken only where it was found, and when nothing is in progress. -/
theorem arrival_of_taken {m : ConnectionMove} {frame rest : List UInt8}
    (h : c.taken? m = some (frame, rest)) : c.isBusy = false ∧ c.arrival = .frame frame rest := by
  cases m with
  | read =>
    simp only [taken?] at h
    split at h
    · cases h
    next hready =>
    rw [Bool.or_eq_true, not_or, Bool.not_eq_true] at hready
    split at h
    · next harrival =>
      cases h
      exact ⟨hready.1, harrival⟩
    all_goals cases h
  | _ => cases h

theorem consumes_read (c : Connection) :
    c.Consumes ((c.taken? .read).map (·.1)).toList [] (c.step .read).1 := by
  cases htaken : c.taken? .read with
  | none =>
    rcases step_read_of_not_taken htaken with heq | ⟨reason, heq⟩
    · rw [heq]
      exact .of_same ⟨rfl, rfl⟩
    · rw [heq]
      exact .of_same ⟨rfl, rfl⟩
  | some x =>
    rcases x with ⟨frame, rest⟩
    obtain ⟨hinbound, helement⟩ := inbound_of_arrival (arrival_of_taken htaken).2
    have hsame := sameStream_accept { c with inbound := rest } frame
    rw [step_read_of_taken htaken]
    refine ⟨?_, fun f hf => ?_, hsame.options⟩
    · simp [hsame.inbound, hinbound]
    · rw [List.mem_singleton.1 hf]
      exact helement

theorem consumes_change (c : Connection) (change : StreamChange) :
    c.Consumes [] (c.arrived (.move (.stream change))) (c.change change) := by
  cases change with
  | arrive bytes =>
    simp only [arrived, Connection.change]
    split
    · exact ⟨rfl, fun _ hframe => absurd hframe List.not_mem_nil, rfl⟩
    · exact .of_same ⟨rfl, rfl⟩
  | stop ending => exact .of_same ⟨rfl, rfl⟩
  | failWriting reason => exact .of_same ⟨rfl, rfl⟩

theorem sameStream_next (c : Connection) (place : Nat) : c.SameStream (c.next place).2 := by
  rw [next]
  split
  · exact ⟨rfl, rfl⟩
  · simp only [putInbox]
    split <;> exact ⟨rfl, rfl⟩

theorem consumes_turn (c : Connection) (t : Turn) :
    c.Consumes (c.frame? t).toList (c.arrived t) (c.turn t).1 := by
  cases t with
  | take place => exact .of_same (sameStream_next c place)
  | move m =>
    cases m with
    | request r =>
      rcases c.step_request r with heq | ⟨-, heq⟩
      · rw [turn, heq]
        exact .of_same ⟨rfl, rfl⟩
      · rw [turn, heq]
        exact .of_same (sameReader_request c r).toSameStream
    | stream change => exact consumes_change c change
    | proceed => exact .of_same (sameReader_proceed c).toSameStream
    | rearrange owners => exact .of_same ⟨rfl, rfl⟩
    | read => exact consumes_read c
    | write =>
      rcases c.step_write with heq | ⟨-, hx⟩
      · rw [turn, heq]
        exact .of_same ⟨rfl, rfl⟩
      · exact .of_same (sameReader_write? hx).toSameStream

theorem consumes_turns (c : Connection) (ts : List Turn) :
    c.Consumes (c.frames ts) (c.arrivals ts) (c.turns ts).1 := by
  induction ts generalizing c with
  | nil => exact .of_same ⟨rfl, rfl⟩
  | cons t ts ih => exact (consumes_turn c t).trans (ih (c.turn t).1)

end Stream

end Connection
end Ldap
