import Ldap.Pending.Step

/-!
# Listeners that follow a script

A script tells a listener which calls to make when it first hears an event of a kind. With scripts
for listeners the moves of a run are settled by the table itself: `Table.play` follows one call to
its answer and records on the way what the listeners heard and did.
-/

namespace Ldap

/-- What a listener does. -/
structure Script where
  /-- Whether it cares for outcomes only. -/
  resultOnly : Bool
  /-- The calls it makes when it first hears an event of a kind. -/
  reactions : List (EventKind × List (Call Script))

namespace Script

/-- Whether a listener takes no notice of a kind of event. -/
def ignores (s : Script) (kind : EventKind) : Bool :=
  s.resultOnly && kind ≠ .result

/-- The calls that a listener makes when it hears an event, and what it does later on. -/
def react (s : Script) (kind : EventKind) : List (Call Script) × Script :=
  if s.ignores kind then ([], s)
  else
    ((s.reactions.lookup kind).getD [],
      { s with reactions := s.reactions.filter (·.1 ≠ kind) })

/-! ## How many calls a script holds -/

mutual

/-- The number of calls in a script, those of the listeners that it registers included. -/
def weight : Script → Nat
  | ⟨_, reactions⟩ => weightOfReactions reactions

/-- The number of calls in some reactions. -/
def weightOfReactions : List (EventKind × List (Call Script)) → Nat
  | [] => 0
  | r :: rs => weightOfReaction r + weightOfReactions rs

/-- The number of calls in a reaction. -/
def weightOfReaction : EventKind × List (Call Script) → Nat
  | (_, calls) => weightOfCalls calls

/-- The number of calls in a list. -/
def weightOfCalls : List (Call Script) → Nat
  | [] => 0
  | c :: cs => weightOfCall c + weightOfCalls cs

/-- The number of calls that a call leads to, with itself. -/
def weightOfCall : Call Script → Nat
  | .register _ _ _ listener => listener.weight + 1
  | .deliver .. | .complete .. | .timeout _ | .abandon _ | .failAll .. | .fire _ | .advance _
  | .query _ | .describe => 1

end

end Script

/-! ## Playing -/

/-- A line of the record of a call. -/
inductive Note where
  /-- A listener heard an event of the operation with an identifier. -/
  | heard (id : Int32) (event : Event)
  /-- The server was to be told that nobody waits for an operation. -/
  | abandoned (id : Int32)
  /-- The listener of the operation with an identifier made a call that was answered; then `size`
  operations were pending. -/
  | called (id : Int32) (call : Call Script) (reply : Reply) (size : Nat)

/-- The identifier of the operation that a line is about. -/
def Note.id : Note → Int32
  | .heard id _ | .abandoned id | .called id .. => id

/-- A table whose listeners follow scripts. For each listener that is hearing an event, the
innermost first, `plans` has the identifier of its operation and the calls that it has yet to
finish. -/
structure Play where
  table : Table Script
  plans : List (Int32 × List (Call Script))

namespace Play

/-- The next move: the listener in progress makes its next call, if it has one. -/
def nextMove (p : Play) : Move Script :=
  match p.table.agenda, p.plans with
  | .hearing _ :: _, (_, c :: _) :: _ => .call c
  | _, _ => .proceed

/-- Drops the plan of a listener that has finished. -/
def withoutFinished (p : Play) : Play :=
  match p.table.agenda, p.plans with
  | .hearing _ :: _, (_, []) :: plans => { p with plans }
  | _, _ => p

/-- Takes up a sign: a listener that begins to hear an event makes its plan, and a call that is
answered is finished. The answer to the outermost call is given back. -/
def takeUp (p : Play) : Sign → Play × List Note × Option Reply
  | .heard owner id event =>
    match p.table.registrations[owner]? with
    | none => ({ p with plans := (id, []) :: p.plans }, [], none)
    | some r =>
      let (calls, listener) := r.listener.react event.kind
      (⟨p.table.put owner { r with listener }, (id, calls) :: p.plans⟩,
        if r.listener.ignores event.kind then [] else [.heard id event], none)
  | .abandoning _ id => (p, [.abandoned id], none)
  | .answered reply =>
    match p.plans with
    | [] => (p, [], some reply)
    | (_, []) :: _ => (p, [], none)
    | (id, c :: calls) :: plans =>
      ({ p with plans := (id, calls) :: plans }, [.called id c reply p.table.size], none)

/-- Takes up signs one after the other. -/
def takeUpAll (p : Play) : List Sign → Play × List Note × Option Reply
  | [] => (p, [], none)
  | s :: signs =>
    let (p, notes, reply) := p.takeUp s
    let (p, later, reply') := p.takeUpAll signs
    (p, notes ++ later, reply <|> reply')

/-- Makes the next move. -/
def step (p : Play) : Play × List Note × Option Reply :=
  let (table, signs) := p.table.step p.nextMove
  { p.withoutFinished with table }.takeUpAll signs

/-- Makes moves until the outermost call is answered, at most `fuel` of them. -/
def run : Nat → Play → Table Script × List Note × Reply
  | 0, p => (p.table, [], .done)
  | fuel + 1, p =>
    match p.step with
    | (p, notes, some reply) => (p.table, notes, reply)
    | (p, notes, none) =>
      let (t, later, reply) := p.run fuel
      (t, notes ++ later, reply)

end Play

namespace Table

/-- A bound on the calls that can still be made: those in the scripts of all listeners. -/
def scripted (t : Table Script) : Nat :=
  t.registrations.foldr (fun r n => r.listener.weight + n) 0

/-- Makes a call and follows it to its answer. Every call is in the script of one listener and is
made once, so there are at most `calls` of them; each makes at most three moves for every
registration, of which there are at most as many as calls and registrations now, and some more. -/
def play (t : Table Script) (c : Call Script) : Table Script × List Note × Reply :=
  let calls := t.scripted + Script.weightOfCall c
  let (table, signs) := t.call c
  let (p, notes, reply) := (⟨table, []⟩ : Play).takeUpAll signs
  match reply with
  | some reply => (p.table, notes, reply)
  | none =>
    let (t, later, reply) := p.run (calls * (3 * (t.registrations.length + calls) + 8))
    (t, notes ++ later, reply)

end Table
end Ldap
