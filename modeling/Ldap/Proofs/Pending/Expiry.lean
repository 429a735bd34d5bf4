import Ldap.Proofs.Pending.Fate

/-!
# Operations whose time is up

The server is told that nobody waits for an operation when, and only when, the time of the operation
is up; its listener hears so right afterwards. `server_told_of_timeouts` says this of every
registration of every run. Whoever tells the server gives no answer that the table would ask for:
the outcome is made of what is known about the registration and of the time alone.
-/

namespace Ldap

variable {L : Type}

/-- What is told of a registration at its end, by what has ended it. -/
def Cause.Closes (owner : Nat) (r : Registration L) (last : List Sign) : Cause → Prop
  | .time => ∃ (now : Nat) (o : Outcome), o = (r.progress now).outcome (.timeout true) ∧
      o.response.code = .timeout ∧ last = [.abandoning owner r.id, .heard owner r.id (.result o)]
  | .response | .failure => ∃ o : Outcome, last = [.heard owner r.id (.result o)]
  | .abandonment => last = []

namespace Cause

/-- The outcome of an operation whose time is up says so. -/
theorem closes_signs (cause : Cause) (owner : Nat) (r : Registration L) {verdict : Verdict}
    (now : Nat) (timely : cause = .time → verdict = .timeout true) :
    cause.Closes owner r (cause.signs true owner r.id ((r.progress now).outcome verdict)) := by
  cases cause with
  | time =>
    obtain rfl := timely rfl
    exact ⟨now, _, rfl, rfl, rfl⟩
  | response | failure => exact ⟨_, rfl⟩
  | abandonment => rfl

end Cause

namespace Table

/-- In every run of a table that tells the server, whatever the order of calls and timers and
whatever listeners call from within, one thing at most ends a registration, and it is over exactly
then. If its time ended it, be it that its timer went off or that somebody said so, then the server
is told once, and right afterwards the listener hears that the time is up, as the last thing; if
something else ended it, or nothing yet, the server is never told, whatever timers go off later. -/
theorem server_told_of_timeouts (scheduler : Scheduler) (ms : List (Move L)) (owner : Nat)
    (r : Registration L)
    (there : ((empty scheduler true : Table L).run ms).1.registrations[owner]? = some r) :
    let t : Table L := empty scheduler true
    ∃ (ds : List Delivery) (last : List Sign),
      Sign.about owner (t.run ms).2 = ds.map (fun d => .heard owner r.id (.delivery d)) ++ last ∧
      ((t.endsOf owner ms = [] ∧ r.stage ≠ .over ∧ last = []) ∨
        ∃ cause, t.endsOf owner ms = [cause] ∧ r.stage = .over ∧
          cause.Closes owner r last) := by
  intro t
  have h : Lived true owner (t.run ms).1.registrations[owner]? _ _ _ :=
    lived scheduler true owner ms
  rw [there] at h
  generalize t.parcelsFor owner ms = parcels at h
  generalize t.endsOf owner ms = causes at h ⊢
  generalize Sign.about owner (t.run ms).2 = signs at h ⊢
  refine ⟨(parcels.filter (·.accepted)).map (·.delivery), ?_⟩
  rw [List.map_map]
  cases h with
  | live live =>
    refine ⟨[], ?_, .inl ⟨rfl, live, rfl⟩⟩
    exact (List.append_nil _).symm
  | @ended _ _ cause verdict now ended tallies timely =>
    exact ⟨_, rfl, .inr ⟨cause, rfl, ended, cause.closes_signs owner r now timely⟩⟩

/-- While a listener hears of an entry, its own timer goes off; then the timer goes off once more,
when the identifier has been used again. The server was told once. -/
theorem server_told_of_timeout_in_listener :
    let ms : List (Move Unit) :=
      [.call (.register 1 .search (some 10) ()), .proceed,
        .call (.deliver 1 (.entry ⟨"", []⟩)), .call (.fire 0), .proceed, .proceed, .proceed,
        .proceed, .call (.register 1 .add none ()), .proceed, .call (.fire 0), .proceed]
    let t : Table Unit := empty .manual true
    t.endsOf 0 ms = [.time] ∧ (t.run ms).1.find? 1 = some 1 ∧
      ∃ (ds : List Delivery) (o : Outcome), o.response.code = .timeout ∧
        Sign.about 0 (t.run ms).2 = ds.map (fun d => .heard 0 1 (.delivery d)) ++
          [.abandoning 0 1, .heard 0 1 (.result o)] := by
  intro ms t
  have hends : t.endsOf 0 ms = [.time] := by decide
  have there : (t.run ms).1.registrations[0]? =
      some ⟨1, .search, 0, (), .over, 1, 0, some ⟨10, 10, .fired⟩⟩ := by rfl
  obtain ⟨ds, last, htold, ⟨hnone, -⟩ | ⟨cause, hcause, -, hcloses⟩⟩ :=
    server_told_of_timeouts .manual ms 0 _ there
  · cases hends.symm.trans hnone
  · obtain rfl : cause = .time := by
      rw [hends] at hcause
      exact (List.singleton_inj.1 hcause).symm
    obtain ⟨-, o, -, hcode, rfl⟩ := hcloses
    exact ⟨hends, by decide, ds, o, hcode, htold⟩

end Table
end Ldap
