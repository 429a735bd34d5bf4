import Ldap.Proofs.Pending.Fate

/-!
# What is counted while an operation is pending

The progress of an operation counts the entries and references that came for it, whether or not its
listener heard of them. Only a search may hear of any, so for a search the numbers are those of
what it heard; for an operation of another kind, which hears of none, they are those of what was
refused. `counts_what_came` says so for every registration of every run.
-/

namespace Ldap

variable {L : Type}

/-- What a listener begins to hear, if it is not an outcome. -/
def Sign.delivery? : Sign → Option Delivery
  | .heard _ _ (.delivery d) => some d
  | .heard _ _ (.result _) | .abandoning .. | .answered _ => none

/-- The outcome that a listener begins to hear. -/
def Sign.result? : Sign → Option Outcome
  | .heard _ _ (.result o) => some o
  | .heard _ _ (.delivery _) | .abandoning .. | .answered _ => none

/-! ## Outcomes -/

/-- Only the outcome of a search tells numbers when there is no response to take them from. -/
theorem OutcomeDetail.counts_of_ofKind {kind : OperationKind} {e f e' f' : Nat}
    {found : Option Found} (h : ofKind kind e f = .search e' f' found) :
    kind = .search ∧ e' = e ∧ f' = f := by
  unfold ofKind at h
  split at h
  · cases h
    exact ⟨rfl, rfl, rfl⟩
  all_goals cases h

/-- Only the final response to a search gives an outcome that tells numbers. -/
theorem OutcomeDetail.counts_of_ofResponse {op : Operation} {e f e' f' : Nat}
    {found : Option Found} (h : ofResponse op e f none = .search e' f' found) :
    op.kind? = some .search ∧ e' = e ∧ f' = f := by
  unfold ofResponse at h
  split at h
  · cases h
    exact ⟨rfl, rfl, rfl⟩
  all_goals cases h

/-- Only the outcome of a search tells numbers, and they are those of its progress. -/
theorem Progress.counts_of_outcome {p : Progress} {verdict : Verdict} {e f : Nat}
    {found : Option Found} (h : (p.outcome verdict).detail = .search e f found) :
    p.kind = .search ∧ e = p.entries ∧ f = p.references := by
  cases verdict with
  | clientSide | timeout => exact OutcomeDetail.counts_of_ofKind h
  | response m =>
    rw [outcome] at h
    split at h
    · next hkind =>
      rw [Outcome.ofMessage?, hkind] at h
      cases hresponse : m.op.response? with
      | none =>
        rw [hresponse] at h
        exact OutcomeDetail.counts_of_ofKind h
      | some response =>
        rw [hresponse] at h
        obtain ⟨hsearch, hcounts⟩ := OutcomeDetail.counts_of_ofResponse h
        exact ⟨Option.some.inj (hkind.symm.trans hsearch), hcounts⟩
    · exact OutcomeDetail.counts_of_ofKind h

/-- The outcome of a search tells what its progress counts, whatever ends it. -/
theorem Progress.detail_of_search {p : Progress} (search : p.kind = .search) (verdict : Verdict) :
    (p.outcome verdict).detail = .search p.entries p.references none := by
  have hclient (code : ResultCode) (diagnostic : String) :
      (p.clientSide code diagnostic).detail = .search p.entries p.references none := by
    simp [clientSide, Outcome.clientSide, Outcome.ofKind, OutcomeDetail.ofKind, search]
  cases verdict with
  | clientSide code diagnostic => exact hclient _ _
  | timeout abandoned => exact hclient _ _
  | response m =>
    rw [outcome]
    split
    · next hkind =>
      rw [Outcome.ofMessage?, hkind]
      cases hfinal : m.op.response? with
      | none => exact hclient _ _
      | some response =>
        -- the only final response of this kind is that of a search
        rw [search] at hkind
        show OutcomeDetail.ofResponse m.op p.entries p.references none = _
        cases hop : m.op with
        | done kind r =>
          rw [hop] at hkind
          cases kind with
          | search => rfl
          | _ => cases hkind
        | bindResponse r =>
          rw [hop] at hkind
          cases hkind
        | extendedResponse r =>
          rw [hop] at hkind
          cases hkind
        | _ =>
          rw [hop] at hfinal
          cases hfinal
    · exact hclient _ _

/-! ## What is heard -/

namespace Parcel

variable (owner : Nat) (id : Int32) (parcels : List Parcel)

theorem deliveries_signs :
    (Parcel.signs owner id parcels).filterMap Sign.delivery? =
      (parcels.filter (·.accepted)).map (·.delivery) := by
  rw [Parcel.signs, List.filterMap_map]
  exact congrFun List.filterMap_eq_map' _

theorem results_signs : (Parcel.signs owner id parcels).filterMap Sign.result? = [] := by
  rw [Parcel.signs, List.filterMap_map]
  exact List.filterMap_none ..

end Parcel

/-- Nothing but an outcome is heard at an end. -/
theorem Cause.deliveries_signs (cause : Cause) (abandons : Bool) (owner : Nat) (id : Int32)
    (o : Outcome) : (cause.signs abandons owner id o).filterMap Sign.delivery? = [] := by
  cases cause <;> cases abandons <;> rfl

theorem Cause.results_signs (cause : Cause) (abandons : Bool) (owner : Nat) (id : Int32)
    (o : Outcome) : (cause.signs abandons owner id o).filterMap Sign.result? =
      if cause = .abandonment then [] else [o] := by
  cases cause <;> cases abandons <;> rfl

namespace Lived

variable {abandons : Bool} {owner : Nat} {r : Registration L} {parcels : List Parcel}
  {causes : List Cause} {signs : List Sign}

theorem tallies (h : Lived abandons owner (some r) parcels causes signs) : r.Tallies parcels := by
  cases h with
  | live _ tallies => exact tallies
  | ended _ _ _ tallies => exact tallies

/-- What a listener hears of is what was accepted, in the order in which it came. -/
theorem deliveries (h : Lived abandons owner (some r) parcels causes signs) :
    signs.filterMap Sign.delivery? = (parcels.filter (·.accepted)).map (·.delivery) := by
  cases h with
  | live => exact Parcel.deliveries_signs ..
  | ended =>
    rw [List.filterMap_append, Parcel.deliveries_signs, Cause.deliveries_signs, List.append_nil]

/-- The outcome that a listener hears is made of what was counted in the end. -/
theorem results (h : Lived abandons owner (some r) parcels causes signs) :
    ∀ o ∈ signs.filterMap Sign.result?, ∃ verdict now, o = (r.progress now).outcome verdict := by
  intro o ho
  cases h with
  | live =>
    rw [Parcel.results_signs] at ho
    cases ho
  | ended verdict now =>
    rw [List.filterMap_append, Parcel.results_signs, List.nil_append, Cause.results_signs] at ho
    split at ho
    · cases ho
    · exact ⟨verdict, now, List.mem_singleton.1 ho⟩

end Lived

/-! ## What is counted -/

namespace Registration

theorem admits_iff (r : Registration L) (d : Delivery) :
    r.admits d = true ↔ r.kind = .search ∨ d.kind = .intermediate := by
  cases d <;> simp [admits, Delivery.kind]

/-- A search accepts all that comes, so what it heard of is what it counted. -/
theorem Tallies.of_search {r : Registration L} {parcels : List Parcel} (h : r.Tallies parcels)
    (search : r.kind = .search) : parcels.filter (·.accepted) = parcels :=
  List.filter_eq_self.2 fun p hp => by rw [h.accepted p hp, admits_iff, search]; exact .inl rfl

end Registration

namespace Table

/-- What completes a registration is given what was counted. -/
theorem progress_of_complete {t : Table L} {id : Int32} {verdict : Verdict} {p : Progress}
    {owner : Nat} {r : Registration L} (there : t.registrations[owner]? = some r)
    (found : t.find? id = some owner) (h : (t.complete id verdict).1 = some p) :
    p = r.progress t.now := by
  simp only [complete, found, Option.bind_some] at h
  split at h
  · next hfinish =>
    obtain ⟨r', hr', -, rfl, -⟩ := exists_live_of_finish hfinish
    obtain rfl := Option.some.inj (there.symm.trans hr')
    exact (Option.some.inj h).symm
  · cases h

/-- What is refused is told to nobody. It changes nothing if nobody waits for it, and is counted by
the operation that it came for, which is not a search. -/
theorem deliver_refused {t : Table L} {id : Int32} {d : Delivery}
    (h : (t.deliver id d).1 = false) :
    t.find? id = none ∧ t.deliver id d = (false, t, []) ∨
      ∃ owner r, t.find? id = some owner ∧ t.registrations[owner]? = some r ∧
        r.kind ≠ .search ∧ d.kind ≠ .intermediate ∧
        t.deliver id d = (false, t.put owner (r.count d), []) := by
  cases hfound : t.find? id with
  | none => exact .inl ⟨rfl, by simp only [deliver, hfound]⟩
  | some owner =>
    obtain ⟨r, hr, -, -⟩ := pending_of_find? hfound
    have hrefused : r.admits d = false := by
      by_contra hadmits
      rw [Bool.not_eq_false] at hadmits
      simp [deliver, hfound, hr, hadmits] at h
    have hkind : ¬(r.kind = .search ∨ d.kind = .intermediate) := by
      rw [← r.admits_iff, hrefused]
      exact Bool.false_ne_true
    rw [not_or] at hkind
    refine .inr ⟨owner, r, rfl, hr, hkind.1, hkind.2, ?_⟩
    simp only [deliver, hfound, hr, hrefused, Bool.false_eq_true, if_false]

/-- How the numbers of a registration stand to what came for it and what was told of it. -/
structure Accounts (t : Table L) (owner : Nat) (r : Registration L) (parcels : List Parcel)
    (told : List Sign) : Prop where
  /-- All that came is counted, whether or not it was accepted. -/
  entries : r.entries = parcels.countP (·.delivery.kind = .entry)
  references : r.references = parcels.countP (·.delivery.kind = .reference)
  accepted : ∀ p ∈ parcels, p.accepted = true ↔ r.kind = .search ∨ p.delivery.kind = .intermediate
  /-- The listener hears of what was accepted, in the order in which it came. -/
  heard : told.filterMap Sign.delivery? = (parcels.filter (·.accepted)).map (·.delivery)
  /-- The numbers of a search are those of what its listener heard. -/
  exact_of_search : r.kind = .search →
    r.entries = (told.filterMap Sign.delivery?).countP (·.kind = .entry) ∧
      r.references = (told.filterMap Sign.delivery?).countP (·.kind = .reference)
  /-- The numbers are those that whatever completes the operation is given. -/
  completed : ∀ id verdict p, t.find? id = some owner → (t.complete id verdict).1 = some p →
    p = r.progress t.now
  /-- The numbers are those that its outcome tells, if it is a search; otherwise it tells none. -/
  results : ∀ o ∈ told.filterMap Sign.result?,
    (∃ verdict now, o = (r.progress now).outcome verdict) ∧
      ∀ e f found, o.detail = .search e f found →
        r.kind = .search ∧ e = r.entries ∧ f = r.references
  /-- What is refused changes nothing, unless it is counted by the operation that it came for. -/
  refused : ∀ id d, (t.deliver id d).1 = false →
    (t.deliver id d).2 = (t, []) ∨
      t.find? id = some owner ∧ r.kind ≠ .search ∧ d.kind ≠ .intermediate ∧
        (t.deliver id d).2 = (t.put owner (r.count d), []) ∨
      t.find? id ≠ some owner ∧ (t.deliver id d).2.2 = [] ∧
        (t.deliver id d).2.1.registrations[owner]? = some r

/-- In every run of a table, whatever listeners call from within, a registration counts the entries
and references that came for it while it was pending, whether the calls that passed them on were
answered with success or not, and its listener heard of those for which they were. A search refuses
none of them and another operation all of them, so that the numbers of a search are exact, and those
that a response to another operation finds are of what was refused. -/
theorem counts_what_came (scheduler : Scheduler) (abandons : Bool) (ms : List (Move L))
    (owner : Nat) (r : Registration L)
    (there : ((empty scheduler abandons : Table L).run ms).1.registrations[owner]? = some r) :
    Accounts ((empty scheduler abandons).run ms).1 owner r
      ((empty scheduler abandons).parcelsFor owner ms)
      (Sign.about owner ((empty scheduler abandons).run ms).2) := by
  have h := lived scheduler abandons owner ms
  simp only [there] at h
  constructor
  case entries => exact h.tallies.entries
  case references => exact h.tallies.references
  case heard => exact h.deliveries
  case accepted =>
    intro p hp
    rw [h.tallies.accepted p hp]
    exact r.admits_iff _
  case exact_of_search =>
    intro hsearch
    rw [h.deliveries, h.tallies.of_search hsearch, List.countP_map, List.countP_map]
    exact ⟨h.tallies.entries, h.tallies.references⟩
  case completed =>
    intro id verdict p hfound
    exact progress_of_complete there hfound
  case results =>
    intro o ho
    obtain ⟨verdict, now, rfl⟩ := h.results o ho
    exact ⟨⟨verdict, now, rfl⟩, fun e f found => Progress.counts_of_outcome⟩
  case refused =>
    intro id d hfalse
    obtain ⟨-, heq⟩ | ⟨place, r', hfound, hr', hkind, hd, heq⟩ := deliver_refused hfalse
    · exact .inl (by rw [heq])
    · right
      rw [heq]
      by_cases hplace : place = owner
      · subst hplace
        obtain rfl := Option.some.inj (there.symm.trans hr')
        exact .inl ⟨hfound, hkind, hd, rfl⟩
      · refine .inr ⟨?_, rfl, ?_⟩
        · rw [hfound]
          exact fun hsame => hplace (Option.some.inj hsame)
        · exact (List.getElem?_set_ne hplace).trans there

/-- An operation that is no search is given an entry, which is refused and counted. -/
theorem counts_entry_refused :
    let ms : List (Move Unit) :=
      [.call (.register 1 .add none ()), .proceed, .call (.deliver 1 (.entry ⟨"", []⟩)), .proceed]
    let t : Table Unit := empty .manual true
    Accounts (t.run ms).1 0 ⟨1, .add, 0, (), .pending, 1, 0, none⟩
      [⟨0, .entry ⟨"", []⟩, false⟩] [] :=
  counts_what_came .manual true
    [.call (.register 1 .add none ()), .proceed, .call (.deliver 1 (.entry ⟨"", []⟩)), .proceed]
    0 ⟨1, .add, 0, (), .pending, 1, 0, none⟩ rfl

/-- What completes an addition is told of an entry that its listener has not heard of: the call that
passed it on was answered without success, but not without a change. -/
theorem not_exact_after_refusal :
    let before : List (Move Unit) := [.call (.register 1 .add none ()), .proceed]
    let t := ((empty .manual true : Table Unit).run before).1
    let x := t.deliver 1 (.entry ⟨"", []⟩)
    x.1 = false ∧ x.2.2 = [] ∧ t.registrations.map (·.entries) = [0] ∧
      x.2.1.registrations.map (·.entries) = [1] ∧
      (x.2.1.complete 1 (.clientSide ⟨0⟩ "x")).1 = some ⟨1, .add, 1, 0, 0⟩ := by
  decide

end Table
end Ldap
