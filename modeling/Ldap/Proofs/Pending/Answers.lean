import Ldap.Proofs.Pending.Life

/-!
# What an outcome answers

An outcome has an identifier, a kind and a detail, and there are two ways in which it is made: from
what is known about an operation, or from the final response that came for it. Either way it answers
the request that was registered: it has the identifier and the kind of the registration, and the
detail that goes with the kind (`Progress.answers_outcome`), as long as a response is given to the
operation that it names. `Table.Answers` says so of all outcomes that signs of the table tell of.
-/

namespace Ldap

variable {L : Type}

/-! ## Outcomes -/

/-- A detail is the one that outcomes of a kind of operation have. -/
inductive OutcomeDetail.Suits : OutcomeDetail → OperationKind → Prop
  | search (entries references : Nat) (found : Option Found) :
      Suits (.search entries references found) .search
  | compare : Suits .compare .compare
  | extended (oid : Option String) (value : Option (List UInt8)) :
      Suits (.extended oid value) .extended
  | bind (saslCredentials : Option (List UInt8)) : Suits (.bind saslCredentials) .bind
  | plain {kind : OperationKind}
      (simple : kind ∉ [.search, .compare, .extended, .bind]) : Suits .plain kind

/-- An outcome answers a request that was made under an identifier and is of a kind. -/
structure Outcome.Answers (o : Outcome) (id : Int32) (kind : OperationKind) : Prop where
  id_eq : o.id = id
  kind_eq : o.kind = kind
  detail : o.detail.Suits kind

/-- A verdict is given on the operation with an identifier: a response names it. -/
def Verdict.Names (id : Int32) : Verdict → Prop
  | .response m => m.id = id
  | .clientSide .. | .timeout _ => True

/-- An outcome that the client makes up has the form that the kind of the operation asks for. -/
theorem OutcomeDetail.suits_ofKind (kind : OperationKind) (entries references : Nat) :
    (ofKind kind entries references).Suits kind := by
  cases kind <;> constructor <;> decide

/-- A final response to a kind of operation makes the detail that goes with it. -/
theorem OutcomeDetail.suits_ofResponse {op : Operation} {kind : OperationKind} {response : Response}
    (final : op.response? = some response) (op_kind : op.kind? = some kind)
    (entries references : Nat) (found : Option Found) :
    (ofResponse op entries references found).Suits kind := by
  cases op with
  | bindResponse r =>
    cases op_kind
    exact .bind _
  | extendedResponse r =>
    cases op_kind
    exact .extended _ _
  | done doneKind r =>
    cases op_kind
    cases doneKind with
    | search => cases found <;> exact .search _ _ _
    | compare => exact .compare
    | _ => exact .plain (by decide)
  | _ => cases final

/-- So a failure on the client's side answers the request like a response would. -/
theorem Progress.answers_clientSide (p : Progress) (code : ResultCode) (diagnostic : String) :
    (p.clientSide code diagnostic).Answers p.id p.kind :=
  ⟨rfl, rfl, OutcomeDetail.suits_ofKind p.kind p.entries p.references⟩

/-- Whatever ends an operation, its outcome answers the request. -/
theorem Progress.answers_outcome {p : Progress} {verdict : Verdict} (h : verdict.Names p.id) :
    (p.outcome verdict).Answers p.id p.kind := by
  cases verdict with
  | clientSide code diagnostic => exact p.answers_clientSide _ _
  | timeout abandoned => exact p.answers_clientSide _ _
  | response m =>
    rw [outcome]
    split
    · next hkind =>
      rw [Outcome.ofMessage?, hkind]
      cases hfinal : m.op.response? with
      | none => exact p.answers_clientSide _ _
      | some response =>
        exact ⟨h, rfl, OutcomeDetail.suits_ofResponse hfinal hkind p.entries p.references none⟩
    · exact p.answers_clientSide _ _

/-! ## Registrations -/

/-- What a registration was made for: its identifier and its kind, which is known. -/
def Registration.purpose (r : Registration L) : Int32 × Option OperationKind :=
  (r.id, some r.kind)

/-- Changes of which none registers leave registrations what they were made for. -/
theorem Changes.purpose_eq {rs rs' : List (Registration L)} {deeds : List Deed}
    (h : Changes rs deeds rs') (hnone : ∀ owner, .registered owner ∉ deeds) :
    rs'.map Registration.purpose = rs.map Registration.purpose := by
  induction h with
  | refl => rfl
  | step hc _ ih =>
    rw [ih fun owner hmem => hnone owner (List.mem_append_right _ hmem)]
    cases hc with
    | register => exact absurd (List.mem_append_left _ List.mem_cons_self) (hnone _)
    | hear d there => exact map_set_of_getElem? there (by cases d <;> rfl)
    | refuse d there => exact map_set_of_getElem? there (by cases d <;> rfl)
    | finish _ _ _ there => exact map_set_of_getElem? there rfl
    | abandon there => exact map_set_of_getElem? there rfl
    | adjust _ _ there => exact map_set_of_getElem? there rfl

/-- Changes in which nothing but deliveries is told leave registrations of the stage that they
were. -/
theorem Changes.stage_eq {rs rs' : List (Registration L)} {deeds : List Deed}
    (h : Changes rs deeds rs') (told : ∀ d ∈ deeds, ∃ owner x, d = .heard owner (.delivery x)) :
    rs'.map (·.stage) = rs.map (·.stage) := by
  induction h with
  | refl => rfl
  | step hc _ ih =>
    rw [ih fun d hd => told d (List.mem_append_right _ hd)]
    replace told d hd := told d (List.mem_append_left _ hd)
    cases hc with
    | register | finish | abandon =>
      obtain ⟨owner, x, heq⟩ := told _ List.mem_cons_self
      cases heq
    | hear d there => exact map_set_of_getElem? there (by cases d <;> rfl)
    | refuse d there => exact map_set_of_getElem? there (by cases d <;> rfl)
    | adjust _ _ there => exact map_set_of_getElem? there rfl

namespace Table

/-- What the registrations of a table were made for, in their order. -/
def purposes (t : Table L) : List (Int32 × Option OperationKind) :=
  t.registrations.map Registration.purpose

theorem Advances.purposes_eq {t t' : Table L} {signs : List Sign}
    (h : t.Advances (Deed.ofSigns signs) t') : t'.purposes = t.purposes :=
  h.changes.purpose_eq fun owner hmem => by
    obtain ⟨s, -, hs⟩ := List.mem_filterMap.1 hmem
    cases s <;> cases hs

/-! ## What signs tell of -/

/-- The outcomes that signs tell of answer the requests that were registered. -/
def Answers (t : Table L) (signs : List Sign) : Prop :=
  ∀ owner id o, .heard owner id (.result o) ∈ signs →
    ∃ kind, t.purposes[owner]? = some (id, some kind) ∧ o.Answers id kind

theorem answers_nil (t : Table L) : t.Answers [] :=
  fun _ _ _ hmem => absurd hmem List.not_mem_nil

/-- An end answers the one request that it ends, if the verdict names this request. -/
theorem answers_finish {t t' : Table L} {owner : Nat} {byTimer : Bool} {verdict : Verdict}
    {p : Progress} {signs : List Sign}
    (h : t.finish owner byTimer verdict = some (p, t', signs))
    (names : ∀ r, t.registrations[owner]? = some r → verdict.Names r.id) : t.Answers signs := by
  obtain ⟨r, hr, -, -, -, rfl⟩ := exists_live_of_finish h
  intro place id o hmem
  rcases List.mem_append.1 hmem with hmem | hmem
  · split at hmem
    · cases List.mem_singleton.1 hmem
    · cases hmem
  · cases List.mem_singleton.1 hmem
    have hpurpose : t.purposes[owner]? = some r.purpose := by
      rw [purposes, List.getElem?_map, hr, Option.map_some]
    exact ⟨r.kind, hpurpose, Progress.answers_outcome (p := r.progress t.now) (names r hr)⟩

theorem answers_expire (t : Table L) (owner : Nat) : t.Answers (t.expire owner).2.2 := by
  unfold expire
  split
  · next h => exact answers_finish h fun _ _ => trivial
  · exact answers_nil t

/-- A response answers what its identifier leads to. -/
theorem answers_complete (t : Table L) {id : Int32} {verdict : Verdict} (names : verdict.Names id) :
    t.Answers (t.complete id verdict).2.2 := by
  unfold complete
  split
  · next h =>
    obtain ⟨owner, howner, hfinish⟩ := Option.bind_eq_some_iff.1 h
    obtain ⟨r, hr, -, rfl⟩ := pending_of_find? howner
    refine answers_finish hfinish fun r' hr' => ?_
    obtain rfl := Option.some.inj (hr.symm.trans hr')
    exact names
  · exact answers_nil t

theorem answers_ring (t : Table L) (owner : Nat) : t.Answers (t.ring owner).2.2 := by
  unfold ring
  split
  · exact answers_nil t
  next r hr =>
  split
  · exact answers_nil t
  next timer _ =>
  split
  · exact answers_nil t
  · -- the timer is marked first, which leaves the registration what it was made for
    have hchange : Changes t.registrations [] (t.registrations.set owner _) :=
      .single (.adjust r.listener (some timer.fire) hr)
    have hmarked : (t.put owner { r with timer := some timer.fire }).purposes = t.purposes :=
      hchange.purpose_eq fun _ => List.not_mem_nil
    have hexpire := answers_expire (t.put owner { r with timer := some timer.fire }) owner
    rwa [Answers, hmarked] at hexpire

theorem answers_fire (t : Table L) (timer : Nat) : t.Answers (t.fire timer).2.2 := by
  unfold fire
  split
  · exact answers_ring t _
  · exact answers_nil t

/-- What comes for an operation is no outcome. -/
theorem result_not_mem_deliver (t : Table L) (id : Int32) (d : Delivery) (owner : Nat) (id' : Int32)
    (o : Outcome) : .heard owner id' (.result o) ∉ (t.deliver id d).2.2 := by
  unfold deliver
  split
  · exact List.not_mem_nil
  split
  · exact List.not_mem_nil
  split <;> simp

/-- A delivery ends nothing. -/
theorem stages_deliver (t : Table L) (id : Int32) (d : Delivery) :
    (t.deliver id d).2.1.registrations.map (·.stage) = t.registrations.map (·.stage) := by
  refine (t.evolves_deliver id d).changes.stage_eq fun deed hdeed => ?_
  obtain ⟨s, hs, hdeed⟩ := List.mem_filterMap.1 hdeed
  cases s with
  | heard owner id' event =>
    cases event with
    | delivery x => exact ⟨owner, x, (Option.some.inj hdeed).symm⟩
    | result o => exact absurd hs (t.result_not_mem_deliver id d owner id' o)
  | abandoning => cases hdeed
  | answered => cases hdeed

theorem answers_deliver (t : Table L) (id : Int32) (d : Delivery) :
    t.Answers (t.deliver id d).2.2 :=
  fun owner id' o hmem => absurd hmem (t.result_not_mem_deliver id d owner id' o)

theorem answers_perform (t : Table L) (a : Activity) : t.Answers (t.perform a).2 := by
  cases a with
  | hearing _ => exact answers_nil t
  | answering reply => exact fun _ _ _ hmem => by cases List.mem_singleton.1 hmem
  | ringing =>
    simp only [perform]
    split
    · exact answers_nil t
    · exact answers_ring t _
  | failing owners code diagnostic finished =>
    cases owners with
    | nil => exact answers_nil t
    | cons owner owners =>
      simp only [perform]
      split
      · next h => exact answers_finish h fun _ _ => trivial
      · exact answers_nil t

/-- What is in progress tells of outcomes that answer the requests. -/
theorem answers_proceed (t : Table L) : t.Answers t.proceed.2 := by
  unfold proceed
  split
  · exact answers_nil t
  · next a agenda _ => exact answers_perform { t with agenda } a

/-! ## What requests were made for -/

/-- What a registration is for does not change when it is drained. -/
theorem purposes_failAll (t : Table L) (code : ResultCode) (diagnostic : String) :
    (t.failAll code diagnostic).purposes = t.purposes := by
  rw [purposes, failAll, List.map_map]
  refine List.map_congr_left fun r _ => ?_
  simp only [Function.comp_apply, Registration.drain]
  split <;> rfl

/-- Every call but those that register leaves requests what they were made for. -/
theorem purposes_call (t : Table L) {call : Call L} (hcall : t.deedsOfCall call = []) :
    (t.call call).1.purposes = t.purposes := by
  rcases t.advances_call call with ⟨code, diagnostic, rfl⟩ | hadvances
  · exact purposes_failAll t code diagnostic
  · rw [hcall, List.nil_append] at hadvances
    exact hadvances.purposes_eq

theorem purposes_abandon (t : Table L) (id : Int32) : (t.abandon id).2.purposes = t.purposes :=
  (t.evolves_abandon id).changes.purpose_eq (t.registered_not_mem_deedsOfAbandon id)

theorem purposes_rearrange (t : Table L) (owners : List Nat) :
    (t.rearrange owners).purposes = t.purposes := by
  unfold rearrange
  split
  · split <;> rfl
  · rfl

/-- Nor does it when its listener is told of the end. -/
theorem purposes_proceed (t : Table L) : t.proceed.1.purposes = t.purposes := by
  unfold proceed
  split
  · rfl
  · next a agenda _ => exact (advances_perform { t with agenda } a).purposes_eq

/-- A request that is registered comes last. -/
theorem purposes_register {t t' : Table L} {id : Int32} {kind : OperationKind}
    {timeout : Option Nat} {listener : L} {signs : List Sign}
    (h : t.register id kind timeout listener = .ok (t', signs)) :
    t'.purposes = t.purposes ++ [(id, some kind)] := by
  obtain ⟨r, rfl, rfl, -, -, -, -, hcases⟩ := register_cases h
  have hadded : ({ t with registrations := t.registrations ++ [r] } : Table L).purposes =
      t.purposes ++ [r.purpose] := List.map_append
  rcases hcases with ⟨rfl, -⟩ | ⟨-, hexpire⟩
  · exact hadded
  · have hexpires := (evolves_expire { t with registrations := t.registrations ++ [r] }
      t.registrations.length).advances.purposes_eq
    rw [hexpire] at hexpires
    exact hexpires.trans hadded

end Table
end Ldap
