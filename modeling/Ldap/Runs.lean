/-!
# Actions that may fail and keep a state

`Runs x s a s'` says that an action succeeds with a value and leaves another state. What an action
answers and leaves follows from its parts, one after the other (`run_bind`, `runs_bind_iff`).
-/

namespace Ldap

variable {ε σ α β : Type}

/-- From one state, an action succeeds with a value and leaves another state. -/
def Runs (x : ExceptT ε (StateM σ) α) (s : σ) (a : α) (s' : σ) : Prop :=
  x.run.run s = (.ok a, s')

theorem runs_iff_of_run {x : ExceptT ε (StateM σ) α} {s s' t : σ} {y : Except ε α} {a : α}
    (h : x.run.run s = (y, t)) : Runs x s a s' ↔ y = .ok a ∧ t = s' := by
  unfold Runs
  rw [h]
  exact Iff.of_eq (Prod.mk.injEq ..)

/-- Two actions, one after the other: the second one starts where the first one ends, and is not
made if that fails. -/
theorem run_bind {x : ExceptT ε (StateM σ) α} {f : α → ExceptT ε (StateM σ) β} (s : σ) :
    (x >>= f).run.run s = match x.run.run s with
      | (.ok a, t) => (f a).run.run t
      | (.error e, t) => (.error e, t) := by
  rw [ExceptT.run_bind, StateT.run_bind]
  cases x.run.run s with
  | mk y t => cases y <;> rfl

/-- An action followed by another succeeds exactly if both do, one after the other. -/
theorem runs_bind_iff {x : ExceptT ε (StateM σ) α} {f : α → ExceptT ε (StateM σ) β} {s s' : σ}
    {b : β} : Runs (x >>= f) s b s' ↔ ∃ a t, Runs x s a t ∧ Runs (f a) t b s' := by
  unfold Runs
  rw [run_bind]
  cases hx : x.run.run s with
  | mk r t =>
    cases r with
    | ok a =>
      constructor
      · intro h
        exact ⟨a, t, rfl, h⟩
      · intro h
        rcases h with ⟨_, _, heq, h⟩
        cases heq
        exact h
    | error e =>
      constructor
      · intro h
        cases h
      · intro h
        rcases h with ⟨_, _, heq, -⟩
        cases heq

/-- An action that only gives a result leaves the state alone. -/
theorem runs_pure_iff {s s' : σ} {a b : α} :
    Runs (pure a : ExceptT ε (StateM σ) α) s b s' ↔ a = b ∧ s = s' := by
  show ((Except.ok a, s) : Except ε α × σ) = (.ok b, s') ↔ _
  simp

/-- To look at the state is to go on with it. -/
theorem runs_get_bind_iff {s s' : σ} {f : σ → ExceptT ε (StateM σ) β} {b : β} :
    Runs (get >>= f) s b s' ↔ Runs (f s) s b s' := by
  rfl

theorem run_get_bind {s : σ} {f : σ → ExceptT ε (StateM σ) β} :
    (get >>= f).run.run s = (f s).run.run s := rfl

theorem run_set_bind {s t : σ} {f : PUnit → ExceptT ε (StateM σ) β} :
    (set t >>= f).run.run s = (f ⟨⟩).run.run t := rfl

/-- An action that fails does not run. -/
theorem runs_throw_iff {s s' : σ} {e : ε} {a : α} :
    Runs (throw e : ExceptT ε (StateM σ) α) s a s' ↔ False := by
  show ((Except.error e, s) : Except ε α × σ) = (.ok a, s') ↔ _
  simp

/-- A value that may be an error leaves the state alone. -/
theorem runs_ofExcept_iff {s s' : σ} {x : Except ε α} {a : α} :
    Runs (MonadExcept.ofExcept x : ExceptT ε (StateM σ) α) s a s' ↔ x = .ok a ∧ s = s' := by
  cases x with
  | ok b =>
    apply runs_pure_iff.trans
    rw [Except.ok.injEq]
  | error e =>
    apply runs_throw_iff.trans
    simp

/-- Where every error is passed on in another form, only the error changes. -/
theorem run_tryCatch {x : ExceptT ε (StateM σ) α} {f : ε → ε} (s : σ) :
    (tryCatch x fun e => throw (f e)).run.run s =
      ((x.run.run s).1.mapError f, (x.run.run s).2) := by
  have hrun : (tryCatch x fun e => throw (f e) : ExceptT ε (StateM σ) α).run.run s =
      (x.run >>= fun y => match y with
        | .ok a => pure (.ok a)
        | .error e => pure (.error (f e)) : StateM σ _).run s := rfl
  rw [hrun, StateT.run_bind]
  cases x.run.run s with
  | mk y t => cases y <;> rfl

/-- Passing errors on in another form does not change what runs. -/
theorem runs_tryCatch_iff {x : ExceptT ε (StateM σ) α} {f : ε → ε} {s s' : σ} {a : α} :
    Runs (tryCatch x fun e => throw (f e)) s a s' ↔ Runs x s a s' := by
  have hx : x.run.run s = ((x.run.run s).1, (x.run.run s).2) := rfl
  rw [runs_iff_of_run (run_tryCatch s), runs_iff_of_run hx]
  cases (x.run.run s).1 with
  | ok b => rfl
  | error e => exact ⟨nofun, nofun⟩

end Ldap
