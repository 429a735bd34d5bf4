import Ldap.Proofs.Ber.Agreement
import Ldap.Proofs.Ber.Refusal

/-!
# Why no element is taken off a source

An element is not there as a whole, because the source ends or fails before; or its header is
refused, for the form of its length or for a length over the limit. Only the former leaves a stream
out of step with its elements (`isFraming_iff_of_element`).
-/

namespace Ldap

/-! ## Actions that fail -/

section Fails

variable {ε σ α β : Type}

/-- An action succeeds or fails. -/
theorem runs_or_fails (x : ExceptT ε (StateM σ) α) (s : σ) :
    (∃ a t, Runs x s a t) ∨ ∃ e, Fails x s e := by
  cases h : x.run.run s with
  | mk y t =>
    cases y with
    | ok a => exact .inl ⟨a, t, h⟩
    | error e => exact .inr ⟨e, congrArg Prod.fst h⟩

theorem Fails.unique {x : ExceptT ε (StateM σ) α} {s : σ} {e e' : ε} (h : Fails x s e)
    (h' : Fails x s e') : e = e' :=
  Except.error.inj (h.symm.trans h')

theorem Fails.not_runs {x : ExceptT ε (StateM σ) α} {s t : σ} {e : ε} {a : α} (h : Fails x s e) :
    ¬ Runs x s a t := by
  intro hx
  have hok : (x.run.run s).1 = .ok a := congrArg Prod.fst hx
  cases hok.symm.trans h

/-- An action of two parts fails in the first or in the second. -/
theorem Fails.of_bind {x : ExceptT ε (StateM σ) α} {f : α → ExceptT ε (StateM σ) β} {s : σ} {e : ε}
    (h : Fails (x >>= f) s e) : Fails x s e ∨ ∃ a t, Runs x s a t ∧ Fails (f a) t e := by
  obtain ⟨a, t, hx⟩ | ⟨e', hx⟩ := runs_or_fails x s
  · unfold Fails at h
    rw [run_bind, show x.run.run s = (.ok a, t) from hx] at h
    exact .inr ⟨a, t, hx, h⟩
  · rw [h.unique (hx.bind f)]
    exact .inl hx

theorem not_fails_pure {a : α} {s : σ} {e : ε} : ¬ Fails (pure a : ExceptT ε (StateM σ) α) s e := by
  intro h
  cases h

theorem Throws.of_fails {x : ExceptT ε (StateM σ) α} {p : ε → Prop} (hx : Throws x p) {s : σ}
    {e : ε} (h : Fails x s e) : p e :=
  hx s e _ (Prod.ext h rfl)

/-- An action whose errors are passed on in another form fails with the other form. -/
theorem Fails.tryCatch {x : ExceptT ε (StateM σ) α} {s : σ} {e : ε} (h : Fails x s e) (f : ε → ε) :
    Fails (tryCatch x fun e => MonadExcept.throw (f e)) s (f e) := by
  unfold Fails at h ⊢
  rw [run_tryCatch, h]
  rfl

theorem fails_ofExcept_iff {x : Except ε α} {s : σ} {e : ε} :
    Fails (MonadExcept.ofExcept x : ExceptT ε (StateM σ) α) s e ↔ x = .error e := by
  constructor
  · intro h
    cases x with
    | ok a => exact absurd (runs_ofExcept_iff.2 ⟨rfl, rfl⟩) h.not_runs
    | error e' => rw [h.unique (fails_ofExcept rfl s)]
  · intro h
    exact fails_ofExcept h s

end Fails

namespace Ber

/-! ## Errors -/

/-- The source ended or failed before all the bytes were there that were wanted. -/
def Error.Stops : Error → Prop
  | .endOfInput | .source _ => True
  | _ => False

/-- A stream is out of step with its elements once its source has stopped. -/
theorem Error.Stops.isFraming {e : Error} (h : e.Stops) : e.isFraming = true := by
  cases e <;> first | rfl | exact h.elim

/-- What is wrong with content does not put a stream out of step. -/
theorem Error.IsContent.not_isFraming {e : Error} (h : e.IsContent) : e.isFraming = false := by
  cases e <;> first | rfl | exact h.elim

/-- A reader refuses the header at the front of some bytes: the first byte of the length has no
form that is read, or the length is over the limit. -/
def HeaderRefused (limit : Nat) (bytes : List UInt8) : Prop :=
  ∃ tag first tail, bytes = tag :: first :: tail ∧
    ((∃ e, Length.continuationCount first = .error e) ∨
      ∃ n rest, Length.decode (first :: tail) = .ok (n, rest) ∧ limit < n)

namespace Reader

/-! ## Bytes -/

theorem rawByte_throws_stop : Throws rawByte Error.Stops := by
  refine .bind .get fun r => ?_
  dsimp only
  refine .bind (.set _) fun _ => ?_
  split
  · exact .throw trivial
  · exact .pure _
  · exact .pure _

theorem peek_throws_stop : Throws peek Error.Stops := by
  refine .bind .get fun r => ?_
  split
  · exact .pure _
  · exact .bind rawByte_throws_stop fun _ => .bind (.modify _) fun _ => .pure _

/-- A byte cannot be had only because the source has stopped. -/
theorem nextByte_throws_stop : Throws nextByte Error.Stops := by
  refine .bind .get fun r => ?_
  split
  · exact .bind (.set _) fun _ => .pure _
  · refine .bind rawByte_throws_stop fun b? => ?_
    split
    · exact .bind (.modify _) fun _ => .pure _
    · exact .pure _

theorem fromSource_throws_stop (n : Nat) : Throws (fromSource n) Error.Stops := by
  refine .bind .get fun r => ?_
  dsimp only
  refine .bind (.set _) fun _ => ?_
  split
  · exact .throw trivial
  · exact .throw trivial
  · exact .bind (.modify _) fun _ => .pure _

theorem exactly_throws_stop (n : Nat) : Throws (exactly n) Error.Stops := by
  unfold exactly
  split
  · exact .bind (.pure _) fun _ => .bind (fromSource_throws_stop _) fun _ => .pure _
  · exact .bind (.bind .get fun _ => .bind (.set _) fun _ => .pure _) fun _ =>
      .bind (fromSource_throws_stop _) fun _ => .pure _

/-! ## Headers -/

/-- A header that is not taken is not there as a whole, or it is refused. -/
theorem isFraming_or_refused_of_header {r : Reader} {e : Error} (h : Fails header r e) :
    e.isFraming = true ∨ HeaderRefused r.limit r.rest := by
  unfold header at h
  rcases h.of_bind with h | ⟨tag?, r₁, htag, h⟩
  · exact .inl (nextByte_throws_stop.of_fails h).isFraming
  cases tag? with
  | none => exact absurd h not_fails_pure
  | some tag =>
    rcases h.of_bind with h | ⟨first?, r₂, hfirst, h⟩
    · exact .inl (nextByte_throws_stop.of_fails h).isFraming
    cases first? with
    | none =>
      obtain rfl := h.unique (fails_throw _ _)
      exact .inl rfl
    | some first =>
      obtain ⟨htook₁, -⟩ := took_of_nextByte htag
      obtain ⟨htook₂, hheld₂⟩ := took_of_nextByte hfirst
      have hrest : r.rest = tag :: first :: r₂.rest := (htook₁.trans htook₂).rest
      refine or_iff_not_imp_left.2 fun hframing => ⟨tag, first, r₂.rest, hrest, ?_⟩
      rcases h.of_bind with h | ⟨count, _, hruns, h⟩
      · exact .inl ⟨e, fails_ofExcept_iff.1 h⟩
      obtain ⟨hcount, rfl⟩ := runs_ofExcept_iff.1 hruns
      rcases h.of_bind with h | ⟨bytes, r₃, hbytes, h⟩
      · exact absurd ((exactly_throws_stop _).of_fails h).isFraming hframing
      -- the length is there as a whole, so that it must be over the limit
      obtain ⟨htook₃, -, hlen⟩ := took_of_exactly hheld₂ hbytes
      have hlength : Length.decode (first :: r₂.rest) =
          .ok (Length.assemble first bytes, r₃.rest) := by
        rw [htook₃.rest]
        exact Length.decode_cons_eq_ok_iff.2 ⟨count, hcount, by simp [hlen],
          by rw [List.take_left' hlen], by rw [List.drop_left' hlen]⟩
      refine .inr ⟨_, _, hlength, ?_⟩
      by_contra hle
      rw [← (htook₁.trans (htook₂.trans htook₃)).limit] at hle
      exact h.not_runs (runs_bind_iff.2 ⟨r₃, r₃, rfl, by
        dsimp only
        rw [if_neg hle]
        exact runs_pure_iff.2 ⟨rfl, rfl⟩⟩)

/-- A header that is refused is no reason to give a stream up. -/
theorem fails_header_of_refused {r : Reader} (h : HeaderRefused r.limit r.rest) :
    ∃ e, Fails header r e ∧ e.isFraming = false := by
  obtain ⟨tag, first, tail, hrest, ⟨e, hcount⟩ | ⟨n, rest, hlength, hlt⟩⟩ := h
  · obtain ⟨r₁, htag⟩ := exists_nextByte hrest
    obtain ⟨htook₁, -⟩ := took_of_nextByte htag
    have hrest₁ : r₁.rest = first :: tail := by
      have heq := htook₁.rest
      rw [hrest] at heq
      exact (List.cons.inj heq).2.symm
    obtain ⟨r₂, hfirst⟩ := exists_nextByte hrest₁
    have hcontent := (Length.continuationCount_refuses first).of_eq_error hcount
    exact ⟨e, htag.bind_fails (hfirst.bind_fails ((fails_ofExcept hcount r₂).bind _)),
      hcontent.not_isFraming⟩
  · exact ⟨_, fails_header_of_limit_lt hrest hlength hlt, rfl⟩

/-! ## Elements -/

/-- When a reader does not get an element, the stream is out of step unless the header was
refused. -/
theorem isFraming_iff_of_element {r : Reader} {e : Error} (h : Fails element r e) :
    e.isFraming = true ↔ ¬ HeaderRefused r.limit r.rest := by
  constructor
  · intro hframing hrefused
    obtain ⟨e', hheader, hkept⟩ := fails_header_of_refused hrefused
    obtain rfl : e = e' := h.unique ((hheader.bind _).bind _)
    rw [hframing] at hkept
    cases hkept
  · intro hrefused
    rcases h.of_bind with h | ⟨e?, r₁, -, h⟩
    · rcases h.of_bind with h | ⟨x?, r₁, -, h⟩
      · exact (isFraming_or_refused_of_header h).resolve_right hrefused
      cases x? with
      | none => exact absurd h not_fails_pure
      | some x =>
        rcases h.of_bind with h | ⟨content, r₂, -, h⟩
        · exact ((exactly_throws_stop _).of_fails h).isFraming
        · exact absurd h not_fails_pure
    · cases e? with
      | none =>
        obtain rfl := h.unique (fails_throw _ _)
        rfl
      | some e' => exact absurd h not_fails_pure

/-- What becomes of an element whose header is there: it is refused if it is over the limit, missed
if its content is not all there, and taken otherwise. -/
theorem element_of_header {r : Reader} {tag : Tag} {body tail : List UInt8} {n : Nat}
    (hrest : r.rest = tag :: body) (hlength : Length.decode body = .ok (n, tail)) :
    (r.limit < n → ∃ e, Fails element r e ∧ e.isFraming = false) ∧
    (n ≤ r.limit → tail.length < n → ∃ e, Fails element r e ∧ e.isFraming = true) ∧
    (n ≤ r.limit → n ≤ tail.length → ∃ r', Runs element r ⟨tag, tail.take n⟩ r' ∧
      r'.rest = tail.drop n) := by
  refine ⟨?refused, ?missed, ?taken⟩
  case refused =>
    intro hlt
    exact ⟨_, ((fails_header_of_limit_lt hrest hlength hlt).bind _).bind _, rfl⟩
  case missed =>
    intro hle hlt
    obtain ⟨r₁, hheader, rfl⟩ := exists_header hrest hlength hle
    obtain ⟨-, -, hheld, -⟩ := took_of_header hheader
    obtain ⟨content, r₂, hcontent⟩ | ⟨e, hcontent⟩ := runs_or_fails (exactly n) r₁
    · obtain ⟨htook, -, hlen⟩ := took_of_exactly hheld hcontent
      rw [htook.rest, List.length_append, hlen] at hlt
      omega
    · exact ⟨e, (hheader.bind_fails (hcontent.bind _)).bind _,
        ((exactly_throws_stop n).of_fails hcontent).isFraming⟩
  case taken =>
    intro hle hthere
    have hparse : Element.parse r.rest = .ok (⟨tag, tail.take n⟩, tail.drop n) := by
      rw [hrest]
      exact Element.parse_cons_eq_ok_iff.2 ⟨n, tail, hlength, hthere, rfl, rfl⟩
    obtain ⟨r', helement⟩ := exists_element hparse (by simpa [hthere] using hle)
    obtain ⟨-, -, -, hparse', -⟩ := took_of_element helement
    rw [hparse] at hparse'
    exact ⟨r', helement, (congrArg Prod.snd (Except.ok.inj hparse')).symm⟩

end Reader
end Ber
end Ldap
