import Ldap.Proofs.Ber.Reader

/-!
# A reader and a parser on the same bytes

A reader takes an element off its source piece by piece, a parser takes it off the front of bytes
that are all there. Both find the same element, or the same fault in its length, however the source
cuts its bytes and however often it is interrupted (`element?_agrees_with_parse`). They differ in
two things: a reader accepts no content over its limit, and where a parser tells how many bytes are
missing, a reader only tells that the input ended.
-/

namespace Ldap

/-! ## Actions that fail -/

section Fails

variable {ε σ α β : Type}

/-- From one state, an action fails with an error. -/
def Fails (x : ExceptT ε (StateM σ) α) (s : σ) (e : ε) : Prop :=
  (x.run.run s).1 = .error e

instance [DecidableEq ε] [DecidableEq α] (x : ExceptT ε (StateM σ) α) (s : σ) (e : ε) :
    Decidable (Fails x s e) :=
  inferInstanceAs (Decidable ((x.run.run s).1 = .error e))

theorem fails_throw (e : ε) (s : σ) : Fails (throw e : ExceptT ε (StateM σ) α) s e := rfl

theorem fails_ofExcept {x : Except ε α} {e : ε} (h : x = .error e) (s : σ) :
    Fails (MonadExcept.ofExcept x : ExceptT ε (StateM σ) α) s e := by
  subst h
  rfl

/-- An action fails if the first part of it does. -/
theorem Fails.bind {x : ExceptT ε (StateM σ) α} {s : σ} {e : ε} (h : Fails x s e)
    (f : α → ExceptT ε (StateM σ) β) : Fails (x >>= f) s e := by
  unfold Fails at h ⊢
  rw [run_bind]
  cases hx : x.run.run s with
  | mk y t =>
    rw [hx] at h
    obtain rfl : y = .error e := h
    rfl

/-- An action fails if the first part of it succeeds and the rest then fails. -/
theorem Runs.bind_fails {x : ExceptT ε (StateM σ) α} {f : α → ExceptT ε (StateM σ) β} {s t : σ}
    {a : α} {e : ε} (hx : Runs x s a t) (hf : Fails (f a) t e) : Fails (x >>= f) s e := by
  unfold Fails at hf ⊢
  rw [run_bind, show x.run.run s = (.ok a, t) from hx]
  exact hf

end Fails

namespace Ber

/-! ## Lengths that are refused -/

/-- An error as somebody tells it who only knows that the input ended, not how much is missing. -/
def Error.onStream : Error → Error
  | .truncated .. => .endOfInput
  | e => e

theorem Length.onStream_of_continuationCount {first : UInt8} {e : Error}
    (h : continuationCount first = .error e) : e.onStream = e := by
  unfold continuationCount at h
  split at h
  · cases h
  dsimp only at h
  split at h
  · cases h
    rfl
  split at h
  · cases h
    rfl
  · cases h

/-- A length is refused for its first byte, or because bytes are missing that this one counts. -/
theorem Length.decode_cons_eq_error {first : UInt8} {bytes : List UInt8} {e : Error}
    (h : decode (first :: bytes) = .error e) :
    continuationCount first = .error e ∨
      ∃ count, continuationCount first = .ok count ∧ bytes.length < count ∧
        e.onStream = .endOfInput := by
  simp only [decode, bind, Except.bind] at h
  cases hcount : continuationCount first with
  | error fault =>
    simp only [hcount, Except.error.injEq] at h
    exact .inl (congrArg Except.error h)
  | ok count =>
    simp only [hcount] at h
    split at h
    · next hlen =>
      cases h
      exact .inr ⟨count, rfl, hlen, rfl⟩
    · cases h

/-- An element is refused for its length, or because its content is not all there. -/
theorem Element.parse_cons_eq_error {tag : Tag} {body : List UInt8} {e : Error}
    (h : parse (tag :: body) = .error e) :
    (∃ fault, Length.decode body = .error fault ∧ fault.onStream = e.onStream) ∨
      ∃ n tail, Length.decode body = .ok (n, tail) ∧ tail.length < n ∧
        e.onStream = .endOfInput := by
  simp only [parse] at h
  split at h
  · next hlength =>
    cases h
    exact .inl ⟨_, hlength, rfl⟩
  · next hlength =>
    cases h
    exact .inl ⟨_, hlength, rfl⟩
  · next n tail hlength =>
    split at h
    · next hlen =>
      cases h
      exact .inr ⟨n, tail, hlength, hlen, rfl⟩
    · cases h

namespace Reader

/-! ## The end of the input -/

/-- To take a byte off the source does not change how it ends. -/
theorem ending_of_nextByte {r r' : Reader} {b : UInt8} (h : Runs nextByte r (some b) r') :
    r'.source.ending = r.source.ending := by
  obtain ⟨s, hrun, -, -, hending⟩ := run_nextByte r
  obtain ⟨-, rfl⟩ := (runs_iff_of_run hrun).1 h
  exact hending

theorem ending_of_exactly {r r' : Reader} {n : Nat} {bytes : List UInt8} (hheld : r.held = none)
    (h : Runs (exactly n) r bytes r') : r'.source.ending = r.source.ending := by
  rcases runs_fromSource_iff.1 ((run_exactly hheld n).symm.trans h) with ⟨-, -, rfl⟩
  exact (r.source.fill_eq n).2.2

/-- Where no byte is left and the source ends well, there is no next byte. -/
theorem exists_nextByte_none {r : Reader} (hend : r.source.ending = .endOfInput)
    (hrest : r.rest = []) : ∃ r', Runs nextByte r none r' := by
  obtain ⟨s, hrun, -⟩ := run_nextByte r
  rw [hrest, hend] at hrun
  exact ⟨s, hrun⟩

/-- Bytes that are not all there before the source ends are not taken. -/
theorem fails_exactly {r : Reader} {n : Nat} (hend : r.source.ending = .endOfInput)
    (hheld : r.held = none) (hn : r.rest.length < n) : Fails (exactly n) r .endOfInput := by
  rw [rest_of_held_none hheld] at hn
  unfold Fails
  rw [run_exactly hheld, run_fromSource, if_neg (by omega), hend]
  rfl

/-! ## Headers -/

/-- A reader objects to the lengths that a parser objects to. -/
theorem fails_header_of_decode {r : Reader} {tag : Tag} {body : List UInt8} {e : Error}
    (hend : r.source.ending = .endOfInput) (hrest : r.rest = tag :: body)
    (h : Length.decode body = .error e) : Fails header r e.onStream := by
  obtain ⟨r₁, htag⟩ := exists_nextByte hrest
  obtain ⟨htook₁, -⟩ := took_of_nextByte htag
  have hend₁ : r₁.source.ending = .endOfInput := (ending_of_nextByte htag).trans hend
  obtain rfl : body = r₁.rest := by
    have heq := htook₁.rest
    rw [hrest] at heq
    exact (List.cons.inj heq).2
  refine htag.bind_fails ?_
  cases hbody : r₁.rest with
  | nil =>
    -- the input ends behind the tag
    rw [hbody] at h
    cases h
    obtain ⟨r₂, hnone⟩ := exists_nextByte_none hend₁ hbody
    exact hnone.bind_fails (fails_throw _ _)
  | cons first bytes =>
    rw [hbody] at h
    obtain ⟨r₂, hfirst⟩ := exists_nextByte hbody
    refine hfirst.bind_fails ?_
    rcases Length.decode_cons_eq_error h with hcount | ⟨count, hcount, hlen, heq⟩
    · rw [Length.onStream_of_continuationCount hcount]
      exact (fails_ofExcept hcount r₂).bind _
    · -- the input ends inside the length
      obtain ⟨htook₂, hheld₂⟩ := took_of_nextByte hfirst
      have hrest₂ : r₂.rest = bytes := by
        have hsplit := htook₂.rest
        rw [hbody] at hsplit
        exact (List.cons.inj hsplit).2.symm
      rw [heq]
      exact Runs.bind_fails (runs_ofExcept_iff.2 ⟨hcount, rfl⟩)
        ((fails_exactly ((ending_of_nextByte hfirst).trans hend₁) hheld₂ (by rwa [hrest₂])).bind _)

/-- A length that is there as a whole is refused if it is over the limit, whatever follows it. -/
theorem fails_header_of_limit_lt {r : Reader} {tag : Tag} {body tail : List UInt8} {n : Nat}
    (hrest : r.rest = tag :: body) (h : Length.decode body = .ok (n, tail)) (hlt : r.limit < n) :
    Fails header r (.elementTooLarge n r.limit) := by
  obtain ⟨r₁, first, r₂, count, bytes, r₃, htag, hfirst, hcount, hbytes, rfl, -, hlimit⟩ :=
    exists_spelled hrest h
  refine htag.bind_fails (hfirst.bind_fails (Runs.bind_fails (runs_ofExcept_iff.2 ⟨hcount, rfl⟩)
    (hbytes.bind_fails (Runs.bind_fails (a := r₃) (t := r₃) rfl ?_))))
  dsimp only
  rw [hlimit, if_pos hlt]
  exact (fails_throw _ _).bind _

/-! ## Elements -/

theorem ending_of_header {r r' : Reader} {tag : Tag} {n : Nat}
    (h : Runs header r (some (tag, n)) r') : r'.source.ending = r.source.ending := by
  obtain ⟨r₁, first, r₂, count, bytes, htag, hfirst, -, hbytes, -⟩ := runs_header_iff.1 h
  obtain ⟨-, hheld⟩ := took_of_nextByte hfirst
  rw [ending_of_exactly hheld hbytes, ending_of_nextByte hfirst, ending_of_nextByte htag]

/-- An element that a parser refuses is refused by a reader, too, which tells the same unless bytes
are missing. -/
theorem fails_element?_of_parse {r : Reader} {e : Error} (hend : r.source.ending = .endOfInput)
    (hne : r.rest ≠ [])
    (hle : ∀ tag body n tail, r.rest = tag :: body → Length.decode body = .ok (n, tail) →
      n ≤ r.limit)
    (h : Element.parse r.rest = .error e) : Fails element? r e.onStream := by
  cases hrest : r.rest with
  | nil => exact absurd hrest hne
  | cons tag body =>
    rw [hrest] at h
    rcases Element.parse_cons_eq_error h with ⟨fault, hlength, heq⟩ | ⟨n, tail, hlength, hn, heq⟩
    · rw [← heq]
      exact (fails_header_of_decode hend hrest hlength).bind _
    · -- the header is there, but not all of the content
      obtain ⟨r₁, hheader, rfl⟩ := exists_header hrest hlength (hle tag body n tail hrest hlength)
      obtain ⟨-, -, hheld, -⟩ := took_of_header hheader
      rw [heq]
      exact hheader.bind_fails
        ((fails_exactly ((ending_of_header hheader).trans hend) hheld hn).bind _)

/-- Where no byte is left and the source ends well, there is no next element. -/
theorem exists_element?_none {r : Reader} (hend : r.source.ending = .endOfInput)
    (hrest : r.rest = []) : ∃ r', Runs element? r none r' := by
  obtain ⟨r', hnone⟩ := exists_nextByte_none hend hrest
  have hheader : Runs header r none r' :=
    runs_bind_iff.2 ⟨none, r', hnone, runs_pure_iff.2 ⟨rfl, rfl⟩⟩
  exact ⟨r', runs_bind_iff.2 ⟨none, r', hheader, runs_pure_iff.2 ⟨rfl, rfl⟩⟩⟩

/-- A reader that needs an element to be there takes the same one. -/
theorem runs_element_iff {r r' : Reader} {e : Element} :
    Runs element r e r' ↔ Runs element? r (some e) r' := by
  unfold element
  constructor
  · intro h
    rcases runs_bind_iff.1 h with ⟨e?, r₁, he, h⟩
    cases e? with
    | none => cases runs_throw_iff.1 h
    | some e' =>
      rcases runs_pure_iff.1 h with ⟨rfl, rfl⟩
      exact he
  · intro h
    exact runs_bind_iff.2 ⟨some e, r', h, runs_pure_iff.2 ⟨rfl, rfl⟩⟩

/-- On the same bytes, in whatever pieces they come and with whatever interruptions, a reader finds
what a parser finds. It takes the element that the parser finds, and counts its bytes, unless the
length is over the limit, which it refuses as soon as the length is there; it refuses the same forms
of length; it finds nothing where there are no bytes; and of an element that is not all there it
tells that the input ended. -/
theorem element?_agrees_with_parse (pieces : List Piece) (held : Option UInt8)
    (total limit : Nat) :
    let r : Reader := ⟨⟨pieces, .endOfInput⟩, held, total, limit⟩
    (∀ e tail, Element.parse r.rest = .ok (e, tail) → e.content.length ≤ limit →
      ∃ r', Runs element? r (some e) r' ∧ r'.rest = tail ∧
        r'.total = total + (r.rest.length - tail.length)) ∧
    (∀ tag body n tail, r.rest = tag :: body → Length.decode body = .ok (n, tail) → limit < n →
      Fails element? r (.elementTooLarge n limit)) ∧
    (∀ e, e = .indefiniteLength ∨ (∃ count, e = .lengthTooLarge count) →
      Element.parse r.rest = .error e → Fails element? r e) ∧
    (r.rest = [] → ∃ r', Runs element? r none r') ∧
    (∀ needed available, Element.parse r.rest = .error (.truncated needed available) →
      r.rest ≠ [] →
      (∀ tag body n tail, r.rest = tag :: body → Length.decode body = .ok (n, tail) → n ≤ limit) →
      Fails element? r .endOfInput) := by
  intro r
  refine ⟨?found, ?large, ?form, exists_element?_none rfl, ?short⟩
  case found =>
    intro e tail hparse hle
    obtain ⟨r', helement⟩ := exists_element hparse hle
    obtain ⟨head, htook, -, hparse', -⟩ := took_of_element helement
    rw [hparse] at hparse'
    cases hparse'
    have hlength := htook.length_eq
    have hhead := congrArg List.length htook.rest
    rw [List.length_append] at hhead
    exact ⟨r', runs_element_iff.1 helement, rfl, by change r'.total = r.total + _; omega⟩
  case large =>
    intro tag body n tail hrest hlength hlt
    exact (fails_header_of_limit_lt hrest hlength hlt).bind _
  case form =>
    intro e hform hparse
    have hsame : e.onStream = e := by rcases hform with rfl | ⟨count, rfl⟩ <;> rfl
    have hthere : e ≠ .endOfInput := by rcases hform with rfl | ⟨count, rfl⟩ <;> simp
    have hne : r.rest ≠ [] := by
      intro hnil
      rw [hnil] at hparse
      cases hparse
      cases hsame
    rw [← hsame]
    refine fails_element?_of_parse rfl hne (fun tag body n tail hrest hlength => ?_) hparse
    -- with a length that is accepted, only content could be missing
    rw [hrest] at hparse
    rcases Element.parse_cons_eq_error hparse with ⟨fault, hfault, -⟩ | ⟨_, _, -, -, heq⟩
    · rw [hlength] at hfault
      cases hfault
    · exact absurd (hsame.symm.trans heq) hthere
  case short =>
    intro needed available hparse hne hle
    exact fails_element?_of_parse rfl hne hle hparse

/-- An octet string whose header comes in two pieces, the first of them after an interruption, is
found with its content; it is refused by a reader that accepts less; and if the last piece does not
come, the input ends inside it. -/
theorem element?_of_split_header :
    let start : List Piece := [.interruption, .data 0x04 [0x81], .interruption, .data 0x02 [0x61]]
    let r (pieces : List Piece) (limit : Nat) : Reader := ⟨⟨pieces, .endOfInput⟩, none, 5, limit⟩
    Element.parse (r (start ++ [.data 0x62 [0x63]]) 2).rest
        = .ok (⟨0x04, [0x61, 0x62]⟩, [0x63]) ∧
      (∃ r', Runs element? (r (start ++ [.data 0x62 [0x63]]) 2) (some ⟨0x04, [0x61, 0x62]⟩) r' ∧
        r'.rest = [0x63] ∧ r'.total = 10) ∧
      Fails element? (r (start ++ [.data 0x62 [0x63]]) 1) (.elementTooLarge 2 1) ∧
      Element.parse (r start 2).rest = .error (.truncated 5 4) ∧
      Fails element? (r start 2) .endOfInput := by
  intro start r
  have hparse : Element.parse (r (start ++ [.data 0x62 [0x63]]) 2).rest
      = .ok (⟨0x04, [0x61, 0x62]⟩, [0x63]) := by decide +kernel
  have hcut : Element.parse (r start 2).rest = .error (.truncated 5 4) := by decide +kernel
  obtain ⟨hfound, -⟩ :=
    element?_agrees_with_parse (start ++ [.data 0x62 [0x63]]) none 5 2
  obtain ⟨-, hlarge, -⟩ :=
    element?_agrees_with_parse (start ++ [.data 0x62 [0x63]]) none 5 1
  obtain ⟨-, -, -, -, hshort⟩ := element?_agrees_with_parse start none 5 2
  have hlength : Length.decode [0x81, 0x02, 0x61] = .ok (2, [0x61]) := by decide +kernel
  have hwhole : Length.decode [0x81, 0x02, 0x61, 0x62, 0x63] = .ok (2, [0x61, 0x62, 0x63]) := by
    decide +kernel
  refine ⟨hparse, hfound _ _ hparse (by decide),
    hlarge 0x04 _ 2 _ (by decide +kernel) hwhole (by decide), hcut,
    hshort 5 4 hcut (by decide) fun tag body n tail hrest hdecode => ?_⟩
  obtain ⟨-, rfl⟩ : tag = 0x04 ∧ body = [0x81, 0x02, 0x61] := by
    have heq : [0x04, 0x81, 0x02, 0x61] = tag :: body := hrest
    simpa [eq_comm] using heq
  rw [hlength] at hdecode
  cases hdecode
  decide

end Reader
end Ber
end Ldap
