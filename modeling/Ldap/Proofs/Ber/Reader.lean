import Ldap.Ber.Reader
import Ldap.Proofs.Ber.Element
import Ldap.Proofs.Ber.Source

/-!
# Elements read from a source

A reader that takes an element off its source finds the same element as `Element.parse` does in the
bytes that are to come, provided that the content is not longer than the reader accepts.
-/

namespace Ldap

instance {ε σ α : Type} [DecidableEq ε] [DecidableEq σ] [DecidableEq α]
    (x : ExceptT ε (StateM σ) α) (s : σ) (a : α) (s' : σ) : Decidable (Runs x s a s') :=
  (inferInstance : DecidableEq (Except ε α × σ)) (x.run.run s) (.ok a, s')

namespace Ber.Reader

/-! ## Bytes -/

/-- The bytes that a reader has yet to take. -/
def rest (r : Reader) : List UInt8 :=
  r.held.toList ++ r.source.bytes

/-- Some bytes have been taken, and counted. -/
structure Took (r : Reader) (bytes : List UInt8) (r' : Reader) : Prop where
  rest : r.rest = bytes ++ r'.rest
  total : r'.total = r.total + bytes.length
  limit : r'.limit = r.limit

/-- What was taken in two steps was taken in one. -/
theorem Took.trans {r r' r'' : Reader} {bytes bytes' : List UInt8} (h : r.Took bytes r')
    (h' : r'.Took bytes' r'') : r.Took (bytes ++ bytes') r'' where
  rest := by rw [h.rest, h'.rest, List.append_assoc]
  total := by
    rw [h'.total, h.total, List.length_append]
    omega
  limit := h'.limit.trans h.limit

/-- What was taken and what is left make up what was there. -/
theorem Took.length_eq {r r' : Reader} {bytes : List UInt8} (h : r.Took bytes r') :
    r'.total + r'.rest.length = r.total + r.rest.length := by
  rw [h.rest, h.total, List.length_append]
  omega

/-- A new reader has all bytes before it. -/
theorem rest_ofSource (bytes : List UInt8) (limit : Nat) :
    (ofSource (.ofBytes bytes) limit).rest = bytes := by
  simp [rest, ofSource]

theorem rest_of_held_none {r : Reader} (h : r.held = none) : r.rest = r.source.bytes := by
  simp [rest, h]

theorem rest_of_held {r : Reader} {b : UInt8} (h : r.held = some b) :
    r.rest = b :: r.source.bytes := by
  simp [rest, h]

/-- Two readers have the same bytes to come, whether looked at or not, and the same count. -/
structure Alike (r r' : Reader) : Prop where
  rest : r.rest = r'.rest
  ending : r.source.ending = r'.source.ending
  total : r.total = r'.total
  limit : r.limit = r'.limit

namespace Alike

variable {r r' r'' s s' : Reader} {bytes : List UInt8}

theorem refl (r : Reader) : Alike r r :=
  ⟨rfl, rfl, rfl, rfl⟩

theorem symm (h : Alike r r') : Alike r' r :=
  ⟨h.rest.symm, h.ending.symm, h.total.symm, h.limit.symm⟩

theorem trans (h : Alike r r') (h' : Alike r' r'') : Alike r r'' :=
  ⟨h.rest.trans h'.rest, h.ending.trans h'.ending, h.total.trans h'.total, h.limit.trans h'.limit⟩

/-- Nothing was taken in between. -/
theorem took (h : Alike r r') : r'.Took [] r :=
  ⟨h.rest.symm, h.total, h.limit⟩

/-- The same bytes have been taken from both. -/
theorem of_took (h : Alike r r') (hs : r.Took bytes s) (hs' : r'.Took bytes s')
    (hending : s.source.ending = s'.source.ending) : Alike s s' := by
  refine ⟨?_, hending, ?_, ?_⟩
  · have hsame : bytes ++ s.rest = bytes ++ s'.rest := by
      rw [← hs.rest, ← hs'.rest, h.rest]
    exact List.append_cancel_left hsame
  · rw [hs.total, hs'.total, h.total]
  · rw [hs.limit, hs'.limit, h.limit]

end Alike

/-- What is told of the next byte: the first of those to come, or how the source stops. -/
def front (bytes : List UInt8) (ending : Ending) : Except Error (Option UInt8) :=
  match bytes, ending with
  | b :: _, _ => .ok (some b)
  | [], .endOfInput => .ok none
  | [], .failure reason => .error (.source reason)

/-- The first byte is found if there is one. -/
theorem front_eq_some_iff {bytes : List UInt8} {ending : Ending} {b : UInt8} :
    front bytes ending = .ok (some b) ↔ ∃ tail, bytes = b :: tail := by
  cases bytes with
  | nil => cases ending <;> simp [front]
  | cons first tail => simp [front]

/-- A byte is found by filling room for one, and leaves the byte that is held alone. -/
theorem run_rawByte (r : Reader) :
    rawByte.run.run r =
      (front r.source.bytes r.source.ending, { r with source := (r.source.fill 1).2 }) := by
  have hgot := (r.source.fill_eq 1).1
  unfold rawByte
  rw [run_get_bind]
  generalize r.source.fill 1 = filled at hgot ⊢
  rcases filled with ⟨got, source⟩
  obtain rfl := hgot
  dsimp only
  rw [run_set_bind]
  cases r.source.bytes with
  | nil => cases r.source.ending <;> rfl
  | cons b tail => rfl

/-- Where none is held, the bytes that are taken are those that the source gives. -/
theorem took_of_fill {r : Reader} (hheld : r.held = none) (n : Nat) :
    r.Took (r.source.bytes.take n)
      { r with
        source := (r.source.fill n).2
        total := r.total + (r.source.bytes.take n).length } where
  rest := by
    obtain ⟨-, hleft, -⟩ := r.source.fill_eq n
    rw [rest_of_held_none hheld]
    show _ = _ ++ (r.held.toList ++ (r.source.fill n).2.bytes)
    rw [hheld, hleft]
    exact (List.take_append_drop n r.source.bytes).symm
  total := rfl
  limit := rfl

/-- A byte of the source that is held is still to come. -/
theorem alike_of_fill {r : Reader} (hheld : r.held = none) :
    Alike { r with source := (r.source.fill 1).2, held := r.source.bytes.head? } r := by
  obtain ⟨-, hrest, hending⟩ := r.source.fill_eq 1
  refine ⟨?_, hending, rfl, rfl⟩
  rw [rest_of_held_none hheld]
  show r.source.bytes.head?.toList ++ (r.source.fill 1).2.bytes = r.source.bytes
  rw [hrest]
  cases r.source.bytes <;> rfl

/-- A look tells of the next byte to come and leaves the reader as it was, however it ends. -/
theorem run_peek (r : Reader) :
    ∃ s, peek.run.run r = (front r.rest r.source.ending, s) ∧ Alike s r := by
  unfold peek
  rw [run_get_bind]
  cases hheld : r.held with
  | some b =>
    refine ⟨r, ?_, .refl r⟩
    rw [rest_of_held hheld]
    rfl
  | none =>
    refine ⟨_, ?_, alike_of_fill hheld⟩
    dsimp only
    rw [run_bind, run_rawByte, rest_of_held_none hheld]
    -- what is held in the end is the first byte of the source, or nothing
    cases hbytes : r.source.bytes with
    | nil =>
      cases r.source.ending with
      | endOfInput => rfl
      | failure reason =>
        rw [List.head?_nil, ← hheld]
        rfl
    | cons b tail => rfl

/-- Looking at a byte leaves it to be taken. -/
theorem took_of_peek {r r' : Reader} {b : UInt8} (h : Runs peek r (some b) r') : r.Took [] r' := by
  obtain ⟨s, hrun, halike⟩ := run_peek r
  obtain ⟨-, rfl⟩ := (runs_iff_of_run hrun).1 h
  exact halike.took

/-- A reader with a byte before it sees it, whether it holds it or not. -/
theorem exists_peek {r : Reader} {b : UInt8} {tail : List UInt8} (h : r.rest = b :: tail) :
    ∃ r', Runs peek r (some b) r' := by
  obtain ⟨s, hrun, -⟩ := run_peek r
  exact ⟨s, (runs_iff_of_run hrun).2 ⟨front_eq_some_iff.2 ⟨tail, h⟩, rfl⟩⟩

/-- The next byte to come is taken and counted, if there is one, and none is held any more. -/
theorem run_nextByte (r : Reader) :
    ∃ s, nextByte.run.run r = (front r.rest r.source.ending, s) ∧ r.Took (r.rest.take 1) s ∧
      s.held = none ∧ s.source.ending = r.source.ending := by
  unfold nextByte
  rw [run_get_bind]
  cases hheld : r.held with
  | some b =>
    rw [rest_of_held hheld]
    exact ⟨{ r with held := none, total := r.total + 1 }, rfl,
      ⟨rest_of_held hheld, rfl, rfl⟩, rfl, rfl⟩
  | none =>
    rw [rest_of_held_none hheld]
    refine ⟨_, ?_, took_of_fill hheld 1, hheld, (r.source.fill_eq 1).2.2⟩
    dsimp only
    rw [run_bind, run_rawByte]
    cases hbytes : r.source.bytes with
    | nil => cases r.source.ending <;> rfl
    | cons b tail => rfl

/-- After a byte was taken nothing is held. -/
theorem took_of_nextByte {r r' : Reader} {b : UInt8} (h : Runs nextByte r (some b) r') :
    r.Took [b] r' ∧ r'.held = none := by
  obtain ⟨s, hrun, htook, hheld, -⟩ := run_nextByte r
  obtain ⟨hfront, rfl⟩ := (runs_iff_of_run hrun).1 h
  obtain ⟨tail, hrest⟩ := front_eq_some_iff.1 hfront
  rw [hrest] at htook
  exact ⟨htook, hheld⟩

theorem exists_nextByte {r : Reader} {b : UInt8} {tail : List UInt8} (h : r.rest = b :: tail) :
    ∃ r', Runs nextByte r (some b) r' := by
  obtain ⟨s, hrun, -⟩ := run_nextByte r
  exact ⟨s, (runs_iff_of_run hrun).2 ⟨front_eq_some_iff.2 ⟨tail, h⟩, rfl⟩⟩

/-- How somebody is told that bytes are missing. -/
def shortage : Ending → Error
  | .endOfInput => .endOfInput
  | .failure reason => .source reason

/-- Bytes come from the source all at once. If there are too few of them they are lost, and not
counted. -/
theorem run_fromSource (r : Reader) (n : Nat) :
    (fromSource n).run.run r =
      (if n ≤ r.source.bytes.length then .ok (r.source.bytes.take n)
        else .error (shortage r.source.ending),
      { r with
        source := (r.source.fill n).2
        total := if n ≤ r.source.bytes.length then r.total + n else r.total }) := by
  have hgot := (r.source.fill_eq n).1
  unfold fromSource
  rw [run_get_bind]
  generalize r.source.fill n = filled at hgot ⊢
  rcases filled with ⟨got, source⟩
  obtain rfl := hgot
  dsimp only
  rw [run_set_bind]
  by_cases hn : n ≤ r.source.bytes.length
  · rw [if_pos hn, if_pos hn, if_neg (by omega)]
    rfl
  · rw [if_neg hn, if_neg hn, if_pos (by omega)]
    cases r.source.ending <;> rfl

theorem runs_fromSource_iff {r r' : Reader} {n : Nat} {bytes : List UInt8} :
    Runs (fromSource n) r bytes r' ↔
      n ≤ r.source.bytes.length ∧ bytes = r.source.bytes.take n ∧
        { r with source := (r.source.fill n).2, total := r.total + n } = r' := by
  rw [runs_iff_of_run (run_fromSource r n)]
  by_cases hn : n ≤ r.source.bytes.length
  · simp [hn, eq_comm]
  · simp [hn]

/-- Where no byte was looked at, all the bytes come from the source. -/
theorem run_exactly {r : Reader} (hheld : r.held = none) (n : Nat) :
    (exactly n).run.run r = (fromSource n).run.run r := by
  obtain ⟨source, held, total, limit⟩ := r
  obtain rfl : held = none := hheld
  -- nothing is taken first, whether or not any bytes are wanted
  have hfirst : (exactly n).run.run ⟨source, none, total, limit⟩ =
      (fromSource n >>= fun others => pure ([] ++ others)).run.run
        ⟨source, none, total, limit⟩ := by
    cases n <;> rfl
  rw [hfirst]
  exact congrArg (fun x : ReadM (List UInt8) => x.run.run _) (bind_pure (fromSource n))

theorem took_of_fromSource {r r' : Reader} {n : Nat} {bytes : List UInt8} (hheld : r.held = none)
    (h : Runs (fromSource n) r bytes r') :
    r.Took bytes r' ∧ r'.held = none ∧ bytes.length = n := by
  rcases runs_fromSource_iff.1 h with ⟨hn, rfl, rfl⟩
  have htook := took_of_fill hheld n
  rw [List.length_take_of_le hn] at htook
  exact ⟨htook, hheld, List.length_take_of_le hn⟩

/-- A reader that holds nothing takes as many bytes as it is asked for. -/
theorem took_of_exactly {r r' : Reader} {n : Nat} {bytes : List UInt8} (hheld : r.held = none)
    (h : Runs (exactly n) r bytes r') : r.Took bytes r' ∧ r'.held = none ∧ bytes.length = n :=
  took_of_fromSource hheld ((run_exactly hheld n).symm.trans h)

theorem exists_exactly {r : Reader} {n : Nat} (hheld : r.held = none) (hn : n ≤ r.rest.length) :
    ∃ r', Runs (exactly n) r (r.rest.take n) r' := by
  rw [rest_of_held_none hheld] at hn ⊢
  exact ⟨_, (run_exactly hheld n).trans (runs_fromSource_iff.2 ⟨hn, rfl, rfl⟩)⟩

/-! ## Elements -/

/-- A header is a tag, a first byte of the length, and as many others as this one counts; and the
length is not over the limit. -/
theorem runs_header_iff {r r' : Reader} {tag : Tag} {n : Nat} :
    Runs header r (some (tag, n)) r' ↔
      ∃ r₁ first r₂ count bytes, Runs nextByte r (some tag) r₁ ∧ Runs nextByte r₁ (some first) r₂ ∧
        Length.continuationCount first = .ok count ∧ Runs (exactly count) r₂ bytes r' ∧
        Length.assemble first bytes = n ∧ n ≤ r'.limit := by
  unfold header
  constructor
  · intro h
    rcases runs_bind_iff.1 h with ⟨first?, r₁, htag, h⟩
    cases first? with
    | none => cases (runs_pure_iff.1 h).1
    | some tag' =>
      rcases runs_bind_iff.1 h with ⟨second?, r₂, hfirst, h⟩
      cases second? with
      | none => cases runs_throw_iff.1 h
      | some first =>
        rcases runs_bind_iff.1 h with ⟨count, _, hofExcept, h⟩
        rcases runs_ofExcept_iff.1 hofExcept with ⟨hcount, rfl⟩
        rcases runs_bind_iff.1 h with ⟨bytes, r₃, hbytes, h⟩
        rw [runs_get_bind_iff] at h
        dsimp only at h
        split at h
        · rcases runs_bind_iff.1 h with ⟨_, _, hthrow, -⟩
          cases runs_throw_iff.1 hthrow
        · next hle =>
          rcases runs_pure_iff.1 h with ⟨heq, rfl⟩
          cases heq
          exact ⟨r₁, first, r₂, count, bytes, htag, hfirst, hcount, hbytes, rfl, not_lt.1 hle⟩
  · rintro ⟨r₁, first, r₂, count, bytes, htag, hfirst, hcount, hbytes, rfl, hle⟩
    refine runs_bind_iff.2 ⟨_, _, htag, runs_bind_iff.2 ⟨_, _, hfirst, runs_bind_iff.2
      ⟨_, _, runs_ofExcept_iff.2 ⟨hcount, rfl⟩, runs_bind_iff.2 ⟨_, _, hbytes, ?_⟩⟩⟩⟩
    rw [runs_get_bind_iff]
    dsimp only
    rw [if_neg (not_lt.2 hle)]
    exact runs_pure_iff.2 ⟨rfl, rfl⟩

/-- The head of an element is taken byte by byte: its tag, and what spells its length. -/
theorem took_of_header {r r' : Reader} {tag : Tag} {n : Nat}
    (h : Runs header r (some (tag, n)) r') :
    ∃ head, r.Took (tag :: head) r' ∧ r'.held = none ∧
      Length.decode (head ++ r'.rest) = .ok (n, r'.rest) ∧ n ≤ r.limit := by
  obtain ⟨r₁, first, r₂, count, bytes, htag, hfirst, hcount, hbytes, rfl, hle⟩ :=
    runs_header_iff.1 h
  obtain ⟨htook₁, -⟩ := took_of_nextByte htag
  obtain ⟨htook₂, hheld₂⟩ := took_of_nextByte hfirst
  obtain ⟨htook₃, hheld₃, hlen⟩ := took_of_exactly hheld₂ hbytes
  have htook := htook₁.trans (htook₂.trans htook₃)
  refine ⟨first :: bytes, htook, hheld₃, ?_, htook.limit ▸ hle⟩
  rw [List.cons_append]
  exact Length.decode_cons_eq_ok_iff.2
    ⟨count, hcount, by simp [hlen], by rw [List.take_left' hlen], by rw [List.drop_left' hlen]⟩

/-- A tag and a length at the front of the bytes to come are taken one byte after the other. -/
theorem exists_spelled {r : Reader} {tag : Tag} {body tail : List UInt8} {n : Nat}
    (hrest : r.rest = tag :: body) (h : Length.decode body = .ok (n, tail)) :
    ∃ r₁ first r₂ count bytes r₃, Runs nextByte r (some tag) r₁ ∧
      Runs nextByte r₁ (some first) r₂ ∧ Length.continuationCount first = .ok count ∧
      Runs (exactly count) r₂ bytes r₃ ∧ Length.assemble first bytes = n ∧ r₃.rest = tail ∧
      r₃.limit = r.limit := by
  obtain ⟨r₁, htag⟩ := exists_nextByte hrest
  obtain ⟨htook₁, -⟩ := took_of_nextByte htag
  obtain rfl : body = r₁.rest := by
    have heq := htook₁.rest
    rw [hrest] at heq
    exact (List.cons.inj heq).2
  cases hbody : r₁.rest with
  | nil =>
    rw [hbody] at h
    cases h
  | cons first bytes =>
    rw [hbody] at h
    rcases Length.decode_cons_eq_ok_iff.1 h with ⟨count, hcount, hlen, rfl, rfl⟩
    obtain ⟨r₂, hfirst⟩ := exists_nextByte hbody
    obtain ⟨htook₂, hheld₂⟩ := took_of_nextByte hfirst
    -- what was taken so far is the beginning of the bytes to come
    obtain rfl : bytes = r₂.rest := by
      have heq := htook₂.rest
      rw [hbody] at heq
      exact (List.cons.inj heq).2
    obtain ⟨r₃, hbytes⟩ := exists_exactly hheld₂ hlen
    obtain ⟨htook₃, -, hcountLen⟩ := took_of_exactly hheld₂ hbytes
    refine ⟨r₁, first, r₂, count, _, r₃, htag, hfirst, hcount, hbytes, rfl, ?_,
      (htook₁.trans (htook₂.trans htook₃)).limit⟩
    rw [htook₃.rest, List.drop_left' hcountLen]

/-- A head that can be read from the bytes is read from the source, unless it tells of more than the
limit. -/
theorem exists_header {r : Reader} {tag : Tag} {body tail : List UInt8} {n : Nat}
    (hrest : r.rest = tag :: body) (h : Length.decode body = .ok (n, tail)) (hle : n ≤ r.limit) :
    ∃ r', Runs header r (some (tag, n)) r' ∧ r'.rest = tail := by
  obtain ⟨r₁, first, r₂, count, bytes, r₃, htag, hfirst, hcount, hbytes, rfl, htail, hlimit⟩ :=
    exists_spelled hrest h
  exact ⟨r₃, runs_header_iff.2 ⟨r₁, first, r₂, count, bytes, htag, hfirst, hcount, hbytes, rfl,
    hlimit ▸ hle⟩, htail⟩

/-- What a reader takes off its source as an element is the first element of the bytes to come. -/
theorem took_of_element {r r' : Reader} {e : Element} (h : Runs element r e r') :
    ∃ head, r.Took head r' ∧ r'.held = none ∧ Element.parse r.rest = .ok (e, r'.rest) ∧
      e.content.length ≤ r.limit := by
  unfold element element? at h
  rcases runs_bind_iff.1 h with ⟨e?, _, he, h⟩
  rcases runs_bind_iff.1 he with ⟨header?, r₁, hheader, he⟩
  cases header? with
  | none =>
    rcases runs_pure_iff.1 he with ⟨rfl, rfl⟩
    cases runs_throw_iff.1 h
  | some x =>
    rcases x with ⟨tag, n⟩
    rcases runs_bind_iff.1 he with ⟨content, r₂, hcontent, he⟩
    rcases runs_pure_iff.1 he with ⟨rfl, rfl⟩
    rcases runs_pure_iff.1 h with ⟨rfl, rfl⟩
    obtain ⟨head, htook₁, hheld₁, hlength, hle⟩ := took_of_header hheader
    obtain ⟨htook₂, hheld₂, hlen⟩ := took_of_exactly hheld₁ hcontent
    refine ⟨_, htook₁.trans htook₂, hheld₂, ?_, by simpa [hlen] using hle⟩
    -- what was taken, one piece after the other, is what a parser takes off the front
    rw [htook₁.rest]
    refine Element.parse_cons_eq_ok_iff.2 ⟨n, _, hlength, ?_, ?_, ?_⟩
    · rw [htook₂.rest]
      simp [hlen]
    · rw [htook₂.rest, List.take_left' hlen]
    · rw [htook₂.rest, List.drop_left' hlen]

/-- The first element of the bytes to come is taken off the source, unless it is too long. -/
theorem exists_element {r : Reader} {e : Element} {tail : List UInt8}
    (h : Element.parse r.rest = .ok (e, tail)) (hle : e.content.length ≤ r.limit) :
    ∃ r', Runs element r e r' := by
  cases hrest : r.rest with
  | nil =>
    rw [hrest] at h
    cases h
  | cons tag body =>
    rw [hrest] at h
    rcases Element.parse_cons_eq_ok_iff.1 h with ⟨n, rest, hlength, hn, rfl, -⟩
    have htake : (rest.take n).length = n := by simp [hn]
    obtain ⟨r₁, hheader, rfl⟩ := exists_header hrest hlength (by simpa [htake] using hle)
    obtain ⟨-, -, hheld₁, -⟩ := took_of_header hheader
    obtain ⟨r₂, hcontent⟩ := exists_exactly hheld₁ hn
    refine ⟨r₂, runs_bind_iff.2 ⟨_, _, runs_bind_iff.2 ⟨_, _, hheader, runs_bind_iff.2
      ⟨_, _, hcontent, runs_pure_iff.2 ⟨rfl, rfl⟩⟩⟩, runs_pure_iff.2 ⟨rfl, rfl⟩⟩⟩

end Ber.Reader
end Ldap
