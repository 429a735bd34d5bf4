import Ldap.Frame
import Ldap.Proofs.Message.Refusal
import Ldap.Proofs.Message.RoundTrip

/-!
# Messages on a stream

Messages that are written one after the other are read back one after the other
(`readAll_messages`), however the source cuts their bytes into pieces, as long as it turns no
request away: an interruption ends the reading. Each frame is exactly one element, so that a message
is read to the end of its frame.
-/

namespace Ldap

open Ber (Element Source Tag)

section Runs

variable {ε ε' α : Type}

theorem mapError_eq_ok_iff {x : Except ε α} {f : ε → ε'} {a : α} :
    x.mapError f = .ok a ↔ x = .ok a := by
  cases x <;> simp [Except.mapError]

end Runs

namespace Ber.Source

/-- A source that turns no request away. -/
def Uninterrupted (s : Source) : Prop :=
  .interruption ∉ s.pieces

instance (s : Source) : Decidable s.Uninterrupted :=
  inferInstanceAs (Decidable (.interruption ∉ s.pieces))

/-- Bytes that are put back are no interruption. -/
theorem uninterrupted_restore {bytes : List UInt8} {pieces : List Piece} :
    .interruption ∉ restore bytes pieces ↔ .interruption ∉ pieces := by
  cases bytes <;> simp [restore]

/-- Some bytes have been given without an interruption, and the source will go on as before. -/
structure Gave (s : Source) (bytes : List UInt8) (s' : Source) : Prop where
  bytes_eq : s.bytes = bytes ++ s'.bytes
  ending_eq : s'.ending = s.ending
  uninterrupted_iff : s'.Uninterrupted ↔ s.Uninterrupted

theorem Gave.refl (s : Source) : s.Gave [] s :=
  ⟨rfl, rfl, Iff.rfl⟩

/-- What a source gave in two steps it gave in one. -/
theorem Gave.trans {s s' s'' : Source} {bytes bytes' : List UInt8} (h : s.Gave bytes s')
    (h' : s'.Gave bytes' s'') : s.Gave (bytes ++ bytes') s'' where
  bytes_eq := by rw [h.bytes_eq, h'.bytes_eq, List.append_assoc]
  ending_eq := h'.ending_eq.trans h.ending_eq
  uninterrupted_iff := h'.uninterrupted_iff.trans h.uninterrupted_iff

/-- A read gives what stood first, and drops no interruption on its way. -/
theorem gave_of_read {s s' : Source} {room : Nat} {b : UInt8} {bs : List UInt8}
    (h : s.read room = (.bytes b bs, s')) : s.Gave (b :: bs) s' where
  bytes_eq := (bytes_of_read_bytes h).1
  ending_eq := (bytes_of_read_bytes h).2.2
  uninterrupted_iff := by
    rcases s with ⟨pieces, ending⟩
    match pieces with
    | [] => cases ending <;> simp [read] at h
    | .interruption :: pieces => simp [read] at h
    | .data first rest :: pieces =>
      simp only [read, Prod.mk.injEq] at h
      rcases h with ⟨-, rfl⟩
      simp [Uninterrupted, uninterrupted_restore]

/-- A source finds its end where it has nothing left, not even an interruption. -/
theorem read_eq_ended_iff {s s' : Source} {room : Nat} :
    s.read room = (.ended, s') ↔ s.pieces = [] ∧ s.ending = .endOfInput ∧ s = s' := by
  rcases s with ⟨pieces, ending⟩
  match pieces with
  | [] => cases ending <;> simp [read]
  | .interruption :: pieces => simp [read]
  | .data first rest :: pieces => simp [read]

/-- Without an interruption, what has no bytes left has no pieces left. -/
theorem Uninterrupted.pieces_eq_nil {s : Source} (h : s.Uninterrupted) (hbytes : s.bytes = []) :
    s.pieces = [] := by
  rcases s with ⟨pieces, ending⟩
  match pieces with
  | [] => rfl
  | .interruption :: pieces => simp [Uninterrupted] at h
  | .data first rest :: pieces => simp [bytes, Piece.bytes] at hbytes

/-- A source that turns no request away gives some of the bytes that it has. -/
theorem Uninterrupted.exists_read {s : Source} (h : s.Uninterrupted) (hbytes : s.bytes ≠ [])
    (room : Nat) : ∃ b bs s', s.read room = (.bytes b bs, s') := by
  rcases s with ⟨pieces, ending⟩
  match pieces with
  | [] => exact absurd rfl hbytes
  | .interruption :: pieces => simp [Uninterrupted] at h
  | .data first rest :: pieces => exact ⟨_, _, _, rfl⟩

end Ber.Source

namespace Frame

/-! ## Bytes -/

/-- To ask for a byte is to read once, with room for one. -/
theorem run_byte? (s : Source) :
    byte?.run.run s = (match (s.read 0).1 with
      | .bytes b _ => .ok (some b)
      | .ended => .ok none
      | .interrupted => .error interrupted
      | .failed reason => .error (.stream reason), (s.read 0).2) := by
  unfold byte?
  rw [run_get_bind]
  generalize s.read 0 = x
  rcases x with ⟨reading, s'⟩
  dsimp only
  rw [run_set_bind]
  cases reading <;> rfl

/-- A byte that was found is what the source gave. -/
theorem gave_of_byte? {s s' : Source} {b : UInt8} (h : Runs byte? s (some b) s') :
    s.Gave [b] s' := by
  unfold Runs at h
  rw [run_byte?] at h
  cases hread : s.read 0 with
  | mk reading t =>
    rw [hread] at h
    cases reading with
    | bytes first bs =>
      cases h
      -- there was room for one byte
      have hlen := (Ber.Source.bytes_of_read_bytes hread).2.1
      obtain rfl := List.eq_nil_of_length_eq_zero (Nat.le_zero.1 hlen)
      exact Ber.Source.gave_of_read hread
    | interrupted | ended | failed => cases h

/-- A source has no byte to give exactly if it ended, which an interruption does not tell. -/
theorem runs_byte?_none_iff {s s' : Source} :
    Runs byte? s none s' ↔ s.pieces = [] ∧ s.ending = .endOfInput ∧ s = s' := by
  rw [runs_iff_of_run (run_byte? s), ← Ber.Source.read_eq_ended_iff]
  generalize s.read 0 = x
  rcases x with ⟨reading, t⟩
  cases reading <;> simp

/-- A source that is not interrupted gives the byte that stands first. -/
theorem exists_byte? {s : Source} {b : UInt8} {tail : List UInt8} (hs : s.Uninterrupted)
    (h : s.bytes = b :: tail) : ∃ s', Runs byte? s (some b) s' ∧ s'.bytes = tail := by
  obtain ⟨first, bs, s', hread⟩ := hs.exists_read (by simp [h]) 0
  have hruns : Runs byte? s (some first) s' := by
    unfold Runs
    rw [run_byte?, hread]
  have hgave := (gave_of_byte? hruns).bytes_eq
  rw [h] at hgave
  cases hgave
  exact ⟨s', hruns, rfl⟩

section Gather

variable {s s' : Source} {room : Nat}

theorem gather_of_bytes {b : UInt8} {bs : List UInt8} (h : s.read room = (.bytes b bs, s')) :
    gather s (room + 1) = ((gather s' (room - bs.length)).1.map (b :: bs ++ ·),
      (gather s' (room - bs.length)).2) := by
  rw [gather]
  split <;> simp_all

theorem gather_of_ended (h : s.read room = (.ended, s')) :
    gather s (room + 1) = (.error (.stream "early eof"), s') := by
  rw [gather]
  split <;> simp_all

/-- Here a source differs from one that is filled from (`Source.fill_of_interrupted`): the read is
not made again. -/
theorem gather_of_interrupted (h : s.read room = (.interrupted, s')) :
    gather s (room + 1) = (.error interrupted, s') := by
  rw [gather]
  split <;> simp_all

theorem gather_of_failed {reason : String} (h : s.read room = (.failed reason, s')) :
    gather s (room + 1) = (.error (.stream reason), s') := by
  rw [gather]
  split <;> simp_all

end Gather

/-- Bytes that were gathered are as many as were wanted, and they are the next of the source. -/
theorem gave_of_gather {s s' : Source} {n : Nat} {bytes : List UInt8}
    (h : gather s n = (.ok bytes, s')) : s.Gave bytes s' ∧ bytes.length = n := by
  -- on the requests; only one that gets bytes lets the gathering go on
  induction s, n using gather.induct generalizing bytes s' with
  | case1 s =>
    rw [gather] at h
    cases h
    exact ⟨.refl s, rfl⟩
  | case2 s room b bs t hread _ _ _ _ ih =>
    rw [gather_of_bytes hread, Prod.mk.injEq] at h
    obtain ⟨hmore, rfl⟩ := h
    cases hrest : (gather t (room - bs.length)).1 with
    | error e =>
      rw [hrest] at hmore
      cases hmore
    | ok more =>
      rw [hrest] at hmore
      cases hmore
      obtain ⟨hgave, hlen⟩ := ih (Prod.ext hrest rfl)
      have hle := (Ber.Source.bytes_of_read_bytes hread).2.1
      refine ⟨(Ber.Source.gave_of_read hread).trans hgave, ?_⟩
      rw [List.length_append, List.length_cons, hlen]
      omega
  | case3 s room t hread =>
    rw [gather_of_ended hread] at h
    cases h
  | case4 s room t hread =>
    rw [gather_of_interrupted hread] at h
    cases h
  | case5 s room reason t hread =>
    rw [gather_of_failed hread] at h
    cases h

/-- A source that is not interrupted gives as many bytes as it has. -/
theorem exists_gather {s : Source} {n : Nat} (hs : s.Uninterrupted) (hn : n ≤ s.bytes.length) :
    ∃ bytes s', gather s n = (.ok bytes, s') := by
  induction n using Nat.strong_induction_on generalizing s with
  | h n ih =>
    cases n with
    | zero => exact ⟨[], s, by rw [gather]⟩
    | succ room =>
      have hne : s.bytes ≠ [] := List.length_pos_iff.1 (by omega)
      obtain ⟨b, bs, t, hread⟩ := hs.exists_read hne room
      have hgave := Ber.Source.gave_of_read hread
      have hleft : room - bs.length ≤ t.bytes.length := by
        rw [hgave.bytes_eq, List.length_append, List.length_cons] at hn
        omega
      obtain ⟨more, s', hmore⟩ := ih (room - bs.length) (by omega)
        (hgave.uninterrupted_iff.2 hs) hleft
      exact ⟨b :: bs ++ more, s', by rw [gather_of_bytes hread, hmore]; rfl⟩

theorem runs_exactly_iff {s s' : Source} {n : Nat} {bytes : List UInt8} :
    Runs (exactly n) s bytes s' ↔ gather s n = (.ok bytes, s') := by
  unfold exactly Runs
  rw [run_get_bind]
  generalize gather s n = x
  rcases x with ⟨got, t⟩
  dsimp only
  rw [run_set_bind]
  cases got <;> rfl

/-- Bytes that were gathered are what the source gave, and as many as were asked for. -/
theorem gave_of_exactly {s s' : Source} {n : Nat} {bytes : List UInt8}
    (h : Runs (exactly n) s bytes s') : s.Gave bytes s' ∧ bytes.length = n :=
  gave_of_gather (runs_exactly_iff.1 h)

/-- From a source that turns no request away, as many bytes are got as it has. -/
theorem exists_exactly {s : Source} {n : Nat} (hs : s.Uninterrupted) (hn : n ≤ s.bytes.length) :
    ∃ s', Runs (exactly n) s (s.bytes.take n) s' ∧ s'.bytes = s.bytes.drop n := by
  obtain ⟨bytes, s', hgather⟩ := exists_gather hs hn
  obtain ⟨hgave, hlen⟩ := gave_of_gather hgather
  refine ⟨s', ?_, by rw [hgave.bytes_eq, List.drop_left' hlen]⟩
  rw [runs_exactly_iff, hgather, hgave.bytes_eq, List.take_left' hlen]

/-! ## Frames -/

theorem runs_ofHeader_iff {α : Type} {x : Except Ber.Error α} {s s' : Source} {a : α} :
    Runs (ofHeader x) s a s' ↔ x = .ok a ∧ s = s' := by
  unfold ofHeader
  rw [runs_ofExcept_iff, mapError_eq_ok_iff]

/-- A frame is the bytes of exactly one element, and these are taken off the source. -/
theorem gave_of_read {limit : Nat} {s s' : Source} {frame : List UInt8}
    (h : Runs (read limit) s (some frame) s') :
    s.Gave frame s' ∧ ∃ e, Element.decode frame = .ok e ∧ e.content.length ≤ limit := by
  unfold read at h
  rcases runs_bind_iff.1 h with ⟨tag?, s₁, htag, h⟩
  cases tag? with
  | none => cases (runs_pure_iff.1 h).1
  | some tag =>
    rcases runs_bind_iff.1 h with ⟨first?, s₂, hfirst, h⟩
    cases first? with
    | none => cases runs_throw_iff.1 h
    | some first =>
      rcases runs_bind_iff.1 h with ⟨count, _, hheader, h⟩
      rcases runs_ofHeader_iff.1 hheader with ⟨hcount, rfl⟩
      rcases runs_bind_iff.1 h with ⟨rest, s₃, hrest, h⟩
      dsimp only at h
      split at h
      · rcases runs_bind_iff.1 h with ⟨_, _, hthrow, -⟩
        cases runs_throw_iff.1 hthrow
      · next hle =>
        rcases runs_bind_iff.1 h with ⟨content, s₄, hcontent, h⟩
        rcases runs_pure_iff.1 h with ⟨hframe, rfl⟩
        cases hframe
        obtain ⟨hgave₃, hlen⟩ := gave_of_exactly hrest
        obtain ⟨hgave₄, hlength⟩ := gave_of_exactly hcontent
        have hgave :=
          (gave_of_byte? htag).trans ((gave_of_byte? hfirst).trans (hgave₃.trans hgave₄))
        refine ⟨hgave, ⟨tag, content⟩, Element.decode_eq_ok_iff.2 ?_, ?_⟩
        · -- the header that was read is that of an element with the content that was read
          have hhead : Ber.Length.decode (first :: (rest ++ content)) =
              .ok (Ber.Length.assemble first rest, content) :=
            Ber.Length.decode_cons_eq_ok_iff.2 ⟨count, hcount, by simp [hlen],
              by rw [List.take_left' hlen], by rw [List.drop_left' hlen]⟩
          exact Element.parse_cons_eq_ok_iff.2 ⟨_, _, hhead, hlength.ge,
            by rw [List.take_of_length_le hlength.le],
            by rw [List.drop_of_length_le hlength.le]⟩
        · show content.length ≤ limit
          omega

/-- A frame is found where the bytes to come begin with an element that is not too long. -/
theorem exists_read {limit : Nat} {s : Source} {e : Element} {tail : List UInt8}
    (hs : s.Uninterrupted) (h : Element.parse s.bytes = .ok (e, tail))
    (hle : e.content.length ≤ limit) : ∃ frame s', Runs (read limit) s (some frame) s' := by
  cases hbytes : s.bytes with
  | nil =>
    rw [hbytes] at h
    cases h
  | cons tag body =>
    rw [hbytes] at h
    rcases Element.parse_cons_eq_ok_iff.1 h with ⟨n, content, hlength, hn, rfl, rfl⟩
    obtain ⟨s₁, htag, rfl⟩ := exists_byte? hs hbytes
    have hs₁ := (gave_of_byte? htag).uninterrupted_iff.2 hs
    cases hbody : s₁.bytes with
    | nil =>
      rw [hbody] at hlength
      cases hlength
    | cons first bytes =>
      rw [hbody] at hlength
      rcases Ber.Length.decode_cons_eq_ok_iff.1 hlength with ⟨count, hcount, hlen, rfl, rfl⟩
      obtain ⟨s₂, hfirst, rfl⟩ := exists_byte? hs₁ hbody
      have hs₂ := (gave_of_byte? hfirst).uninterrupted_iff.2 hs₁
      obtain ⟨s₃, hrest, hdrop⟩ := exists_exactly hs₂ hlen
      have hs₃ := (gave_of_exactly hrest).1.uninterrupted_iff.2 hs₂
      -- what is left behind the length is what the source has yet to give
      rw [← hdrop] at hn hle
      obtain ⟨s₄, hcontent, -⟩ := exists_exactly hs₃ hn
      generalize s₂.bytes.take count = rest at *
      refine ⟨tag :: first :: rest ++ s₃.bytes.take (Ber.Length.assemble first rest), s₄,
        runs_bind_iff.2 ⟨_, _, htag, runs_bind_iff.2 ⟨_, _, hfirst, runs_bind_iff.2
          ⟨_, _, runs_ofHeader_iff.2 ⟨hcount, rfl⟩, runs_bind_iff.2 ⟨_, _, hrest, ?_⟩⟩⟩⟩⟩
      dsimp only
      rw [if_neg (by simpa [hn] using hle)]
      exact runs_bind_iff.2 ⟨_, _, hcontent, runs_pure_iff.2 ⟨rfl, rfl⟩⟩

/-- No frame is left exactly if the source has nothing left and did not fail. -/
theorem runs_read_none_iff {limit : Nat} {s s' : Source} :
    Runs (read limit) s none s' ↔ s.pieces = [] ∧ s.ending = .endOfInput ∧ s = s' := by
  rw [← runs_byte?_none_iff]
  unfold read
  constructor
  · intro h
    rcases runs_bind_iff.1 h with ⟨tag?, s₁, htag, h⟩
    cases tag? with
    | none =>
      rcases runs_pure_iff.1 h with ⟨-, rfl⟩
      exact htag
    | some tag =>
      -- once a byte was got, the frame is there or an error is
      rcases runs_bind_iff.1 h with ⟨first?, s₂, -, h⟩
      cases first? with
      | none => cases runs_throw_iff.1 h
      | some first =>
        rcases runs_bind_iff.1 h with ⟨count, _, -, h⟩
        rcases runs_bind_iff.1 h with ⟨rest, s₃, -, h⟩
        dsimp only at h
        split at h
        · rcases runs_bind_iff.1 h with ⟨_, _, hthrow, -⟩
          cases runs_throw_iff.1 hthrow
        · rcases runs_bind_iff.1 h with ⟨_, _, -, h⟩
          cases (runs_pure_iff.1 h).1
  · intro h
    exact runs_bind_iff.2 ⟨none, s', h, runs_pure_iff.2 ⟨rfl, rfl⟩⟩

/-! ## Messages -/

/-- A message is read from a frame that was cut off the stream first. -/
theorem runs_readMessage_some_iff {limit : Nat} {s s' : Source} {m : Message} :
    Runs (readMessage limit) s (some m) s' ↔
      ∃ frame, Runs (read limit) s (some frame) s' ∧ Message.decodeWithin limit frame = .ok m := by
  unfold readMessage
  constructor
  · intro h
    rcases runs_bind_iff.1 h with ⟨frame?, s₁, hread, h⟩
    cases frame? with
    | none => cases (runs_pure_iff.1 h).1
    | some frame =>
      rcases runs_bind_iff.1 h with ⟨m', s₂, hofExcept, h⟩
      rcases runs_pure_iff.1 h with ⟨hm, rfl⟩
      cases hm
      rcases runs_ofExcept_iff.1 hofExcept with ⟨hdecode, rfl⟩
      exact ⟨frame, hread, mapError_eq_ok_iff.1 hdecode⟩
  · intro h
    rcases h with ⟨frame, hread, hdecode⟩
    exact runs_bind_iff.2 ⟨_, _, hread, runs_bind_iff.2 ⟨m, s',
      runs_ofExcept_iff.2 ⟨mapError_eq_ok_iff.2 hdecode, rfl⟩, runs_pure_iff.2 ⟨rfl, rfl⟩⟩⟩

theorem runs_readMessage_none_iff {limit : Nat} {s s' : Source} :
    Runs (readMessage limit) s none s' ↔ Runs (read limit) s none s' := by
  unfold readMessage
  constructor
  · intro h
    rcases runs_bind_iff.1 h with ⟨frame?, s₁, hread, h⟩
    cases frame? with
    | none =>
      rcases runs_pure_iff.1 h with ⟨-, rfl⟩
      exact hread
    | some frame =>
      rcases runs_bind_iff.1 h with ⟨_, _, -, h⟩
      cases (runs_pure_iff.1 h).1
  · intro h
    exact runs_bind_iff.2 ⟨none, s', h, runs_pure_iff.2 ⟨rfl, rfl⟩⟩

/-- A message that is read back from its own bytes, and is not too long to be read as a frame. -/
structure Survives (limit : Nat) (m : Message) : Prop where
  decode_encode : Message.decode m.encode = .ok m
  length_le : m.toElement.content.length ≤ limit

/-- A message that survives is one element, whatever follows. -/
theorem Survives.parse_encode_append {limit : Nat} {m : Message} (h : Survives limit m)
    (tail : List UInt8) : Element.parse (m.encode ++ tail) = .ok (m.toElement, tail) := by
  rcases Message.decodeWithin_eq_ok_iff.1 h.decode_encode with ⟨e, es, -, hle, hes, hm⟩
  have hcontent := (Message.length_content_le hes hm).trans hle
  exact Element.parse_encode (lt_of_le_of_lt hcontent (by decide)) tail

/-- A message that survives is read from the frame that it is written as. -/
theorem Survives.decodeWithin {limit : Nat} {m : Message} (h : Survives limit m) :
    Message.decodeWithin limit m.encode = .ok m := by
  rcases Message.decodeWithin_eq_ok_iff.1 h.decode_encode with ⟨e, es, hdecode, -, hes, hm⟩
  have hparse := h.parse_encode_append []
  rw [List.append_nil] at hparse
  rw [Element.decode_eq_ok_iff.2 hparse] at hdecode
  cases hdecode
  exact Message.decodeWithin_eq_ok_iff.2
    ⟨m.toElement, es, Element.decode_eq_ok_iff.2 hparse, h.length_le, hes, hm⟩

/-- Where the bytes to come are the beginning of a message and what follows it, the only frame that
can be read is that message. -/
theorem eq_encode_of_read {limit : Nat} {s s' : Source} {m : Message} {frame tail : List UInt8}
    (hm : Survives limit m) (hbytes : s.bytes <+: m.encode ++ tail)
    (h : Runs (read limit) s (some frame) s') : frame = m.encode := by
  obtain ⟨hgave, e, hframe, -⟩ := gave_of_read h
  obtain ⟨more, hmore⟩ := hbytes
  rw [hgave.bytes_eq, List.append_assoc] at hmore
  -- both are the first element of the same bytes
  have hparse := Element.parse_append (Element.decode_eq_ok_iff.1 hframe) (s'.bytes ++ more)
  rw [List.nil_append, hmore, hm.parse_encode_append] at hparse
  obtain rfl : tail = s'.bytes ++ more := congrArg Prod.snd (Except.ok.inj hparse)
  exact List.append_cancel_right hmore

/-- A message at the front of the bytes to come is read, and the bytes behind it are left. -/
theorem exists_readMessage {limit : Nat} {s : Source} {m : Message} {tail : List UInt8}
    (hs : s.Uninterrupted) (hm : Survives limit m) (hbytes : s.bytes = m.encode ++ tail) :
    ∃ s', Runs (readMessage limit) s (some m) s' ∧ s'.bytes = tail ∧ s'.ending = s.ending ∧
      s'.Uninterrupted := by
  have hparse := hm.parse_encode_append tail
  rw [← hbytes] at hparse
  obtain ⟨frame, s', hread⟩ := exists_read hs hparse hm.length_le
  obtain ⟨hgave, -⟩ := gave_of_read hread
  obtain rfl := eq_encode_of_read hm (by rw [hbytes]) hread
  exact ⟨s', runs_readMessage_some_iff.2 ⟨m.encode, hread, hm.decodeWithin⟩,
    List.append_cancel_left (hgave.bytes_eq.symm.trans hbytes), hgave.ending_eq,
    hgave.uninterrupted_iff.2 hs⟩

/-- Where the bytes to come are only the beginning of a message, no message is read, and the reading
does not end well either. -/
theorem fails_readMessage_of_cut {limit n : Nat} {s : Source} {m : Message} (hm : Survives limit m)
    (hpos : 0 < n) (hlt : n < m.encode.length) (hbytes : s.bytes = m.encode.take n) :
    ∃ e s', (readMessage limit).run.run s = (.error e, s') := by
  have hlen : s.bytes.length = n := by
    rw [hbytes, List.length_take]
    omega
  cases hrun : (readMessage limit).run.run s with
  | mk x s' =>
    cases x with
    | error e => exact ⟨e, s', rfl⟩
    | ok m? =>
      exfalso
      cases m? with
      | none =>
        have hnone := (runs_read_none_iff.1 (runs_readMessage_none_iff.1 hrun)).1
        have hempty : s.bytes = [] := by rw [Ber.Source.bytes, hnone, List.flatMap_nil]
        rw [hempty, List.length_nil] at hlen
        omega
      | some m' =>
        rcases runs_readMessage_some_iff.1 hrun with ⟨frame, hread, -⟩
        -- the frame would be the whole message, which is longer than what there is
        have hfront : s.bytes <+: m.encode ++ [] := by
          rw [hbytes, List.append_nil]
          exact List.take_prefix n m.encode
        have hframe := eq_encode_of_read hm hfront hread
        have heq := congrArg List.length (gave_of_read hread).1.bytes_eq
        rw [List.length_append, hframe] at heq
        omega

/-! ## Reading to the end -/

section ReadAll

variable {α : Type} {next : FrameM (Option α)} {s s' : Source}

/-- After a message the stream is read on, with one step less. -/
theorem readAll_of_some {a : α} (h : Runs next s (some a) s') (fuel : Nat) :
    readAll next (fuel + 1) s = (a :: (readAll next fuel s').1, (readAll next fuel s').2) := by
  rw [readAll, h]

theorem readAll_of_none (h : Runs next s none s') (fuel : Nat) :
    readAll next (fuel + 1) s = ([], none) := by
  rw [readAll, h]

theorem readAll_of_error {e : SessionError} (h : next.run.run s = (.error e, s')) (fuel : Nat) :
    readAll next (fuel + 1) s = ([], some e) := by
  rw [readAll, h]

end ReadAll

/-- Messages at the front of the bytes to come are read one after the other, and the reading goes on
with what follows them. -/
theorem exists_readAll {limit : Nat} {s : Source} {ms : List Message} {tail : List UInt8}
    (hs : s.Uninterrupted) (hms : ∀ m ∈ ms, Survives limit m)
    (hbytes : s.bytes = ms.flatMap Message.encode ++ tail) :
    ∃ s', s'.bytes = tail ∧ s'.ending = s.ending ∧ s'.Uninterrupted ∧ ∀ fuel,
      readAll (readMessage limit) (ms.length + fuel) s =
        (ms ++ (readAll (readMessage limit) fuel s').1,
          (readAll (readMessage limit) fuel s').2) := by
  -- on the messages, the first of which is read next
  induction ms generalizing s with
  | nil => exact ⟨s, hbytes, rfl, hs, fun fuel => by simp⟩
  | cons m ms ih =>
    rw [List.forall_mem_cons] at hms
    rw [List.flatMap_cons, List.append_assoc] at hbytes
    obtain ⟨s₁, hread, hbytes₁, hending₁, hs₁⟩ := exists_readMessage hs hms.1 hbytes
    obtain ⟨s', htail, hending, hs', hall⟩ := ih hs₁ hms.2 hbytes₁
    refine ⟨s', htail, hending.trans hending₁, hs', fun fuel => ?_⟩
    rw [List.length_cons, Nat.add_right_comm, readAll_of_some hread, hall]
    rfl

/-- Before an interruption, the next read fails or takes the message that stands first, and then the
interruption is still to come. -/
theorem readMessage_of_interrupted {limit : Nat} {s : Source} {ms : List Message}
    (hs : ¬ s.Uninterrupted) (hms : ∀ m ∈ ms, Survives limit m)
    (hbytes : s.bytes <+: ms.flatMap Message.encode) :
    (∃ e s', (readMessage limit).run.run s = (.error e, s')) ∨
    ∃ m ms' s', ms = m :: ms' ∧ Runs (readMessage limit) s (some m) s' ∧ ¬ s'.Uninterrupted ∧
      s'.bytes <+: ms'.flatMap Message.encode := by
  cases hrun : (readMessage limit).run.run s with
  | mk x s' =>
    rcases x with e | _ | m
    · exact .inl ⟨e, s', rfl⟩
    · have hnone := (runs_read_none_iff.1 (runs_readMessage_none_iff.1 hrun)).1
      exact absurd (by simp [Ber.Source.Uninterrupted, hnone]) hs
    · rcases runs_readMessage_some_iff.1 hrun with ⟨frame, hread, hdecode⟩
      obtain ⟨hgave, e, hframe, -⟩ := gave_of_read hread
      cases ms with
      | nil =>
        -- no frame is empty
        have hempty : frame = [] := by
          have := hgave.bytes_eq ▸ List.prefix_nil.1 hbytes
          exact (List.append_eq_nil_iff.1 this).1
        rw [hempty] at hframe
        cases hframe
      | cons m' ms' =>
        rw [List.forall_mem_cons] at hms
        rw [List.flatMap_cons] at hbytes
        obtain rfl := eq_encode_of_read hms.1 hbytes hread
        obtain rfl := Except.ok.inj (hms.1.decodeWithin.symm.trans hdecode)
        rw [hgave.bytes_eq, List.prefix_append_right_inj] at hbytes
        exact .inr ⟨m', ms', s', rfl, hrun, fun h => hs (hgave.uninterrupted_iff.1 h), hbytes⟩

/-- An interruption is never passed over: the first of the messages are read, and then there is an
error. -/
theorem exists_readAll_of_interrupted {limit : Nat} {s : Source} {ms : List Message}
    (hs : ¬ s.Uninterrupted) (hms : ∀ m ∈ ms, Survives limit m)
    (hbytes : s.bytes <+: ms.flatMap Message.encode) :
    ∃ k e, ∀ fuel > ms.length, readAll (readMessage limit) fuel s = (ms.take k, some e) := by
  rcases readMessage_of_interrupted hs hms hbytes with
    ⟨e, s', hfails⟩ | ⟨m, rest, s', rfl, hread, hs', hbytes'⟩
  · refine ⟨0, e, fun fuel hfuel => ?_⟩
    obtain ⟨more, rfl⟩ := Nat.exists_eq_add_of_lt hfuel
    exact readAll_of_error hfails _
  · -- the interruption is still to come, among fewer messages
    obtain ⟨k, e, hall⟩ :=
      exists_readAll_of_interrupted hs' (List.forall_mem_cons.1 hms).2 hbytes'
    refine ⟨k + 1, e, fun fuel hfuel => ?_⟩
    obtain ⟨more, rfl⟩ := Nat.exists_eq_add_of_lt hfuel
    rw [readAll_of_some hread, hall _ (by rw [List.length_cons]; omega)]
    rfl
termination_by ms.length

/-- Messages that each survive being written, none of them too long, are read off a source of their
bytes in order, however these are cut into pieces, and then the end is found. If the source breaks
off inside a message, those before it are read, and then there is an error. So it is if the source
is interrupted anywhere: nothing but the first of the messages is read then, and the reading does
not end well. A frame that was read, whatever it holds, is never found to have bytes left over. -/
theorem readAll_messages (limit : Nat) :
    (∀ (ms : List Message) (s : Source), s.Uninterrupted → (∀ m ∈ ms, Survives limit m) →
      s.bytes = ms.flatMap Message.encode → s.ending = .endOfInput →
      ∀ fuel > ms.length, readAll (readMessage limit) fuel s = (ms, none)) ∧
    (∀ (ms : List Message) (m : Message) (n : Nat) (s : Source), s.Uninterrupted →
      (∀ m' ∈ ms ++ [m], Survives limit m') → 0 < n → n < m.encode.length →
      s.bytes = ms.flatMap Message.encode ++ m.encode.take n →
      ∃ e, ∀ fuel > ms.length, readAll (readMessage limit) fuel s = (ms, some e)) ∧
    (∀ (ms : List Message) (s : Source), ¬ s.Uninterrupted → (∀ m ∈ ms, Survives limit m) →
      s.bytes <+: ms.flatMap Message.encode →
      ∃ k e, ∀ fuel > ms.length, readAll (readMessage limit) fuel s = (ms.take k, some e)) ∧
    (∀ (s s' : Source) (frame : List UInt8), Runs (read limit) s (some frame) s' →
      ∀ e, Message.decodeWithin limit frame = .error e → ¬ e.IsTrailing) := by
  refine ⟨?whole, ?cut, ?interrupted, ?frames⟩
  case whole =>
    intro ms s hs hms hbytes hending fuel hfuel
    obtain ⟨s', hrest, hending', hs', hall⟩ :=
      exists_readAll hs hms (hbytes.trans (List.append_nil _).symm)
    obtain ⟨more, rfl⟩ := Nat.exists_eq_add_of_lt hfuel
    have hend : Runs (readMessage limit) s' none s' := runs_readMessage_none_iff.2
      (runs_read_none_iff.2 ⟨hs'.pieces_eq_nil hrest, hending'.trans hending, rfl⟩)
    rw [Nat.add_assoc, hall, readAll_of_none hend, List.append_nil]
  case cut =>
    intro ms m n s hs hms hpos hlt hbytes
    rw [List.forall_mem_append] at hms
    obtain ⟨s', hrest, -, -, hall⟩ := exists_readAll hs hms.1 hbytes
    obtain ⟨e, s'', hfails⟩ := fails_readMessage_of_cut (hms.2 m (by simp)) hpos hlt hrest
    refine ⟨e, fun fuel hfuel => ?_⟩
    obtain ⟨more, rfl⟩ := Nat.exists_eq_add_of_lt hfuel
    rw [Nat.add_assoc, hall, readAll_of_error hfails, List.append_nil]
  case interrupted =>
    intro ms s hs hms hbytes
    exact exists_readAll_of_interrupted hs hms hbytes
  case frames =>
    intro s s' frame hread e he
    obtain ⟨-, element, hframe, -⟩ := gave_of_read hread
    exact Message.not_isTrailing_of_decodeWithin hframe he

/-- The ends of two updates, the first in pieces that break off inside its header; the same with the
second cut short by a failure, and with an interruption between the two; and a frame that is no
message. -/
theorem readAll_two_ends :
    let m : Message := ⟨1, .done .modify ⟨⟨0⟩, none, none, []⟩, []⟩
    let m' : Message := ⟨2, .done .add ⟨⟨32⟩, some "dc=x", none, []⟩, []⟩
    let first : List Ber.Piece := [.data 0x30 [], .data 0x0c [0x02, 0x01, 0x01],
      .data 0x67 [0x07, 0x0a, 0x01, 0x00, 0x04, 0x00, 0x04, 0x00]]
    let second := [0x30, 0x10, 0x02, 0x01, 0x02, 0x69, 0x0b, 0x0a, 0x01, 0x20, 0x04, 0x04, 0x64,
      0x63, 0x3d, 0x78, 0x04, 0x00]
    let odd : Source := .ofBytes [0x04, 0x01, 0x30, 0x00]
    (∀ m'' ∈ [m] ++ [m'], Survives 16 m'') ∧
      readAll (readMessage 16) 3 ⟨first ++ Source.restore second [], .endOfInput⟩
        = ([m, m'], none) ∧
      (∃ e, readAll (readMessage 16) 2
        ⟨first ++ Source.restore (second.take 7) [], .failure "reset"⟩ = ([m], some e)) ∧
      (∃ k e, readAll (readMessage 16) 3
        ⟨first ++ .interruption :: Source.restore second [], .endOfInput⟩
          = ([m, m'].take k, some e)) ∧
      Runs (read 16) odd (some [0x04, 0x01, 0x30]) (.ofBytes [0x00]) ∧
      ∀ e, Message.decodeWithin 16 [0x04, 0x01, 0x30] = .error e → ¬ e.IsTrailing := by
  intro m m' first second odd
  have hms : ∀ m'' ∈ [m] ++ [m'], Survives 16 m'' := by
    intro m'' h
    rcases List.mem_pair.1 h with rfl | rfl
    · exact ⟨by decide +kernel, by decide +kernel⟩
    · exact ⟨by decide +kernel, by decide +kernel⟩
  have hodd : Runs (read 16) odd (some [0x04, 0x01, 0x30]) (.ofBytes [0x00]) := by
    decide +kernel
  obtain ⟨hwhole, hcut, hinterrupted, hframes⟩ := readAll_messages 16
  obtain ⟨e, he⟩ := hcut [m] m' 7 ⟨first ++ Source.restore (second.take 7) [], .failure "reset"⟩
    (by decide) hms (by decide) (by decide +kernel) (by decide +kernel)
  obtain ⟨k, e', he'⟩ := hinterrupted [m, m']
    ⟨first ++ .interruption :: Source.restore second [], .endOfInput⟩ (by decide) hms
    (by rw [show Source.bytes _ = [m, m'].flatMap Message.encode by decide +kernel])
  exact ⟨hms, hwhole [m, m'] _ (by decide) hms (by decide +kernel) rfl 3 (by decide),
    ⟨e, he 2 (by decide)⟩, ⟨k, e', he' 3 (by decide)⟩, hodd, hframes odd _ _ hodd⟩

end Frame
end Ldap
