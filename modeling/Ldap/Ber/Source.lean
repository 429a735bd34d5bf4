/-!
# Byte sources

A source gives its bytes in pieces, may be interrupted between them, and then ends or fails for
good. `read` is one request to the source; `fill` repeats it until a wanted number of bytes is
there, passing over interruptions.
-/

namespace Ldap.Ber

/-- One thing a source does. -/
inductive Piece where
  /-- Has the bytes `first :: rest` at hand. -/
  | data (first : UInt8) (rest : List UInt8)
  /-- Turns one request away, to be repeated. -/
  | interruption
  deriving DecidableEq, Repr

/-- How a source stops. -/
inductive Ending where
  | endOfInput
  | failure (reason : String)
  deriving DecidableEq, Repr

/-- What a source will do: its pieces in order, then its ending for ever. -/
structure Source where
  pieces : List Piece
  ending : Ending
  deriving DecidableEq, Repr

/-- The answer to one request for bytes. -/
inductive Reading where
  /-- At least one byte, and no more than there was room for. -/
  | bytes (first : UInt8) (rest : List UInt8)
  | interrupted
  | ended
  | failed (reason : String)
  deriving DecidableEq, Repr

/-- The bytes of a piece. -/
def Piece.bytes : Piece → List UInt8
  | .data first rest => first :: rest
  | .interruption => []

namespace Source

/-- The bytes that a source has yet to give. -/
def bytes (s : Source) : List UInt8 :=
  s.pieces.flatMap Piece.bytes

/-- Puts back bytes of a piece that was not wholly taken. -/
def restore (bytes : List UInt8) (pieces : List Piece) : List Piece :=
  match bytes with
  | [] => pieces
  | first :: rest => .data first rest :: pieces

/-- One request for at most `room + 1` bytes. -/
def read (s : Source) (room : Nat) : Reading × Source :=
  match s.pieces with
  | [] =>
    match s.ending with
    | .endOfInput => (.ended, s)
    | .failure reason => (.failed reason, s)
  | .interruption :: pieces => (.interrupted, { s with pieces })
  | .data first rest :: pieces =>
    (.bytes first (rest.take room), { s with pieces := restore (rest.drop room) pieces })

/-- A bound on the requests that a source answers before it stops. -/
def weight (s : Source) : Nat :=
  (s.pieces.flatMap Piece.bytes).length + s.pieces.length

private theorem weight_restore (bytes : List UInt8) (pieces : List Piece) :
    ((restore bytes pieces).flatMap Piece.bytes).length + (restore bytes pieces).length
      ≤ bytes.length + 1 + ((pieces.flatMap Piece.bytes).length + pieces.length) := by
  cases bytes with
  | nil => simp [restore]
  | cons first rest =>
    simp only [restore, List.flatMap_cons, List.length_append, Piece.bytes, List.length_cons]
    omega

theorem weight_lt_of_read_bytes {s s' : Source} {room : Nat} {b : UInt8} {bs : List UInt8}
    (h : s.read room = (.bytes b bs, s')) : s'.weight < s.weight := by
  obtain ⟨pieces, ending⟩ := s
  match pieces with
  | [] => cases ending <;> simp [read] at h
  | .interruption :: pieces => simp [read] at h
  | .data first rest :: pieces =>
    simp only [read, Prod.mk.injEq] at h
    obtain ⟨_, rfl⟩ := h
    have hle := weight_restore (rest.drop room) pieces
    simp only [weight, List.flatMap_cons, List.length_append, Piece.bytes, List.length_cons,
      List.length_drop] at hle ⊢
    omega

theorem weight_lt_of_read_interrupted {s s' : Source} {room : Nat}
    (h : s.read room = (.interrupted, s')) : s'.weight < s.weight := by
  obtain ⟨pieces, ending⟩ := s
  match pieces with
  | [] => cases ending <;> simp [read] at h
  | .data first rest :: pieces => simp [read] at h
  | .interruption :: pieces =>
    simp only [read, Prod.mk.injEq] at h
    obtain ⟨_, rfl⟩ := h
    simp [weight, Piece.bytes]

/-- Requests bytes until there are `n` more of them or the source stops. The bytes come with the
ending that cut them short, if one did. -/
def fill (s : Source) (n : Nat) : (List UInt8 × Option Ending) × Source :=
  match n with
  | 0 => (([], none), s)
  | room + 1 =>
    match h : s.read room with
    | (.bytes b bs, s') =>
      have : s'.weight < s.weight := weight_lt_of_read_bytes h
      let ((more, ending), s'') := s'.fill (room - bs.length)
      ((b :: bs ++ more, ending), s'')
    | (.interrupted, s') =>
      have : s'.weight < s.weight := weight_lt_of_read_interrupted h
      s'.fill (room + 1)
    | (.ended, s') => (([], some .endOfInput), s')
    | (.failed reason, s') => (([], some (.failure reason)), s')
termination_by s.weight

/-! ## Building sources -/

/-- Cuts bytes into pieces of `size` bytes, the last one shorter. -/
def cut (size : Nat) (bytes : List UInt8) : List Piece :=
  match bytes with
  | [] => []
  | first :: rest => .data first (rest.take (size - 1)) :: cut size (rest.drop (size - 1))
termination_by bytes.length

/-- A source of all the bytes in one piece. -/
def ofBytes (bytes : List UInt8) : Source :=
  ⟨restore bytes [], .endOfInput⟩

/-- A source of pieces of at most `size` bytes, or of one piece if `size` is zero. -/
def ofPieces (size : Nat) (bytes : List UInt8) (ending : Ending) : Source :=
  ⟨if size = 0 then restore bytes [] else cut size bytes, ending⟩

/-- The same source with an interruption before each piece. -/
def withInterruptions (s : Source) : Source :=
  { s with pieces := s.pieces.flatMap fun p => [.interruption, p] }

end Source
end Ldap.Ber
