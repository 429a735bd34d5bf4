import Ldap.Ber.Source
import Mathlib.Tactic

/-!
# What is read from a source

However a source cuts its bytes into pieces, and however often it is interrupted, `Source.fill`
takes the next bytes off it, and says how the source ended only if there were too few.
-/

namespace Ldap.Ber.Source

/-- Bytes that are put in front of the pieces are the first ones to come. -/
theorem bytes_restore (bytes : List UInt8) (pieces : List Piece) :
    (restore bytes pieces).flatMap Piece.bytes = bytes ++ pieces.flatMap Piece.bytes := by
  cases bytes <;> simp [restore, Piece.bytes]

@[simp] theorem bytes_ofBytes (bytes : List UInt8) : (ofBytes bytes).bytes = bytes := by
  have h := bytes_restore bytes []
  rwa [List.flatMap_nil, List.append_nil] at h

/-- What one request gets is the next of the bytes. -/
theorem bytes_of_read_bytes {s s' : Source} {room : Nat} {b : UInt8} {bs : List UInt8}
    (h : s.read room = (.bytes b bs, s')) :
    s.bytes = b :: bs ++ s'.bytes ∧ bs.length ≤ room ∧ s'.ending = s.ending := by
  rcases s with ⟨pieces, ending⟩
  match pieces with
  | [] => cases ending <;> simp [read] at h
  | .interruption :: pieces => simp [read] at h
  | .data first rest :: pieces =>
    simp only [read, Prod.mk.injEq, Reading.bytes.injEq] at h
    rcases h with ⟨⟨rfl, rfl⟩, rfl⟩
    refine ⟨?_, by simp, rfl⟩
    simp only [bytes, List.flatMap_cons, Piece.bytes, bytes_restore]
    rw [List.cons_append, List.cons_append, ← List.append_assoc, List.take_append_drop]

/-- An interruption changes nothing but the requests that are left. -/
theorem bytes_of_read_interrupted {s s' : Source} {room : Nat}
    (h : s.read room = (.interrupted, s')) : s'.bytes = s.bytes ∧ s'.ending = s.ending := by
  rcases s with ⟨pieces, ending⟩
  match pieces with
  | [] => cases ending <;> simp [read] at h
  | .data first rest :: pieces => simp [read] at h
  | .interruption :: pieces =>
    simp only [read, Prod.mk.injEq] at h
    rcases h with ⟨_, rfl⟩
    exact ⟨rfl, rfl⟩

/-- A source that has ended had no bytes left, and stays as it is. -/
theorem bytes_of_read_ended {s s' : Source} {room : Nat} (h : s.read room = (.ended, s')) :
    s.bytes = [] ∧ s.ending = .endOfInput ∧ s' = s := by
  rcases s with ⟨pieces, ending⟩
  match pieces with
  | [] =>
    cases ending with
    | endOfInput =>
      cases h
      exact ⟨rfl, rfl, rfl⟩
    | failure reason => simp [read] at h
  | .data first rest :: pieces => simp [read] at h
  | .interruption :: pieces => simp [read] at h

/-- A source that fails had no bytes left, and fails again with the same reason. -/
theorem bytes_of_read_failed {s s' : Source} {room : Nat} {reason : String}
    (h : s.read room = (.failed reason, s')) :
    s.bytes = [] ∧ s.ending = .failure reason ∧ s' = s := by
  rcases s with ⟨pieces, ending⟩
  match pieces with
  | [] =>
    cases ending with
    | endOfInput => simp [read] at h
    | failure reason =>
      cases h
      exact ⟨rfl, rfl, rfl⟩
  | .data first rest :: pieces => simp [read] at h
  | .interruption :: pieces => simp [read] at h

/-! ## Filling -/

/-- What a read gives is followed by what fills the room that it left. -/
theorem fill_of_bytes {s s' : Source} {room : Nat} {b : UInt8} {bs : List UInt8}
    (h : s.read room = (.bytes b bs, s')) :
    s.fill (room + 1) =
      ((b :: bs ++ (s'.fill (room - bs.length)).1.1, (s'.fill (room - bs.length)).1.2),
        (s'.fill (room - bs.length)).2) := by
  rw [fill]
  split <;> simp_all

/-- A read that is interrupted is made again. -/
theorem fill_of_interrupted {s s' : Source} {room : Nat} (h : s.read room = (.interrupted, s')) :
    s.fill (room + 1) = s'.fill (room + 1) := by
  rw [fill]
  split <;> simp_all

/-- A source that has ended gives fewer bytes than there is room for. -/
theorem fill_of_ended {s s' : Source} {room : Nat} (h : s.read room = (.ended, s')) :
    s.fill (room + 1) = (([], some .endOfInput), s') := by
  rw [fill]
  split <;> simp_all

theorem fill_of_failed {s s' : Source} {room : Nat} {reason : String}
    (h : s.read room = (.failed reason, s')) :
    s.fill (room + 1) = (([], some (.failure reason)), s') := by
  rw [fill]
  split <;> simp_all

/-- A source gives the bytes that it is asked for, as far as it has them, and keeps the others. -/
theorem fill_eq (s : Source) (n : Nat) :
    (s.fill n).1 = (s.bytes.take n, if s.bytes.length < n then some s.ending else none) ∧
      (s.fill n).2.bytes = s.bytes.drop n ∧ (s.fill n).2.ending = s.ending := by
  -- on the requests, each of which the source answers in one of four ways
  induction s, n using fill.induct with
  | case1 s =>
    rw [fill]
    simp
  | case2 s room b bs s' h _ _ _ _ _ ih =>
    obtain ⟨hbytes, hlen, hending⟩ := bytes_of_read_bytes h
    rcases ih with ⟨hgot, hrest, hkept⟩
    -- what was got counts towards what is wanted
    have hsplit : room + 1 = (b :: bs).length + (room - bs.length) := by
      rw [List.length_cons]
      omega
    rw [fill_of_bytes h, hgot, hrest, hkept, hbytes, hending, Nat.succ_eq_add_one, hsplit,
      List.take_length_add_append, List.drop_length_add_append, List.length_append]
    simp only [Nat.add_lt_add_iff_left, and_self]
  | case3 s room s' h _ ih =>
    obtain ⟨hbytes, hending⟩ := bytes_of_read_interrupted h
    rw [fill_of_interrupted h, ← hbytes, ← hending]
    exact ih
  | case4 s room s' h =>
    obtain ⟨hbytes, hending, rfl⟩ := bytes_of_read_ended h
    simp [fill_of_ended h, hbytes, hending]
  | case5 s room reason s' h =>
    obtain ⟨hbytes, hending, rfl⟩ := bytes_of_read_failed h
    simp [fill_of_failed h, hbytes, hending]

end Ldap.Ber.Source
