import Ldap.Proofs.Ber.Refusal
import Ldap.Proofs.Ber.Walk

/-!
# Elements at the front of bytes that are still to come

Bytes that arrive piece by piece are looked at again and again until an element is found in front
of them. What is found stays when more bytes arrive (`Element.parse_append`), and so does what is
wrong with a header (`Element.parse_append_of_error`). As long as bytes are missing, it is known how
many are needed at least (`Element.parse_of_truncated`).
-/

namespace Ldap.Ber

/-! ## Lengths that are cut short -/

namespace Length

/-- A first byte is refused for its form, whatever follows it. -/
theorem continuationCount_ne_truncated (first : UInt8) (needed available : Nat) :
    continuationCount first ≠ .error (.truncated needed available) := by
  unfold continuationCount
  split
  · simp
  dsimp only
  split
  · simp
  split <;> simp

theorem decode_cons_of_count {first : UInt8} {count : Nat}
    (h : continuationCount first = .ok count) (rest : List UInt8) :
    decode (first :: rest) =
      if rest.length < count then .error (.truncated (count + 1) (rest.length + 1))
      else .ok (assemble first (rest.take count), rest.drop count) := by
  rw [decode, h]
  rfl

theorem decode_cons_of_error {first : UInt8} {e : Error} (h : continuationCount first = .error e)
    (rest : List UInt8) : decode (first :: rest) = .error e := by
  rw [decode, h]
  rfl

/-- What is wrong with a length stays wrong when more bytes follow. -/
theorem decode_append_of_error {bytes : List UInt8} {e : Error} (h : decode bytes = .error e)
    (hwrong : ∀ needed available, e ≠ .truncated needed available) (tail : List UInt8) :
    decode (bytes ++ tail) = .error e := by
  cases bytes with
  | nil => exact absurd (Except.error.inj h).symm (hwrong 1 0)
  | cons first rest =>
    cases hcount : continuationCount first with
    | error e' =>
      rw [decode_cons_of_error hcount] at h
      rw [List.cons_append, decode_cons_of_error hcount, h]
    | ok count =>
      rw [decode_cons_of_count hcount] at h
      split at h
      · exact absurd (Except.error.inj h).symm (hwrong _ _)
      · cases h

/-- A length that is cut short needs as many bytes until it has them, and can be completed. -/
theorem decode_of_truncated {bytes : List UInt8} {needed available : Nat}
    (h : decode bytes = .error (.truncated needed available)) :
    available = bytes.length ∧ bytes.length < needed ∧
      (∀ tail, (bytes ++ tail).length < needed →
        decode (bytes ++ tail) = .error (.truncated needed (bytes ++ tail).length)) ∧
      ∃ tail n, decode (bytes ++ tail) = .ok (n, []) := by
  cases bytes with
  | nil =>
    simp only [decode, Except.error.injEq, Error.truncated.injEq] at h
    obtain ⟨rfl, rfl⟩ := h
    refine ⟨rfl, Nat.one_pos, fun tail htail => ?_, [0], 0, rfl⟩
    rw [List.nil_append] at htail ⊢
    rw [List.eq_nil_of_length_eq_zero (Nat.lt_one_iff.1 htail)]
    rfl
  | cons first rest =>
    cases hcount : continuationCount first with
    | error e =>
      rw [decode_cons_of_error hcount] at h
      rw [Except.error.inj h] at hcount
      exact absurd hcount (continuationCount_ne_truncated first _ _)
    | ok count =>
      rw [decode_cons_of_count hcount] at h
      split at h
      · next hlt =>
        simp only [Except.error.injEq, Error.truncated.injEq] at h
        obtain ⟨rfl, rfl⟩ := h
        refine ⟨rfl, Nat.succ_lt_succ hlt, fun tail htail => ?_,
          List.replicate (count - rest.length) 0, ?_⟩
        · rw [List.cons_append, List.length_cons] at htail
          rw [List.cons_append, decode_cons_of_count hcount, if_pos (Nat.succ_lt_succ_iff.1 htail)]
          rfl
        · have hlen : (rest ++ List.replicate (count - rest.length) 0).length = count := by
            rw [List.length_append, List.length_replicate]
            omega
          rw [List.cons_append, decode_cons_of_count hcount, if_neg (by omega),
            List.drop_of_length_le hlen.le]
          exact ⟨_, rfl⟩
      · cases h

end Length

/-! ## Elements that are cut short -/

namespace Element

/-- What is wrong with the header of an element stays wrong when more bytes follow. -/
theorem parse_append_of_error {bytes : List UInt8} {e : Error} (h : parse bytes = .error e)
    (hwrong : ∀ needed available, e ≠ .truncated needed available) (tail : List UInt8) :
    parse (bytes ++ tail) = .error e := by
  cases bytes with
  | nil => exact absurd (Except.error.inj h).symm (hwrong 2 0)
  | cons tag body =>
    simp only [parse] at h
    split at h
    · exact absurd (Except.error.inj h).symm (hwrong _ _)
    · next e' hne hlength =>
      obtain rfl := Except.error.inj h
      have hlonger := Length.decode_append_of_error hlength hwrong tail
      rw [List.cons_append]
      simp only [parse, hlonger]
    · split at h
      · exact absurd (Except.error.inj h).symm (hwrong _ _)
      · cases h

/-- An element that is cut short needs as many bytes until it has them, and can be completed. -/
theorem parse_of_truncated {bytes : List UInt8} {needed available : Nat}
    (h : parse bytes = .error (.truncated needed available)) :
    available = bytes.length ∧ bytes.length < needed ∧
      (∀ tail, (bytes ++ tail).length < needed →
        parse (bytes ++ tail) = .error (.truncated needed (bytes ++ tail).length)) ∧
      ∃ tail e, parse (bytes ++ tail) = .ok (e, []) := by
  cases bytes with
  | nil =>
    simp only [parse, Except.error.injEq, Error.truncated.injEq] at h
    obtain ⟨rfl, rfl⟩ := h
    refine ⟨rfl, Nat.two_pos, fun tail htail => ?_, [0, 0], ⟨0, []⟩, rfl⟩
    rw [List.nil_append] at htail ⊢
    -- there is no byte, or a tag alone
    cases tail with
    | nil => rfl
    | cons tag tail =>
      rw [List.eq_nil_of_length_eq_zero (Nat.lt_one_iff.1 (Nat.succ_lt_succ_iff.1 htail))]
      rfl
  | cons tag body =>
    cases hlength : Length.decode body with
    | error e =>
      cases e with
      | truncated k a =>
        obtain ⟨-, hlt, hshort, completion, n, hcomplete⟩ := Length.decode_of_truncated hlength
        simp only [parse, hlength, Except.error.injEq, Error.truncated.injEq] at h
        obtain ⟨rfl, rfl⟩ := h
        refine ⟨rfl, Nat.succ_lt_succ hlt, fun tail htail => ?_,
          completion ++ List.replicate n 0, ⟨tag, List.replicate n 0⟩, ?_⟩
        · have hlonger := hshort tail (Nat.succ_lt_succ_iff.1 htail)
          rw [List.cons_append]
          simp only [parse, hlonger, List.length_cons]
        · have hlonger := Length.decode_append hcomplete (List.replicate n 0)
          rw [List.append_assoc, List.nil_append] at hlonger
          exact parse_cons_eq_ok_iff.2 ⟨n, _, hlonger, by simp, by simp, by simp⟩
      | _ =>
        simp only [parse, hlength] at h
        cases h
    | ok x =>
      obtain ⟨n, rest⟩ := x
      have hshorter := length_rest_lt_of_decode hlength
      simp only [parse, hlength] at h
      split at h
      · next hlt =>
        simp only [Except.error.injEq, Error.truncated.injEq] at h
        obtain ⟨rfl, rfl⟩ := h
        refine ⟨rfl, ?_, fun tail htail => ?_, List.replicate (n - rest.length) 0, ?_⟩
        · rw [List.length_cons]
          omega
        · have hlonger := Length.decode_append hlength tail
          simp only [List.cons_append, List.length_cons, List.length_append] at htail ⊢
          simp only [parse, hlonger, List.length_append]
          rw [if_pos (by omega)]
          congr 2
          omega
        · have hlonger := Length.decode_append hlength (List.replicate (n - rest.length) 0)
          have hlen : (rest ++ List.replicate (n - rest.length) (0 : UInt8)).length = n := by
            rw [List.length_append, List.length_replicate]
            omega
          exact ⟨_, parse_cons_eq_ok_iff.2
            ⟨n, _, hlonger, hlen.ge, rfl, (List.drop_of_length_le hlen.le).symm⟩⟩
      · cases h

/-- What was written of an element is cut short as long as it is not all there. -/
theorem parse_take_encode {e : Element} (hshort : e.Short) {k : Nat} (hk : k < e.encode.length) :
    ∃ needed, parse (e.encode.take k) = .error (.truncated needed k) := by
  have hsplit : e.encode.take k ++ e.encode.drop k = e.encode := List.take_append_drop k e.encode
  have hwhole : parse e.encode = .ok (e, []) := by
    have hparse := parse_encode hshort []
    rwa [List.append_nil] at hparse
  cases h : parse (e.encode.take k) with
  | ok x =>
    obtain ⟨e', rest⟩ := x
    -- what is left of the encoding would be left of the element
    have hlonger := parse_append h (e.encode.drop k)
    rw [hsplit, hwhole] at hlonger
    have hnil : rest ++ e.encode.drop k = [] := (congrArg Prod.snd (Except.ok.inj hlonger)).symm
    have hdrop := List.drop_eq_nil_iff.1 (List.append_eq_nil_iff.1 hnil).2
    omega
  | error fault =>
    by_cases hcut : ∃ needed available, fault = .truncated needed available
    · obtain ⟨needed, available, rfl⟩ := hcut
      obtain ⟨havailable, -⟩ := parse_of_truncated h
      rw [List.length_take, Nat.min_eq_left hk.le] at havailable
      exact ⟨needed, by rw [havailable]⟩
    · have hlonger :=
        parse_append_of_error h (fun n a hfault => hcut ⟨n, a, hfault⟩) (e.encode.drop k)
      rw [hsplit, hwhole] at hlonger
      cases hlonger

theorem parse_ne_elementTooLarge (bytes : List UInt8) (length limit : Nat) :
    parse bytes ≠ .error (.elementTooLarge length limit) := by
  intro h
  exact (parse_refuses bytes).of_eq_error h

/-! ## Reading from the front -/

/-- A length that is accepted and what it counts end within 64 bits. -/
theorem stop_lt {body rest : List UInt8} {n : Nat} (h : Length.decode body = .ok (n, rest)) :
    1 + (body.length - rest.length) + n < UInt64.size := by
  obtain ⟨spelled, hspelled, rfl⟩ := Length.decode_eq_ok_iff_spelled.1 h
  have hfive := hspelled.length_le
  have hlt := hspelled.encodedSize_le.1
  rw [List.length_append, Nat.add_sub_cancel, UInt64.size]
  omega

/-- The number of bytes is what is taken off the front, and the end is always one of 64 bits. -/
theorem decodePrefix_eq_map (bytes : List UInt8) :
    decodePrefix bytes = (parse bytes).map fun x => (x.1, bytes.length - x.2.length) := by
  cases bytes with
  | nil => rfl
  | cons tag body =>
    cases hlength : Length.decode body with
    | error e => cases e <;> simp only [decodePrefix, parse, hlength, Except.map]
    | ok x =>
      obtain ⟨n, rest⟩ := x
      have hshorter := length_rest_lt_of_decode hlength
      simp only [decodePrefix, parse, hlength]
      rw [if_neg (stop_lt hlength).not_ge]
      by_cases hcut : rest.length < n
      · rw [if_pos (by omega), if_pos hcut, Except.map, Nat.add_sub_assoc hshorter.le]
      · rw [if_neg (by omega), if_neg hcut]
        simp only [Except.map, List.length_cons, List.length_drop]
        congr 2
        omega

theorem decodePrefix_eq_error_iff {bytes : List UInt8} {fault : Error} :
    decodePrefix bytes = .error fault ↔ parse bytes = .error fault := by
  rw [decodePrefix_eq_map]
  cases parse bytes <;> simp [Except.map]

/-- What is found is an element by itself, which stands in front of the bytes. -/
theorem decodePrefix_eq_ok_iff {bytes : List UInt8} {e : Element} {n : Nat} :
    decodePrefix bytes = .ok (e, n) ↔
      ∃ head rest, decode head = .ok e ∧ bytes = head ++ rest ∧ n = head.length := by
  rw [decodePrefix_eq_map]
  constructor
  · intro h
    cases hparse : parse bytes with
    | error fault =>
      rw [hparse] at h
      cases h
    | ok x =>
      obtain ⟨e', rest⟩ := x
      rw [hparse] at h
      cases h
      obtain ⟨head, rfl, hhead⟩ := exists_spelling_of_parse hparse
      exact ⟨head, rest, decode_eq_ok_iff.2 (by simpa using hhead []), rfl, by simp⟩
  · rintro ⟨head, rest, hdecode, rfl, rfl⟩
    have hparse := parse_append (decode_eq_ok_iff.1 hdecode) rest
    simp [hparse, Except.map]

/-- A way to read elements from the front of bytes that may be looked at while they arrive. -/
structure Incremental (read : List UInt8 → Except Error (Element × Nat)) : Prop where
  /-- What is found is there, and is found again when more bytes follow. -/
  found : ∀ {bytes e n}, read bytes = .ok (e, n) →
    n ≤ bytes.length ∧ ∀ more, read (bytes ++ more) = .ok (e, n)
  /-- Bytes that are cut short are all taken note of. They can be completed, but as long as they are
  fewer than are needed, as many are needed. -/
  missing : ∀ {bytes needed available}, read bytes = .error (.truncated needed available) →
    available = bytes.length ∧ bytes.length < needed ∧
      (∃ more e n, read (bytes ++ more) = .ok (e, n)) ∧
      ∀ more, (bytes ++ more).length < needed →
        read (bytes ++ more) = .error (.truncated needed (bytes ++ more).length)
  /-- Anything else that is wrong stays wrong. -/
  wrong : ∀ {bytes fault}, read bytes = .error fault →
    (∀ needed available, fault ≠ .truncated needed available) →
    ∀ more, read (bytes ++ more) = .error fault
  /-- No element is too large. -/
  unlimited : ∀ bytes length limit, read bytes ≠ .error (.elementTooLarge length limit)
  /-- What is written is found, whatever follows, and is cut short while it is not all there. -/
  written : ∀ {e : Element}, e.content.length < 2 ^ 32 →
    (∀ more, read (e.encode ++ more) = .ok (e, e.encodedLength)) ∧
      ∀ k < e.encode.length, ∃ needed, read (e.encode.take k) = .error (.truncated needed k)
  /-- What is found is a tag, a length and content. It is what is written for the element exactly if
  the length is as short as any that says the same. -/
  shortest : ∀ {bytes e n}, read bytes = .ok (e, n) →
    ∃ length, bytes.take n = e.tag :: (length ++ e.content) ∧
      Length.decode length = .ok (e.content.length, []) ∧
      (e.encode = bytes.take n ↔ ∀ other, Length.decode other = .ok (e.content.length, []) →
        length.length ≤ other.length)

/-- The bytes of an element are what is written for it exactly if the length is a shortest one. -/
theorem encode_eq_take_iff {bytes : List UInt8} {e : Element} {n : Nat}
    (h : decodePrefix bytes = .ok (e, n)) :
    ∃ length, bytes.take n = e.tag :: (length ++ e.content) ∧
      Length.decode length = .ok (e.content.length, []) ∧
      (e.encode = bytes.take n ↔ ∀ other, Length.decode other = .ok (e.content.length, []) →
        length.length ≤ other.length) := by
  obtain ⟨head, rest, hdecode, rfl, rfl⟩ := decodePrefix_eq_ok_iff.1 h
  obtain ⟨length, hspelled, rfl⟩ := decode_eq_ok_iff_spelled.1 hdecode
  -- bytes are a length by themselves exactly if they spell it
  have hwhole (other : List UInt8) :
      Length.decode other = .ok (e.content.length, []) ↔
        Length.Spelled other e.content.length := by
    rw [Length.decode_eq_ok_iff_spelled]
    simp
  refine ⟨length, List.take_left, (hwhole length).2 hspelled, ?_⟩
  simp only [hwhole]
  rw [← hspelled.eq_encode_iff, List.take_left, encode, List.cons_inj_right,
    List.append_cancel_right_eq]
  exact eq_comm

/-- Elements are read from the front of bytes that may be looked at while they arrive. -/
theorem decodePrefix_incremental : Incremental decodePrefix where
  found h := by
    obtain ⟨head, rest, hdecode, rfl, rfl⟩ := decodePrefix_eq_ok_iff.1 h
    refine ⟨by simp, fun more => decodePrefix_eq_ok_iff.2 ⟨head, rest ++ more, hdecode, ?_, rfl⟩⟩
    rw [List.append_assoc]
  missing {bytes needed available} h := by
    obtain ⟨havailable, hlt, hshort, more, e, hwhole⟩ :=
      parse_of_truncated (decodePrefix_eq_error_iff.1 h)
    refine ⟨havailable, hlt, ⟨more, e, (bytes ++ more).length, ?_⟩,
      fun more hmore => decodePrefix_eq_error_iff.2 (hshort more hmore)⟩
    exact decodePrefix_eq_ok_iff.2
      ⟨_, [], decode_eq_ok_iff.2 hwhole, (List.append_nil _).symm, rfl⟩
  wrong h hwrong more :=
    decodePrefix_eq_error_iff.2 (parse_append_of_error (decodePrefix_eq_error_iff.1 h) hwrong more)
  unlimited bytes length limit h :=
    parse_ne_elementTooLarge bytes length limit (decodePrefix_eq_error_iff.1 h)
  written {e} hshort := by
    constructor
    · intro more
      exact decodePrefix_eq_ok_iff.2
        ⟨e.encode, more, decode_encode hshort, rfl, (length_encode e).symm⟩
    · intro k hk
      obtain ⟨needed, hcut⟩ := parse_take_encode hshort hk
      exact ⟨needed, decodePrefix_eq_error_iff.2 hcut⟩
  shortest h := encode_eq_take_iff h

/-- A length in the long form is accepted where the short one would do, but it is not written. -/
example : decodePrefix [0x04, 0x81, 0x01, 0x61, 0x05] = .ok (⟨0x04, [0x61]⟩, 4) := by
  decide

end Element
end Ldap.Ber
