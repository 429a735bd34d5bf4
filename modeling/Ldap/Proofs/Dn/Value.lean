import Ldap.Proofs.Dn.Grammar
import Ldap.Proofs.Text.Join
import Mathlib.Tactic

/-!
# Values as they are written

A value is written in tokens that the reader of names understands, so that it is read back
(`valueSpelled_escape`), and in its normal form the signs that end a value stand behind backslashes
only (`sealed_normalize`).
-/

namespace Ldap

open Text (Sealed)

/-! ## Characters and bytes -/

/-- A text is encoded character by character. -/
theorem Text.Utf8.encode_eq_flatMap (s : String) :
    encode s = s.toList.flatMap String.utf8EncodeChar := by
  rw [encode, ← String.utf8Encode_toList, List.utf8Encode, List.data_toByteArray]

theorem utf8EncodeChar_of_lt {c : Char} (h : c.toNat < 128) :
    String.utf8EncodeChar c = [UInt8.ofNat c.toNat] := by
  have hall : ∀ n : Fin 128,
      String.utf8EncodeChar (Char.ofNat n.val) = [UInt8.ofNat n.val] := by decide +kernel
  have hc := hall ⟨c.toNat, h⟩
  rwa [Char.ofNat_toNat] at hc

/-- A byte that no character begins with begins no text. -/
theorem Text.Utf8.decode?_cons_eq_none {b : UInt8} (h : ¬ b.IsUTF8FirstByte)
    (bytes : List UInt8) : decode? (b :: bytes) = none := by
  refine Option.eq_none_iff_forall_ne_some.2 fun s hs => h ?_
  have hbytes := decode?_eq_some_iff.1 hs
  rw [encode_eq_flatMap] at hbytes
  cases hcs : s.toList with
  | nil =>
    rw [hcs] at hbytes
    cases hbytes
  | cons c cs =>
    rw [hcs, List.flatMap_cons] at hbytes
    have hpos : 0 < (String.utf8EncodeChar c).length := by simp [Char.utf8Size_pos]
    have hfirst : (String.utf8EncodeChar c)[0] = b := by
      have hget := congrArg (·[0]?) hbytes
      rw [List.getElem?_append_left hpos, List.getElem?_eq_getElem hpos] at hget
      exact Option.some.inj hget
    rw [← hfirst]
    exact UInt8.isUTF8FirstByte_getElem_zero_utf8EncodeChar

namespace Scan

/-- Bytes in hexadecimal are pairs of digits that spell them. -/
theorem hexPairs_encode (bytes : List UInt8) : HexPairs (Text.Hex.encode bytes) bytes := by
  induction bytes with
  | nil => exact .nil
  | cons b bytes ih =>
    unfold Text.Hex.encode at ih ⊢
    rw [List.flatMap_cons]
    exact .cons (Text.Hex.pair?_lowerDigit b) ih

/-! ## What ends a value -/

theorem isPlain_of_isHexDigit {c : Char} (h : isHexDigit c = true) : isPlain c = true := by
  by_contra hc
  have hspecial : Value.isSpecial c = true := by simpa [isPlain] using hc
  have hescapable : isEscapable c = true := by simp [isEscapable, hspecial]
  rw [isHexDigit_of_isEscapable hescapable] at h
  cases h

theorem not_endsValue_of_isPlain {c : Char} (h : isPlain c = true) :
    c ≠ '\\' ∧ endsValue c = false := by
  obtain ⟨hends, hescape, -⟩ := isPlain_iff.1 h
  exact ⟨hescape, by simpa using hends⟩

/-- What ends a value stands in a token behind a backslash only. -/
theorem sealed_token {t : Token} (h : t.Valid isPlain) : Sealed endsValue t.text := by
  cases t with
  | char c => exact Text.sealed_of_forall (by simpa [Token.text] using not_endsValue_of_isPlain h)
  | escape spelled b =>
    cases show Text.Escape isEscapable spelled b from h with
    | digits hb =>
      have hlow := not_endsValue_of_isPlain (isPlain_of_isHexDigit (isHexDigit_of_pair? hb).2)
      exact .escape (.plain hlow.1 hlow.2 .nil)
    | itself => exact .escape .nil

/-- In tokens of a plain value, what ends a value stands behind backslashes only. -/
theorem sealed_tokensText {ts : List Token} (hts : ∀ t ∈ ts, t.Valid isPlain) :
    Sealed endsValue (tokensText ts) := by
  induction ts with
  | nil => exact .nil
  | cons t ts ih =>
    rw [List.forall_mem_cons] at hts
    rw [tokensText, List.flatMap_cons]
    exact (sealed_token hts.1).append (ih hts.2)

end Scan

namespace Value

open Scan

/-! ## Characters that are escaped -/

theorem lt_of_isControl {c : Char} (h : isControl c = true) : c.toNat < 128 := by
  simp only [isControl, Bool.or_eq_true, decide_eq_true_eq] at h
  omega

theorem lt_of_isEscapable {c : Char} (h : isEscapable c = true) : c.toNat < 128 := by
  simp only [isEscapable, isSpecial, Bool.or_eq_true, decide_eq_true_eq] at h
  rcases h with ((((((((h | h) | h) | h) | h) | h) | h) | h) | h) | h <;> subst h <;> decide

section Tokens

variable {escaping : Escaping} {first last : Bool}

/-- A character that is escaped is a control, or one that may stand behind a backslash. -/
theorem isEscapable_of_needsEscape {c : Char} (h : needsEscape escaping first last c = true)
    (hc : isControl c = false) : isEscapable c = true := by
  by_cases hspace : c = ' '
  · simp [isEscapable, hspace]
  by_cases hhash : c = '#'
  · simp [isEscapable, hhash]
  by_cases hnul : c = '\x00'
  · subst hnul
    cases hc
  by_cases hequals : c = '='
  · simp [isEscapable, hequals]
  · have hspecial : isSpecial c = true := by
      simpa [needsEscape, hspace, hhash, hnul, hequals, hc] using h
    simp [isEscapable, hspecial]

/-- A character that is not escaped is none of those that have to be. -/
theorem isPlain_of_not_needsEscape {c : Char} (h : needsEscape escaping first last c = false) :
    isPlain c = true := by
  by_contra hc
  have hspecial : isSpecial c = true := by simpa [isPlain] using hc
  have hneeds : needsEscape escaping first last c = true := by
    simp only [isSpecial, Bool.or_eq_true, decide_eq_true_eq] at hspecial
    rcases hspecial with (((((hc | hc) | hc) | hc) | hc) | hc) | hc <;> subst hc <;> rfl
  rw [hneeds] at h
  cases h

/-! ## Tokens of a text -/

/-- The token that stands for a character of a value. -/
def token (escaping : Escaping) (first last : Bool) (c : Char) : Token :=
  if needsEscape escaping first last c then
    .escape (if isControl c then Text.Hex.lower (UInt8.ofNat c.toNat) else [c])
      (UInt8.ofNat c.toNat)
  else .char c

/-- The tokens that stand for the characters of a value; `first` says whether they are at its
beginning. -/
def tokens (escaping : Escaping) (first : Bool) : List Char → List Token
  | [] => []
  | c :: rest => token escaping first rest.isEmpty c :: tokens escaping false rest

/-- The token of a character is written as the character is escaped. -/
theorem text_token (c : Char) :
    (token escaping first last c).text = escapeChar escaping first last c := by
  unfold token escapeChar
  split
  · split <;> rfl
  · rfl

/-- However it is escaped, a character stands for its own bytes. -/
theorem bytes_token (c : Char) :
    (token escaping first last c).bytes = String.utf8EncodeChar c := by
  unfold token
  split
  · next hneeds =>
    have hlt : c.toNat < 128 := by
      cases hc : isControl c with
      | true => exact lt_of_isControl hc
      | false => exact lt_of_isEscapable (isEscapable_of_needsEscape hneeds hc)
    exact (utf8EncodeChar_of_lt hlt).symm
  · rfl

/-- What needs no escape is plain. -/
theorem valid_token (c : Char) : (token escaping first last c).Valid isPlain := by
  unfold token
  split
  · next hneeds =>
    cases hc : isControl c with
    | true => exact .digits (Text.Hex.pair?_lowerDigit _)
    | false => exact .itself (isEscapable_of_needsEscape hneeds hc)
  · next hneeds => exact isPlain_of_not_needsEscape (by simpa using hneeds)

/-- The tokens of a value are the value as it is escaped. -/
theorem tokensText_tokens (cs : List Char) :
    tokensText (tokens escaping first cs) = escapeFrom escaping first cs := by
  induction cs generalizing first with
  | nil => rfl
  | cons c cs ih =>
    rw [tokens, escapeFrom, ← ih, ← text_token]
    rfl

/-- And they stand for the bytes of the value. -/
theorem tokensBytes_tokens (cs : List Char) :
    tokensBytes (tokens escaping first cs) = cs.flatMap String.utf8EncodeChar := by
  induction cs generalizing first with
  | nil => rfl
  | cons c cs ih =>
    rw [List.flatMap_cons, ← ih, ← bytes_token]
    rfl

theorem valid_of_mem_tokens (cs : List Char) :
    ∀ t ∈ tokens escaping first cs, t.Valid isPlain := by
  induction cs generalizing first with
  | nil => simp [tokens]
  | cons c cs ih => exact List.forall_mem_cons.2 ⟨valid_token c, ih⟩

/-- A space at the beginning or at the end of a value is escaped. -/
theorem token_ne_space (h : first = true ∨ last = true) (c : Char) :
    token escaping first last c ≠ .char ' ' := by
  unfold token
  split
  · simp
  · next hneeds =>
    intro hc
    cases hc
    rcases h with rfl | rfl <;> simp [needsEscape] at hneeds

/-- So is a number sign at the beginning, which would announce hexadecimal digits. -/
theorem token_ne_hash (c : Char) : token escaping true last c ≠ .char '#' := by
  unfold token
  split
  · simp
  · next hneeds =>
    intro hc
    cases hc
    simp [needsEscape] at hneeds

/-- The tokens of a text are those of a plain value: a space at the end is escaped. -/
theorem plainRun_tokens (cs : List Char) : PlainRun (tokens escaping first cs) := by
  refine ⟨valid_of_mem_tokens cs, ?_⟩
  induction cs generalizing first with
  | nil => simp [tokens]
  | cons c cs ih =>
    cases cs with
    | nil => simpa [tokens] using token_ne_space (.inr rfl) c
    | cons d cs =>
      rw [tokens, tokens, List.getLast?_cons_cons]
      exact ih

/-- A text is spelled by what it is written as, unless it is empty. -/
theorem valueSpelled_escapeFrom {cs : List Char} (hne : cs ≠ []) :
    ValueSpelled (escapeFrom escaping true cs) (cs.flatMap String.utf8EncodeChar) := by
  rw [← tokensText_tokens, ← tokensBytes_tokens]
  cases cs with
  | nil => exact absurd rfl hne
  | cons c cs =>
    refine .plain (plainRun_tokens _) (by simp [tokens]) ?_ ?_
    · simpa [tokens] using token_ne_space (.inl rfl) c
    · simpa [tokens] using token_ne_hash c

/-- An escaped value has nothing in it that ends it. -/
theorem sealed_escapeFrom (cs : List Char) : Sealed endsValue (escapeFrom escaping first cs) := by
  rw [← tokensText_tokens]
  exact sealed_tokensText (valid_of_mem_tokens cs)

end Tokens

/-! ## Hexadecimal values -/

/-- Bytes are spelled by the digits of the octet string that holds them, if its length can be
read. -/
theorem valueSpelled_hexForm {bytes : List UInt8} (h : bytes.length < 2 ^ 32) :
    ValueSpelled (hexForm bytes) bytes := by
  refine .hex (hexPairs_encode _) (by simp [Ber.Element.encode]) (.inl ?_)
  have hprimitive : Ber.Tag.octetString.isConstructed = false := by decide
  exact .mk rfl hprimitive (Ber.Length.spelled_encode h)

/-- Bytes that are too many for a length are written in digits that spell the octet string as a
whole, not its content. -/
theorem valueSpelled_hexForm_of_le {bytes : List UInt8} (h : 2 ^ 32 ≤ bytes.length)
    (hlt : bytes.length < 2 ^ 64) :
    ValueSpelled (hexForm bytes) (Ber.Element.octetString bytes).encode := by
  refine .hex (hexPairs_encode _) (by simp [Ber.Element.encode]) (hexDenotes_iff.2 ?_)
  unfold unwrap
  split
  · next e he => exact absurd he (Ber.Element.decode_encode_ne_ok h hlt e)
  · rfl

theorem sealed_hexForm (bytes : List UInt8) : Sealed endsValue (hexForm bytes) := by
  refine .plain (by decide) (by decide) (Text.sealed_of_forall fun c hc => ?_)
  exact not_endsValue_of_isPlain (isPlain_of_isHexDigit ((hexPairs_encode _).isHexDigit c hc))

/-! ## Values -/

/-- A value that is a text, or bytes that are not too many for the length of an octet string. -/
def Writable (bytes : List UInt8) : Prop :=
  Text.Utf8.decode? bytes ≠ none ∨ bytes.length < 2 ^ 32

/-- A value is spelled by what it is written as, however much is escaped. -/
theorem valueSpelled_escape {escaping : Escaping} {bytes : List UInt8} (hne : bytes ≠ [])
    (h : Writable bytes) : ValueSpelled (escape escaping bytes) bytes := by
  unfold escape
  split
  · next s hs =>
    have hbytes : bytes = s.toList.flatMap String.utf8EncodeChar := by
      rw [← Text.Utf8.encode_eq_flatMap, Text.Utf8.decode?_eq_some_iff.1 hs]
    have hcs : s.toList ≠ [] := by
      intro hnil
      rw [hnil] at hbytes
      exact hne hbytes
    have hspelled : ValueSpelled (escapeFrom escaping true s.toList) _ :=
      valueSpelled_escapeFrom hcs
    rwa [← hbytes] at hspelled
  · next hnone => exact valueSpelled_hexForm (h.resolve_left (not_not.2 hnone))

/-- Nor has its normal form. -/
theorem sealed_normalize (caseExact : Bool) (bytes : List UInt8) :
    Sealed endsValue (normalize caseExact bytes) := by
  unfold normalize
  split
  · exact sealed_escapeFrom _
  · exact sealed_hexForm bytes

end Value
end Ldap
