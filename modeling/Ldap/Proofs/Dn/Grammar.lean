import Ldap.Dn.Scan
import Ldap.Proofs.Ber.Faithful
import Ldap.Proofs.Text.Escape

/-!
# The grammar of names

`ValueSpelled`, `PartSpelled`, `PartsSpelled` and `NamesSpelled` say which texts spell which values,
parts and relative names, without a reader. `distinguishedName_eq_ok_iff` says that a text is
accepted as a name exactly if it is spelled so, and that what is read is what it spells.
-/

namespace Ldap.Scan

open Ber (Element)
open Text (Escape)

/-! ## Spaces -/

/-- Spaces and nothing else. -/
def Spaces (cs : List Char) : Prop :=
  ∀ c ∈ cs, c = ' '

theorem spaces_nil : Spaces [] := by
  simp [Spaces]

/-- A text is spaces and then what they are followed by. -/
theorem exists_skipSpaces (cs : List Char) : ∃ gap, Spaces gap ∧ cs = gap ++ skipSpaces cs := by
  obtain ⟨hsplit, hgap, -⟩ := Text.span_eq_iff.1 ⟨rfl, (rfl : skipSpaces cs = _)⟩
  exact ⟨_, fun c hc => of_decide_eq_true (hgap c hc), hsplit⟩

theorem head_skipSpaces (cs : List Char) : (skipSpaces cs).head? ≠ some ' ' := by
  obtain ⟨-, -, hhead⟩ := Text.span_eq_iff.1 ⟨rfl, (rfl : skipSpaces cs = _)⟩
  intro hspace
  exact absurd (hhead ' ' hspace) (by decide)

/-- Spaces are skipped as far as they go. -/
theorem skipSpaces_append {gap rest : List Char} (hgap : Spaces gap)
    (hrest : rest.head? ≠ some ' ') : skipSpaces (gap ++ rest) = rest := by
  refine (Text.span_eq_iff.2 ⟨rfl, fun c hc => ?_, fun c hc => ?_⟩).2
  · exact decide_eq_true (hgap c hc)
  · exact decide_eq_false fun h => hrest (h ▸ hc)

theorem Spaces.skipSpaces_eq_nil {gap : List Char} (h : Spaces gap) : skipSpaces gap = [] := by
  have hnil : ([] : List Char).head? ≠ some ' ' := by simp
  rw [← List.append_nil gap, skipSpaces_append h hnil]

theorem skipSpaces_of_head {cs : List Char} (h : cs.head? ≠ some ' ') : skipSpaces cs = cs := by
  simpa using skipSpaces_append (show Spaces [] by simp [Spaces]) h

/-! ## Escapes -/

/-- What may be escaped by itself is no hexadecimal digit, so the two kinds of escapes are told
apart. -/
theorem isHexDigit_of_isEscapable {c : Char} (hc : isEscapable c = true) :
    isHexDigit c = false := by
  simp only [isEscapable, Value.isSpecial, Bool.or_eq_true, decide_eq_true_eq] at hc
  rcases hc with ((((((((h | h) | h) | h) | h) | h) | h) | h) | h) | h <;> subst h <;> rfl

/-- Behind a backslash stands a sign that may be escaped, or two hexadecimal digits. -/
theorem escaped_eq_ok_iff {cs rest : List Char} {b : UInt8} :
    escaped cs = .ok (b, rest) ↔
      ∃ spelled, Escape isEscapable spelled b ∧ cs = spelled ++ rest := by
  constructor
  · intro h
    match cs, h with
    | c :: tail, h =>
      simp only [escaped] at h
      split at h
      · split at h
        · split at h
          · next hb =>
            cases h
            exact ⟨_, .digits hb, rfl⟩
          · cases h
        · cases h
      · split at h
        · next hc =>
          cases h
          exact ⟨[c], .itself hc, rfl⟩
        · cases h
  · intro h
    rcases h with ⟨spelled, hspelled, rfl⟩
    cases hspelled with
    | @digits high low b hb =>
      have hdigit : isHexDigit high = true := by
        obtain ⟨n, hn, -⟩ := Option.bind_eq_some_iff.1 hb
        exact Option.isSome_of_eq_some hn
      simp [escaped, hb, hdigit]
    | itself hc => simp [escaped, hc, isHexDigit_of_isEscapable hc]

/-! ## Values -/

/-- What a value is written with: characters for themselves, and escapes. -/
inductive Token where
  | char (c : Char)
  | escape (spelled : List Char) (b : UInt8)

namespace Token

def text : Token → List Char
  | char c => [c]
  | escape spelled _ => '\\' :: spelled

def bytes : Token → List UInt8
  | char c => String.utf8EncodeChar c
  | escape _ b => [b]

/-- Only some characters may stand for themselves. -/
def Valid (plain : Char → Bool) : Token → Prop
  | char c => plain c = true
  | escape spelled b => Escape isEscapable spelled b

end Token

/-- Some tokens, written one after the other. -/
def tokensText (ts : List Token) : List Char :=
  ts.flatMap Token.text

/-- The bytes that some tokens stand for. -/
def tokensBytes (ts : List Token) : List UInt8 :=
  ts.flatMap Token.bytes

theorem tokensText_cons_append (t : Token) (ts : List Token) (rest : List Char) :
    tokensText (t :: ts) ++ rest = t.text ++ (tokensText ts ++ rest) := by
  rw [tokensText, List.flatMap_cons, List.append_assoc]
  rfl

/-- A first token that is a character is the first sign of the text. -/
theorem head_tokensText {ts : List Token} {c : Char} (h : ts.head? = some (.char c))
    (rest : List Char) : (tokensText ts ++ rest).head? = some c := by
  obtain ⟨ts, rfl⟩ := List.head?_eq_some_iff.1 h
  rfl

theorem tokensBytes_eq_nil_iff {ts : List Token} : tokensBytes ts = [] ↔ ts = [] := by
  cases ts with
  | nil => simp [tokensBytes]
  | cons t ts =>
    have hne : t.bytes ≠ [] := by
      cases t with
      | char c => exact List.ne_nil_of_length_pos (by simp [Token.bytes, Char.utf8Size_pos])
      | escape => simp [Token.bytes]
    simp [tokensBytes, hne]

/-- Whether a character may stand for itself between double quotes. -/
def isQuotable (c : Char) : Bool :=
  c != '"' && c != '\\'

/-- Whether a character may stand for itself in a value that is neither quoted nor hexadecimal. -/
def isPlain (c : Char) : Bool :=
  !Value.isSpecial c

/-- A sign is plain if it neither ends a value, nor begins an escape, nor belongs in quotes. -/
theorem isPlain_iff {c : Char} :
    isPlain c = true ↔
      ¬ endsValue c = true ∧ ¬ c = '\\' ∧ ¬ (c = '"' || c = '<' || c = '>') = true := by
  simp only [isPlain, Value.isSpecial, endsValue, isSeparator, Bool.not_eq_true', Bool.or_eq_true,
    Bool.or_eq_false_iff, decide_eq_true_eq, decide_eq_false_iff_not]
  tauto

/-- The tokens of a value that is neither quoted nor hexadecimal, as far as it ends well. -/
structure PlainRun (ts : List Token) : Prop where
  valid : ∀ t ∈ ts, t.Valid isPlain
  last_ne : ts.getLast? ≠ some (.char ' ')

theorem PlainRun.tail {t : Token} {ts : List Token} (h : PlainRun (t :: ts)) : PlainRun ts where
  valid := fun t' ht' => h.valid t' (List.mem_cons_of_mem _ ht')
  last_ne := by
    cases ts with
    | nil => simp
    | cons t' ts => simpa using h.last_ne

/-- A token may stand in front of others, and alone if it is no space. -/
theorem PlainRun.cons {t : Token} {ts : List Token} (h : PlainRun ts) (ht : t.Valid isPlain)
    (hlast : t ≠ .char ' ' ∨ ts ≠ []) : PlainRun (t :: ts) where
  valid := List.forall_mem_cons.2 ⟨ht, h.valid⟩
  last_ne := by
    cases ts with
    | nil => simpa using hlast
    | cons t' ts => simpa using h.last_ne

/-- What follows the last character of a value that counts: spaces, and then the end of a part. -/
def Trails (rest : List Char) : Prop :=
  ∃ gap after, Spaces gap ∧ rest = gap ++ after ∧ ∀ c ∈ after.head?, endsValue c = true

/-- A value ends where a sign stands that ends values. -/
theorem trails_of_head {rest : List Char} (h : ∀ c ∈ rest.head?, endsValue c = true) :
    Trails rest :=
  ⟨[], rest, by simp [Spaces], rfl, h⟩

/-- Spaces at the end do not belong to the value. -/
theorem Trails.space {rest : List Char} (h : Trails rest) : Trails (' ' :: rest) := by
  rcases h with ⟨gap, after, hgap, rfl, hafter⟩
  exact ⟨' ' :: gap, after, List.forall_mem_cons.2 ⟨rfl, hgap⟩, rfl, hafter⟩

/-- What is read as a plain value is spelled by the text up to the last character that counts. -/
theorem plainRun_of_plainValue {cs rest : List Char} {bytes : List UInt8}
    (h : plainValue cs = .ok (bytes, rest)) :
    ∃ ts, PlainRun ts ∧ cs = tokensText ts ++ rest ∧ bytes = tokensBytes ts ∧ Trails rest := by
  fun_induction plainValue cs generalizing bytes rest with
  | case1 =>
    cases h
    exact ⟨[], ⟨by simp, by simp⟩, rfl, rfl, trails_of_head (by simp)⟩
  | case2 c tail hends =>
    cases h
    exact ⟨[], ⟨by simp, by simp⟩, rfl, rfl, trails_of_head (by simpa using hends)⟩
  | case3 => cases h
  | case4 => cases h
  | case5 tail b after hescaped _ bytes' left hplain _ ih =>
    cases h
    obtain ⟨ts, hrun, rfl, rfl, htrails⟩ := ih hplain
    obtain ⟨spelled, hspelled, rfl⟩ := escaped_eq_ok_iff.1 hescaped
    exact ⟨.escape spelled b :: ts, hrun.cons hspelled (.inl (by simp)),
      by simp [tokensText, Token.text], rfl, htrails⟩
  | case6 => cases h
  | case7 => cases h
  | case8 c tail _ _ _ bytes' left hplain hspace ih =>
    cases h
    obtain ⟨ts, -, rfl, rfl, htrails⟩ := ih hplain
    simp only [Bool.and_eq_true, decide_eq_true_eq, List.isEmpty_iff, tokensBytes_eq_nil_iff]
      at hspace
    rcases hspace with ⟨rfl, rfl⟩
    exact ⟨[], ⟨by simp, by simp⟩, rfl, rfl, Trails.space htrails⟩
  | case9 c tail hends hescape hquote bytes' left hplain hspace ih =>
    cases h
    obtain ⟨ts, hrun, rfl, rfl, htrails⟩ := ih hplain
    refine ⟨.char c :: ts, hrun.cons (isPlain_iff.2 ⟨hends, hescape, hquote⟩) ?_, rfl, rfl, htrails⟩
    -- a space counts if something follows that does
    by_cases hc : c = ' '
    · refine .inr fun hnil => hspace ?_
      simp [hc, hnil, tokensBytes]
    · exact .inl (by simpa using hc)

theorem plainValue_of_trails {rest : List Char} (h : Trails rest) :
    plainValue rest = .ok ([], rest) := by
  rcases h with ⟨gap, after, hgap, rfl, hafter⟩
  induction gap with
  | nil =>
    cases after with
    | nil => rw [List.append_nil, plainValue]
    | cons c after => rw [List.nil_append, plainValue, if_pos (hafter c rfl)]
  | cons c gap ih =>
    have hgap' : Spaces gap := fun c hc => hgap c (List.mem_cons_of_mem _ hc)
    obtain rfl : c = ' ' := hgap c List.mem_cons_self
    rw [List.cons_append, plainValue, ih hgap']
    rfl

theorem plainValue_of_escaped {rest after left : List Char} {b : UInt8} {bytes : List UInt8}
    (hescaped : escaped rest = .ok (b, after)) (hafter : plainValue after = .ok (bytes, left)) :
    plainValue ('\\' :: rest) = .ok (b :: bytes, left) := by
  rw [plainValue, if_neg (by decide), if_pos rfl]
  split
  · next herror => cases hescaped.symm.trans herror
  · next hok =>
    cases hescaped.symm.trans hok
    rw [hafter]

/-- A character is a part of a plain value unless it is a space with nothing more behind it. -/
theorem plainValue_of_isPlain {c : Char} {rest left : List Char} {bytes : List UInt8}
    (hc : isPlain c = true) (hrest : plainValue rest = .ok (bytes, left))
    (hcounts : ¬(c = ' ' ∧ bytes = [])) :
    plainValue (c :: rest) = .ok (String.utf8EncodeChar c ++ bytes, left) := by
  obtain ⟨hends, hescape, hquote⟩ := isPlain_iff.1 hc
  rw [plainValue, if_neg hends, if_neg hescape, if_neg hquote, hrest]
  dsimp only
  rw [if_neg (by simpa using hcounts)]

/-- A plain value is read as it is spelled. -/
theorem plainValue_tokensText {ts : List Token} {rest : List Char} (hts : PlainRun ts)
    (hrest : Trails rest) : plainValue (tokensText ts ++ rest) = .ok (tokensBytes ts, rest) := by
  induction ts with
  | nil => exact plainValue_of_trails hrest
  | cons t ts ih =>
    replace ih := ih hts.tail
    have ht := hts.valid t List.mem_cons_self
    rw [tokensText_cons_append]
    cases t with
    | char c =>
      have hcounts : ¬(c = ' ' ∧ tokensBytes ts = []) := by
        rw [tokensBytes_eq_nil_iff]
        rintro ⟨rfl, rfl⟩
        exact hts.last_ne rfl
      exact plainValue_of_isPlain ht ih hcounts
    | escape spelled b => exact plainValue_of_escaped (escaped_eq_ok_iff.2 ⟨spelled, ht, rfl⟩) ih

theorem quotedValue_of_escaped {whole rest after left : List Char} {b : UInt8} {bytes : List UInt8}
    (hescaped : escaped rest = .ok (b, after))
    (hafter : quotedValue whole after = .ok (bytes, left)) :
    quotedValue whole ('\\' :: rest) = .ok (b :: bytes, left) := by
  rw [quotedValue, if_neg (by decide), if_pos rfl]
  split
  · next herror => cases hescaped.symm.trans herror
  · next hok =>
    cases hescaped.symm.trans hok
    rw [hafter]

/-- Within quotes, spaces belong to the value, and only quotes and backslashes have to be escaped.
-/
theorem quotedValue_eq_ok_iff {whole cs rest : List Char} {bytes : List UInt8} :
    quotedValue whole cs = .ok (bytes, rest) ↔
      ∃ ts, (∀ t ∈ ts, t.Valid isQuotable) ∧ cs = tokensText ts ++ '"' :: rest ∧
        bytes = tokensBytes ts := by
  constructor
  · intro h
    fun_induction quotedValue whole cs generalizing bytes rest with
    | case1 => cases h
    | case2 tail =>
      cases h
      exact ⟨[], by simp, rfl, rfl⟩
    | case3 => cases h
    | case4 => cases h
    | case5 tail b after hescaped _ bytes' left hquoted _ ih =>
      cases h
      obtain ⟨ts, hts, rfl, rfl⟩ := ih hquoted
      obtain ⟨spelled, hspelled, rfl⟩ := escaped_eq_ok_iff.1 hescaped
      exact ⟨.escape spelled b :: ts, List.forall_mem_cons.2 ⟨hspelled, hts⟩,
        by simp [tokensText, Token.text], rfl⟩
    | case6 => cases h
    | case7 c tail hquote hescape bytes' left hquoted ih =>
      cases h
      obtain ⟨ts, hts, rfl, rfl⟩ := ih hquoted
      have hc : isQuotable c = true := by simp [isQuotable, hquote, hescape]
      exact ⟨.char c :: ts, List.forall_mem_cons.2 ⟨hc, hts⟩, rfl, rfl⟩
  · intro h
    rcases h with ⟨ts, hts, rfl, rfl⟩
    induction ts with
    | nil =>
      show quotedValue whole ('"' :: rest) = _
      rw [quotedValue, if_pos rfl]
      rfl
    | cons t ts ih =>
      rw [List.forall_mem_cons] at hts
      replace ih := ih hts.2
      rw [tokensText_cons_append]
      cases t with
      | char c =>
        have hc : c ≠ '"' ∧ c ≠ '\\' := by simpa [Token.Valid, isQuotable] using hts.1
        show quotedValue whole (c :: (tokensText ts ++ '"' :: rest)) = _
        rw [quotedValue, if_neg hc.1, if_neg hc.2, ih]
        rfl
      | escape spelled b =>
        exact quotedValue_of_escaped (escaped_eq_ok_iff.2 ⟨spelled, hts.1, rfl⟩) ih

/-! ## Hexadecimal values -/

/-- Pairs of digits for bytes. -/
inductive HexPairs : List Char → List UInt8 → Prop
  | nil : HexPairs [] []
  | cons {high low : Char} {b : UInt8} {cs : List Char} {bytes : List UInt8}
    (hb : Text.Hex.pair? high low = some b) (h : HexPairs cs bytes) :
    HexPairs (high :: low :: cs) (b :: bytes)

/-- Hexadecimal digits are read as bytes exactly if they are pairs. -/
theorem decode?_eq_some_iff {cs : List Char} {bytes : List UInt8} :
    Text.Hex.decode? cs = some bytes ↔ HexPairs cs bytes := by
  constructor
  · intro h
    fun_induction Text.Hex.decode? cs generalizing bytes with
    | case1 =>
      cases h
      exact .nil
    | case2 => cases h
    | case3 high low tail ih =>
      obtain ⟨b, hb, h⟩ := Option.bind_eq_some_iff.1 h
      obtain ⟨bytes', hbytes, h⟩ := Option.bind_eq_some_iff.1 h
      cases h
      exact .cons hb (ih hbytes)
  · intro h
    induction h with
    | nil => rfl
    | cons hb _ ih => simp [Text.Hex.decode?, hb, ih]

theorem isHexDigit_of_pair? {high low : Char} {b : UInt8}
    (h : Text.Hex.pair? high low = some b) : isHexDigit high = true ∧ isHexDigit low = true := by
  obtain ⟨n, hn, h⟩ := Option.bind_eq_some_iff.1 h
  obtain ⟨m, hm, -⟩ := Option.bind_eq_some_iff.1 h
  exact ⟨Option.isSome_of_eq_some hn, Option.isSome_of_eq_some hm⟩

/-- Pairs are digits. -/
theorem HexPairs.isHexDigit {cs : List Char} {bytes : List UInt8} (h : HexPairs cs bytes) :
    ∀ c ∈ cs, isHexDigit c = true := by
  induction h with
  | nil => simp
  | cons hb _ ih =>
    obtain ⟨hhigh, hlow⟩ := isHexDigit_of_pair? hb
    exact List.forall_mem_cons.2 ⟨hhigh, List.forall_mem_cons.2 ⟨hlow, ih⟩⟩

theorem HexPairs.eq_nil_iff {cs : List Char} {bytes : List UInt8} (h : HexPairs cs bytes) :
    cs = [] ↔ bytes = [] := by
  cases h <;> simp

/-- Bytes that are exactly one universal primitive element with some content. -/
inductive IsUniversalPrimitive : List UInt8 → List UInt8 → Prop
  | mk {tag : Ber.Tag} {length content : List UInt8} (hclass : tag.tagClass = .universal)
    (hprimitive : tag.isConstructed = false) (hlength : Ber.Length.Spelled length content.length) :
    IsUniversalPrimitive (tag :: (length ++ content)) content

/-- Bytes hold a plain value if they are one element of a universal type that holds no others. -/
theorem isUniversalPrimitive_iff {raw content : List UInt8} :
    IsUniversalPrimitive raw content ↔
      ∃ e, Element.decode raw = .ok e ∧
        (e.tag.tagClass = .universal ∧ e.tag.isConstructed = false) ∧ e.content = content := by
  constructor
  · rintro ⟨hclass, hprimitive, hlength⟩
    exact ⟨⟨_, content⟩, Element.decode_eq_ok_iff_spelled.2 ⟨_, hlength, rfl⟩,
      ⟨hclass, hprimitive⟩, rfl⟩
  · rintro ⟨e, he, ⟨hclass, hprimitive⟩, rfl⟩
    obtain ⟨length, hlength, rfl⟩ := Element.decode_eq_ok_iff_spelled.1 he
    exact .mk hclass hprimitive hlength

/-- What the bytes of a hexadecimal value stand for: the content of one universal primitive element,
or themselves. -/
def HexDenotes (raw bytes : List UInt8) : Prop :=
  IsUniversalPrimitive raw bytes ∨ (¬ ∃ content, IsUniversalPrimitive raw content) ∧ bytes = raw

/-- Hexadecimal digits denote the content of such an element, and their bytes if there is none. -/
theorem hexDenotes_iff {raw bytes : List UInt8} : HexDenotes raw bytes ↔ bytes = unwrap raw := by
  simp only [HexDenotes, isUniversalPrimitive_iff, unwrap]
  cases Element.decode raw with
  | error e => simp
  | ok e =>
    by_cases hprimitive : e.tag.tagClass = .universal ∧ e.tag.isConstructed = false
    · simpa [hprimitive] using eq_comm
    · simp [hprimitive]

theorem isHexDigit_of_delimiter {c : Char} (h : c = ' ' ∨ endsValue c = true) :
    isHexDigit c = false := by
  simp only [endsValue, isSeparator, Bool.or_eq_true, decide_eq_true_eq] at h
  rcases h with rfl | (rfl | rfl) | rfl <;> rfl

/-- What may follow a hexadecimal value: nothing, a space, or what ends a value. -/
def Delimited (rest : List Char) : Prop :=
  ∀ c ∈ rest.head?, c = ' ' ∨ endsValue c = true

theorem Trails.delimited {rest : List Char} (h : Trails rest) : Delimited rest := by
  rcases h with ⟨gap, after, hgap, rfl, hafter⟩
  intro c hc
  cases gap with
  | nil => exact .inr (hafter c hc)
  | cons c' gap =>
    obtain rfl : c' = c := by simpa using hc
    exact .inl (hgap c' List.mem_cons_self)

/-- A hexadecimal value is made of its digits and looks at what follows them. -/
theorem hexValue_eq_ok_iff_span {whole cs rest : List Char} {bytes : List UInt8} :
    hexValue whole cs = .ok (bytes, rest) ↔
      cs.dropWhile isHexDigit = rest ∧ Delimited rest ∧ cs.takeWhile isHexDigit ≠ [] ∧
        ∃ raw, Text.Hex.decode? (cs.takeWhile isHexDigit) = some raw ∧ bytes = unwrap raw := by
  unfold hexValue
  dsimp only
  generalize cs.takeWhile isHexDigit = digits
  generalize cs.dropWhile isHexDigit = left
  by_cases h : Delimited left
  · rw [if_neg (by cases left <;> simp_all [Delimited, or_iff_not_imp_left])]
    cases hraw : Text.Hex.decode? digits with
    | none => cases digits <;> simp
    | some raw =>
      by_cases hdigits : digits = []
      · simp [hdigits]
      · simp only [hdigits, List.isEmpty_iff, if_false, Except.ok.injEq, Prod.mk.injEq,
          Option.some.injEq]
        constructor
        · rintro ⟨rfl, rfl⟩
          exact ⟨rfl, h, hdigits, raw, rfl, rfl⟩
        · rintro ⟨rfl, -, -, _, rfl, rfl⟩
          exact ⟨rfl, rfl⟩
  · rw [if_pos (by cases left <;> simp_all [Delimited])]
    simp only [reduceCtorEq, false_iff]
    rintro ⟨rfl, h', -⟩
    exact h h'

/-- A value in hexadecimal goes as far as the digits do, and has to end there. -/
theorem hexValue_eq_ok_iff {whole cs rest : List Char} {bytes : List UInt8} :
    hexValue whole cs = .ok (bytes, rest) ↔
      ∃ digits raw, cs = digits ++ rest ∧ HexPairs digits raw ∧ raw ≠ [] ∧ HexDenotes raw bytes ∧
        Delimited rest := by
  rw [hexValue_eq_ok_iff_span]
  constructor
  · rintro ⟨rfl, hrest, hne, raw, hraw, rfl⟩
    replace hraw := decode?_eq_some_iff.1 hraw
    exact ⟨_, raw, List.takeWhile_append_dropWhile.symm, hraw, mt hraw.eq_nil_iff.2 hne,
      hexDenotes_iff.2 rfl, hrest⟩
  · rintro ⟨digits, raw, rfl, hraw, hne, hbytes, hrest⟩
    obtain ⟨hdigits, hleft⟩ := Text.span_eq_iff.2
      ⟨rfl, hraw.isHexDigit, fun c hc => isHexDigit_of_delimiter (hrest c hc)⟩
    rw [hdigits]
    exact ⟨hleft, hrest, mt hraw.eq_nil_iff.1 hne, raw, decode?_eq_some_iff.2 hraw,
      hexDenotes_iff.1 hbytes⟩

/-- A text spells the value of an attribute. -/
inductive ValueSpelled : List Char → List UInt8 → Prop
  | hex {digits : List Char} {raw bytes : List UInt8} (hraw : HexPairs digits raw)
    (hne : raw ≠ []) (hbytes : HexDenotes raw bytes) : ValueSpelled ('#' :: digits) bytes
  | quoted {ts : List Token} (hts : ∀ t ∈ ts, t.Valid isQuotable) :
    ValueSpelled ('"' :: (tokensText ts ++ ['"'])) (tokensBytes ts)
  | plain {ts : List Token} (hts : PlainRun ts) (hne : ts ≠ [])
    (hspace : ts.head? ≠ some (.char ' ')) (hhash : ts.head? ≠ some (.char '#')) :
    ValueSpelled (tokensText ts) (tokensBytes ts)

/-- What is read as the value of an attribute is spelled by the text up to its end. -/
theorem valueSpelled_of_value {name : String} {cs rest : List Char} {bytes : List UInt8}
    (hcs : cs.head? ≠ some ' ') (h : value name cs = .ok (bytes, rest)) :
    ∃ front, cs = front ++ rest ∧ ValueSpelled front bytes := by
  cases cs with
  | nil => cases h
  | cons c tail =>
    simp only [value] at h
    split at h
    · cases h
    split at h
    · next hhash =>
      subst hhash
      obtain ⟨digits, raw, rfl, hraw, hne, hbytes, -⟩ := hexValue_eq_ok_iff.1 h
      exact ⟨_, rfl, .hex hraw hne hbytes⟩
    split at h
    · next hquote =>
      subst hquote
      obtain ⟨ts, hts, rfl, rfl⟩ := quotedValue_eq_ok_iff.1 h
      exact ⟨_, by simp, .quoted hts⟩
    · next hends hhash hquote =>
      obtain ⟨ts, hts, htext, rfl, htrails⟩ := plainRun_of_plainValue h
      refine ⟨_, htext, .plain hts ?_ (fun hspace => ?_) (fun hhead => ?_)⟩
      · rintro rfl
        -- without tokens, what follows them is the text itself
        obtain rfl : c :: tail = rest := htext
        rcases htrails.delimited c rfl with rfl | hc
        · exact hcs rfl
        · exact hends hc
      · exact hcs (htext ▸ head_tokensText hspace rest)
      · exact hhash (Option.some.inj (htext ▸ head_tokensText hhead rest :))

/-- A value is read as it is spelled. -/
theorem value_of_valueSpelled {name : String} {front rest : List Char} {bytes : List UInt8}
    (h : ValueSpelled front bytes) (hrest : Trails rest) :
    value name (front ++ rest) = .ok (bytes, rest) := by
  cases h with
  | @hex digits raw _ hraw hne hbytes =>
    show value name ('#' :: (digits ++ rest)) = _
    rw [value, if_neg (by decide), if_pos rfl]
    exact hexValue_eq_ok_iff.2 ⟨digits, raw, rfl, hraw, hne, hbytes, hrest.delimited⟩
  | @quoted ts hts =>
    show value name ('"' :: (tokensText ts ++ ['"'] ++ rest)) = _
    rw [value, if_neg (by decide), if_neg (by decide), if_pos rfl]
    exact quotedValue_eq_ok_iff.2 ⟨ts, hts, by simp, rfl⟩
  | @plain ts hts hne hspace hhash =>
    rw [← plainValue_tokensText hts hrest]
    cases ts with
    | nil => exact absurd rfl hne
    | cons t ts =>
      cases t with
      | char c =>
        obtain ⟨hends, -, hquote⟩ := isPlain_iff.1 (hts.valid _ List.mem_cons_self)
        show value name (c :: (tokensText ts ++ rest)) = plainValue (c :: (tokensText ts ++ rest))
        rw [value, if_neg hends, if_neg (by simpa using hhash), if_neg]
        rintro rfl
        exact hquote rfl
      | escape spelled b =>
        show value name ('\\' :: (spelled ++ tokensText ts ++ rest)) =
          plainValue ('\\' :: (spelled ++ tokensText ts ++ rest))
        rw [value, if_neg (by decide), if_neg (by decide), if_neg (by decide)]

theorem ValueSpelled.head_ne {front : List Char} {bytes : List UInt8}
    (h : ValueSpelled front bytes) (rest : List Char) : (front ++ rest).head? ≠ some ' ' := by
  cases h with
  | hex => simp
  | quoted => simp
  | @plain ts hts hne hspace _ =>
    cases ts with
    | nil => exact absurd rfl hne
    | cons t ts =>
      cases t with
      | char c => simpa [tokensText, Token.text] using hspace
      | escape => simp [tokensText, Token.text]

/-! ## Parts -/

/-- The name of an attribute: letters, digits and the signs that may stand with them. -/
structure IsName (cs : List Char) : Prop where
  ne_nil : cs ≠ []
  isNameChar : ∀ c ∈ cs, isNameChar c = true

/-- A name of an attribute begins with no space. -/
theorem IsName.head_ne {name : List Char} (h : IsName name) (rest : List Char) :
    (name ++ rest).head? ≠ some ' ' := by
  cases name with
  | nil => exact absurd rfl h.ne_nil
  | cons c name =>
    rintro hspace
    obtain rfl : c = ' ' := Option.some.inj hspace
    exact absurd (h.isNameChar ' ' List.mem_cons_self) (by decide)

/-- A name goes as far as its signs do, and has to be followed by a space or an equals sign. -/
theorem attributeName_eq_ok_iff_span {cs rest : List Char} {name : String} :
    attributeName cs = .ok (name, rest) ↔
      cs.dropWhile isNameChar = rest ∧ cs.takeWhile isNameChar ≠ [] ∧
        name = String.ofList (cs.takeWhile isNameChar) ∧ ∀ c ∈ rest.head?, c = ' ' ∨ c = '=' := by
  unfold attributeName
  dsimp only
  generalize cs.takeWhile isNameChar = front
  generalize cs.dropWhile isNameChar = left
  have hnamed : (if front.isEmpty then .error ⟨.noName, left⟩ else .ok (String.ofList front, left) :
      Except Stop (String × List Char)) = .ok (name, rest) ↔
        left = rest ∧ front ≠ [] ∧ name = String.ofList front := by
    by_cases hfront : front = []
    · simp [hfront]
    · simp only [hfront, List.isEmpty_iff, if_false, Except.ok.injEq, Prod.mk.injEq, ne_eq,
        not_false_eq_true, true_and, and_comm, @eq_comm _ name]
  cases left with
  | nil =>
    dsimp only
    rw [hnamed]
    constructor
    · rintro ⟨rfl, hfront, rfl⟩
      exact ⟨rfl, hfront, rfl, by simp⟩
    · rintro ⟨rfl, hfront, rfl, -⟩
      exact ⟨rfl, hfront, rfl⟩
  | cons c tail =>
    dsimp only
    by_cases hc : c = ' ' ∨ c = '='
    · rw [if_pos (by simpa using hc), hnamed]
      constructor
      · rintro ⟨rfl, hfront, rfl⟩
        exact ⟨rfl, hfront, rfl, by simpa using hc⟩
      · rintro ⟨rfl, hfront, rfl, -⟩
        exact ⟨rfl, hfront, rfl⟩
    · rw [if_neg (by simpa using hc)]
      constructor
      · intro h
        split at h <;> cases h
      · rintro ⟨rfl, -, -, hrest⟩
        exact absurd (hrest c rfl) hc

/-- A name is read up to a space, an equals sign or the end of the text. -/
theorem attributeName_eq_ok_iff {cs rest : List Char} {name : String} :
    attributeName cs = .ok (name, rest) ↔
      ∃ front, cs = front ++ rest ∧ IsName front ∧ name = String.ofList front ∧
        ∀ c ∈ rest.head?, c = ' ' ∨ c = '=' := by
  rw [attributeName_eq_ok_iff_span]
  constructor
  · rintro ⟨hleft, hne, rfl, hrest⟩
    obtain ⟨hsplit, hname, -⟩ := Text.span_eq_iff.1 ⟨rfl, hleft⟩
    exact ⟨_, hsplit, ⟨hne, hname⟩, rfl, hrest⟩
  · rintro ⟨front, rfl, hname, rfl, hrest⟩
    have hstop : ∀ c ∈ rest.head?, isNameChar c = false := by
      intro c hc
      rcases hrest c hc with rfl | rfl <;> rfl
    obtain ⟨hfront, hleft⟩ := Text.span_eq_iff.2 ⟨rfl, hname.isNameChar, hstop⟩
    rw [hfront]
    exact ⟨hleft, hname.ne_nil, rfl, hrest⟩

/-- A text spells a name and a value with an equals sign between them. -/
inductive PartSpelled : List Char → Part → Prop
  | mk {name gap gap' front : List Char} {bytes : List UInt8} (hname : IsName name)
    (hgap : Spaces gap) (hgap' : Spaces gap') (hvalue : ValueSpelled front bytes) :
    PartSpelled (name ++ (gap ++ '=' :: (gap' ++ front))) ⟨String.ofList name, bytes⟩

theorem PartSpelled.head_ne {front : List Char} {p : Part} (h : PartSpelled front p)
    (rest : List Char) : (front ++ rest).head? ≠ some ' ' := by
  cases h with
  | mk hname =>
    rw [List.append_assoc]
    exact hname.head_ne _

theorem PartSpelled.ne_nil {front : List Char} {p : Part} (h : PartSpelled front p) :
    front ≠ [] := by
  cases h with
  | mk hname => exact List.append_ne_nil_of_left_ne_nil hname.ne_nil _

/-- What is read as a part is spelled by the text up to its end. -/
theorem partSpelled_of_part {cs rest : List Char} {p : Part} (hcs : cs.head? ≠ some ' ')
    (h : part cs = .ok (p, rest)) : ∃ front, cs = front ++ rest ∧ PartSpelled front p := by
  rw [part, skipSpaces_of_head hcs] at h
  obtain ⟨⟨name, left⟩, hread, h⟩ := bind_eq_ok_iff.1 h
  obtain ⟨front, rfl, hname, rfl, -⟩ := attributeName_eq_ok_iff.1 hread
  obtain ⟨gap, hgap, hleft⟩ := exists_skipSpaces left
  dsimp only at h
  split at h
  · next tail hequals =>
    obtain ⟨⟨bytes, left'⟩, hread, h⟩ := bind_eq_ok_iff.1 h
    obtain ⟨gap', hgap', htail⟩ := exists_skipSpaces tail
    obtain ⟨front', hsplit, hvalue⟩ := valueSpelled_of_value (head_skipSpaces tail) hread
    cases h
    rw [hsplit] at htail
    rw [hequals, htail] at hleft
    exact ⟨_, by simp [hleft], .mk hname hgap hgap' hvalue⟩
  · cases h

/-- A part is read as it is spelled. -/
theorem part_of_partSpelled {front rest : List Char} {p : Part} (h : PartSpelled front p)
    (hrest : Trails rest) : part (front ++ rest) = .ok (p, rest) := by
  rw [part, skipSpaces_of_head (h.head_ne rest)]
  cases h with
  | @mk name gap gap' front bytes hname hgap hgap' hvalue =>
    have hread : attributeName (name ++ (gap ++ '=' :: (gap' ++ front)) ++ rest) =
        .ok (String.ofList name, gap ++ '=' :: (gap' ++ front ++ rest)) := by
      refine attributeName_eq_ok_iff.2 ⟨name, by simp, hname, rfl, fun c hc => ?_⟩
      cases gap with
      | nil => exact .inr (by simpa using hc.symm)
      | cons c' gap =>
        obtain rfl : c' = c := by simpa using hc
        exact .inl (hgap c' List.mem_cons_self)
    have hequals : skipSpaces (gap ++ '=' :: (gap' ++ front ++ rest)) =
        '=' :: (gap' ++ front ++ rest) := skipSpaces_append hgap (by simp)
    have hskip : skipSpaces (gap' ++ front ++ rest) = front ++ rest := by
      rw [List.append_assoc]
      exact skipSpaces_append hgap' (hvalue.head_ne rest)
    simp only [hread, ok_bind, hequals, hskip, value_of_valueSpelled hvalue hrest]

/-! ## Relative names -/

/-- A text spells parts with plus signs between them. -/
inductive PartsSpelled : List Char → List Part → Prop
  | single {cs : List Char} {p : Part} (h : PartSpelled cs p) : PartsSpelled cs [p]
  | cons {front gap gap' back : List Char} {p : Part} {ps : List Part} (h : PartSpelled front p)
    (hgap : Spaces gap) (hgap' : Spaces gap') (htail : PartsSpelled back ps) :
    PartsSpelled (front ++ (gap ++ '+' :: (gap' ++ back))) (p :: ps)

theorem PartsSpelled.head_ne {front : List Char} {ps : List Part} (h : PartsSpelled front ps)
    (rest : List Char) : (front ++ rest).head? ≠ some ' ' := by
  cases h with
  | single h => exact h.head_ne rest
  | cons h =>
    rw [List.append_assoc]
    exact h.head_ne _

theorem PartsSpelled.ne_nil {front : List Char} {ps : List Part} (h : PartsSpelled front ps) :
    front ≠ [] := by
  cases h with
  | single h => exact h.ne_nil
  | cons h => exact List.append_ne_nil_of_left_ne_nil h.ne_nil _

/-- The name of a part is what is spelled in front of the equals sign. -/
theorem PartSpelled.isName {front : List Char} {p : Part} (h : PartSpelled front p) :
    IsName p.name.toList := by
  cases h with
  | mk hname => rwa [String.toList_ofList]

theorem PartsSpelled.isName {front : List Char} {ps : List Part} (h : PartsSpelled front ps) :
    ps ≠ [] ∧ ∀ p ∈ ps, IsName p.name.toList := by
  induction h with
  | single h => simpa using h.isName
  | cons h _ _ _ ih => exact ⟨by simp, List.forall_mem_cons.2 ⟨h.isName, ih.2⟩⟩

/-- What follows a relative name: spaces, and then a separator or the end of the text. -/
def Separated (rest : List Char) : Prop :=
  ∃ gap after, Spaces gap ∧ rest = gap ++ after ∧ ∀ c ∈ after.head?, isSeparator c = true

/-- What separates relative names ends a value. -/
theorem Separated.trails {rest : List Char} (h : Separated rest) : Trails rest := by
  rcases h with ⟨gap, after, hgap, rfl, hafter⟩
  exact ⟨gap, after, hgap, rfl, fun c hc => by simp [endsValue, hafter c hc]⟩

/-- And it does not go on with a plus sign. -/
theorem Separated.skipSpaces_ne {rest : List Char} (h : Separated rest) (tail : List Char) :
    skipSpaces rest ≠ '+' :: tail := by
  rcases h with ⟨gap, after, hgap, rfl, hafter⟩
  have hspace : after.head? ≠ some ' ' := fun h => absurd (hafter ' ' h) (by decide)
  rw [skipSpaces_append hgap hspace]
  rintro rfl
  exact absurd (hafter '+' rfl) (by decide)

/-- What is read as parts is spelled by the text up to their end. -/
theorem partsSpelled_of_parts {cs rest : List Char} {ps : List Part} (hcs : cs.head? ≠ some ' ')
    (h : parts cs = .ok (ps, rest)) : ∃ front, cs = front ++ rest ∧ PartsSpelled front ps := by
  fun_induction parts cs generalizing ps rest with
  | case1 => cases h
  | case2 => cases h
  | case3 => cases h
  | case4 cs p left hread tail hplus _ _ ps' rest' hparts ih =>
    cases h
    obtain ⟨front, rfl, hpart⟩ := partSpelled_of_part hcs hread
    obtain ⟨back, hback, hparts⟩ := ih (head_skipSpaces tail) hparts
    obtain ⟨gap, hgap, hleft⟩ := exists_skipSpaces left
    obtain ⟨gap', hgap', htail⟩ := exists_skipSpaces tail
    rw [hback] at htail
    rw [hplus, htail] at hleft
    exact ⟨_, by simp [hleft], .cons hpart hgap hgap' hparts⟩
  | case5 cs p left hread =>
    cases h
    obtain ⟨front, rfl, hpart⟩ := partSpelled_of_part hcs hread
    exact ⟨front, rfl, .single hpart⟩

/-- Parts, without a look at how much text is left. -/
theorem parts_eq (cs : List Char) :
    parts cs = (do
      let (p, rest) ← part cs
      match skipSpaces rest with
      | '+' :: tail =>
        if (skipSpaces tail).isEmpty then .error ⟨.openPlus, '+' :: tail⟩
        else do
          let (ps, rest) ← parts (skipSpaces tail)
          .ok (p :: ps, rest)
      | _ => .ok ([p], rest)) := by
  rw [parts]
  split
  · next hpart =>
    rw [hpart]
    rfl
  · next p rest hpart =>
    simp only [hpart, bind, Except.bind]
    split
    · next tail hplus =>
      simp only [hplus]
      split
      · rfl
      · cases parts (skipSpaces tail) <;> rfl
    · next hne =>
      split
      · next tail hplus => exact absurd hplus (hne tail)
      · rfl

theorem parts_of_part {cs rest : List Char} {p : Part} (hpart : part cs = .ok (p, rest))
    (hrest : ∀ tail, skipSpaces rest ≠ '+' :: tail) : parts cs = .ok ([p], rest) := by
  rw [parts_eq, hpart]
  simp only [bind, Except.bind]

/-- A plus sign has to be followed by another part. -/
theorem parts_of_part_plus {cs left tail rest : List Char} {p : Part} {ps : List Part}
    (hpart : part cs = .ok (p, left)) (hplus : skipSpaces left = '+' :: tail)
    (htail : skipSpaces tail ≠ []) (hparts : parts (skipSpaces tail) = .ok (ps, rest)) :
    parts cs = .ok (p :: ps, rest) := by
  rw [parts_eq, hpart]
  simp only [bind, Except.bind, hplus]
  rw [if_neg (by simpa using htail), hparts]

/-- Parts are read as they are spelled. -/
theorem parts_of_partsSpelled {front rest : List Char} {ps : List Part}
    (h : PartsSpelled front ps) (hrest : Separated rest) :
    parts (front ++ rest) = .ok (ps, rest) := by
  induction h with
  | single h => exact parts_of_part (part_of_partSpelled h hrest.trails) hrest.skipSpaces_ne
  | @cons front gap gap' back p ps h hgap hgap' htail ih =>
    have htext : front ++ (gap ++ '+' :: (gap' ++ back)) ++ rest =
        front ++ (gap ++ '+' :: (gap' ++ (back ++ rest))) := by simp
    have htrails : Trails (gap ++ '+' :: (gap' ++ (back ++ rest))) :=
      ⟨gap, _, hgap, rfl, by simp [endsValue]⟩
    have hskip : skipSpaces (gap' ++ (back ++ rest)) = back ++ rest :=
      skipSpaces_append hgap' (htail.head_ne rest)
    rw [htext]
    refine parts_of_part_plus (part_of_partSpelled h htrails)
      (skipSpaces_append hgap (by simp)) ?_ ?_
    · rw [hskip]
      exact List.append_ne_nil_of_left_ne_nil htail.ne_nil rest
    · rw [hskip, ih]

/-- A text spells a relative name: it spells the parts, and the name keeps the text. -/
structure RelativeSpelled (cs : List Char) (r : Relative) : Prop where
  parts : PartsSpelled cs r.parts
  text_eq : r.text = String.ofList cs

/-- A relative name is read from what spells it, up to the sign that ends it. -/
theorem relativeSpelled_of_relative {cs rest : List Char} {r : Relative}
    (hcs : cs.head? ≠ some ' ') (h : relative cs = .ok (r, rest)) :
    ∃ front, cs = front ++ rest ∧ RelativeSpelled front r := by
  obtain ⟨⟨ps, left⟩, hread, h⟩ := bind_eq_ok_iff.1 h
  cases h
  obtain ⟨front, rfl, hparts⟩ := partsSpelled_of_parts hcs hread
  exact ⟨front, rfl, hparts, by simp⟩

/-- What spells a relative name is read as it. -/
theorem relative_of_relativeSpelled {front rest : List Char} {r : Relative}
    (h : RelativeSpelled front r) (hrest : Separated rest) :
    relative (front ++ rest) = .ok (r, rest) := by
  obtain ⟨ps, text⟩ := r
  obtain rfl := h.text_eq
  rw [relative, parts_of_partsSpelled h.parts hrest]
  simp [bind, Except.bind]

/-! ## Names -/

/-- A text spells relative names with separators between them, and may end in spaces. -/
inductive NamesSpelled : List Char → List Relative → Prop
  | last {cs gap : List Char} {r : Relative} (h : RelativeSpelled cs r) (hgap : Spaces gap) :
    NamesSpelled (cs ++ gap) [r]
  | cons {front gap gap' back : List Char} {c : Char} {r : Relative} {rs : List Relative}
    (h : RelativeSpelled front r) (hgap : Spaces gap) (hc : isSeparator c = true)
    (hgap' : Spaces gap') (htail : NamesSpelled back rs) :
    NamesSpelled (front ++ (gap ++ c :: (gap' ++ back))) (r :: rs)

theorem NamesSpelled.head_ne {cs : List Char} {rs : List Relative} (h : NamesSpelled cs rs) :
    cs.head? ≠ some ' ' := by
  cases h with
  | last h => exact h.parts.head_ne _
  | cons h => exact h.parts.head_ne _

theorem NamesSpelled.ne_nil {cs : List Char} {rs : List Relative} (h : NamesSpelled cs rs) :
    cs ≠ [] := by
  cases h with
  | last h => exact List.append_ne_nil_of_left_ne_nil h.parts.ne_nil _
  | cons h => exact List.append_ne_nil_of_left_ne_nil h.parts.ne_nil _

/-- What is read as relative names is spelled by the whole text. -/
theorem namesSpelled_of_relatives {cs : List Char} {rs : List Relative}
    (hcs : cs.head? ≠ some ' ') (h : relatives cs = .ok rs) : NamesSpelled cs rs := by
  fun_induction relatives cs generalizing rs with
  | case1 => cases h
  | case2 cs r left hread hnil =>
    cases h
    obtain ⟨front, rfl, hr⟩ := relativeSpelled_of_relative hcs hread
    obtain ⟨gap, hgap, hleft⟩ := exists_skipSpaces left
    rw [hnil, List.append_nil] at hleft
    exact .last hr (hleft ▸ hgap)
  | case3 => cases h
  | case4 => cases h
  | case5 cs r left hread c tail hsep hc _ _ rs' hrs ih =>
    cases h
    obtain ⟨front, rfl, hr⟩ := relativeSpelled_of_relative hcs hread
    obtain ⟨gap, hgap, hleft⟩ := exists_skipSpaces left
    obtain ⟨gap', hgap', htail⟩ := exists_skipSpaces tail
    rw [hsep, htail] at hleft
    rw [hleft]
    exact .cons hr hgap hc hgap' (ih (head_skipSpaces tail) hrs)
  | case6 => cases h

/-- Relative names, without a look at how much text is left. -/
theorem relatives_eq (cs : List Char) :
    relatives cs = (do
      let (r, rest) ← relative cs
      match skipSpaces rest with
      | [] => .ok [r]
      | c :: tail =>
        if isSeparator c then
          if (skipSpaces tail).isEmpty then .error ⟨.trailingSeparator, c :: tail⟩
          else do
            let rs ← relatives (skipSpaces tail)
            .ok (r :: rs)
        else .error ⟨.unexpected c, c :: tail⟩) := by
  rw [relatives]
  split
  · next hr =>
    rw [hr]
    rfl
  · next r rest hr =>
    simp only [hr, bind, Except.bind]
    split
    · next hnil => rw [hnil]
    · next c tail hsep =>
      rw [hsep]
      dsimp only
      split
      · split
        · rfl
        · cases relatives (skipSpaces tail) <;> rfl
      · rfl

/-- The last relative name may have spaces behind it. -/
theorem relatives_of_relative {cs rest : List Char} {r : Relative}
    (hr : relative cs = .ok (r, rest)) (hrest : skipSpaces rest = []) :
    relatives cs = .ok [r] := by
  rw [relatives_eq, hr]
  simp only [bind, Except.bind, hrest]

/-- A comma or a semicolon has to be followed by another relative name. -/
theorem relatives_of_relative_separator {cs rest tail : List Char} {c : Char} {r : Relative}
    {rs : List Relative} (hr : relative cs = .ok (r, rest)) (hrest : skipSpaces rest = c :: tail)
    (hc : isSeparator c = true) (htail : skipSpaces tail ≠ [])
    (hrs : relatives (skipSpaces tail) = .ok rs) : relatives cs = .ok (r :: rs) := by
  rw [relatives_eq, hr]
  simp only [bind, Except.bind, hrest]
  rw [if_pos hc, if_neg (by simpa using htail), hrs]

/-- Relative names are read as they are spelled. -/
theorem relatives_of_namesSpelled {cs : List Char} {rs : List Relative} (h : NamesSpelled cs rs) :
    relatives cs = .ok rs := by
  induction h with
  | @last cs gap r h hgap =>
    have hsep : Separated gap := ⟨gap, [], hgap, by simp, by simp⟩
    refine relatives_of_relative (relative_of_relativeSpelled h hsep) ?_
    exact hgap.skipSpaces_eq_nil
  | @cons front gap gap' back c r rs h hgap hc hgap' htail ih =>
    have hsep : Separated (gap ++ c :: (gap' ++ back)) := ⟨gap, _, hgap, rfl, by simpa using hc⟩
    have hspace : c ≠ ' ' := by
      rintro rfl
      exact absurd hc (by decide)
    have hskip : skipSpaces (gap' ++ back) = back := skipSpaces_append hgap' htail.head_ne
    refine relatives_of_relative_separator (relative_of_relativeSpelled h hsep)
      (skipSpaces_append hgap (by simpa using hspace)) hc ?_ ?_
    · rw [hskip]
      exact htail.ne_nil
    · rw [hskip, ih]

/-- A text spells a name: nothing but spaces, or relative names after spaces. -/
inductive Spelled : List Char → List Relative → Prop
  | blank {cs : List Char} (h : Spaces cs) : Spelled cs []
  | names {gap cs : List Char} {rs : List Relative} (hgap : Spaces gap)
    (h : NamesSpelled cs rs) : Spelled (gap ++ cs) rs

theorem NamesSpelled.spelled {cs : List Char} {rs : List Relative} (h : NamesSpelled cs rs) :
    Spelled cs rs := by
  have hspelled := Spelled.names spaces_nil h
  rwa [List.nil_append] at hspelled

/-- Some relative names are spelled after spaces. -/
theorem Spelled.exists_namesSpelled {cs : List Char} {rs : List Relative} (h : Spelled cs rs)
    (hne : rs ≠ []) : ∃ gap back, Spaces gap ∧ cs = gap ++ back ∧ NamesSpelled back rs := by
  cases h with
  | blank => exact absurd rfl hne
  | names hgap h => exact ⟨_, _, hgap, rfl, h⟩

/-- The text that a relative name keeps spells it. -/
theorem RelativeSpelled.text {cs : List Char} {r : Relative} (h : RelativeSpelled cs r) :
    RelativeSpelled r.text.toList r := by
  have htext := h.text_eq
  rw [htext, String.toList_ofList]
  exact h

theorem NamesSpelled.relativeSpelled {cs : List Char} {rs : List Relative}
    (h : NamesSpelled cs rs) : ∀ r ∈ rs, RelativeSpelled r.text.toList r := by
  induction h with
  | last h => simpa using h.text
  | cons h _ _ _ _ ih => exact List.forall_mem_cons.2 ⟨h.text, ih⟩

/-- The text of each relative name spells it, without the spaces around it. -/
theorem Spelled.relativeSpelled {cs : List Char} {rs : List Relative} (h : Spelled cs rs) :
    ∀ r ∈ rs, RelativeSpelled r.text.toList r := by
  cases h with
  | blank => simp
  | names _ h => exact h.relativeSpelled

/-- A place is looked for only if something went wrong. -/
theorem located_eq_ok_iff {α : Type} {text : String} {x : Except Stop α} {a : α} :
    located text x = .ok a ↔ x = .ok a := by
  cases x <;> simp [located]

/-- A text is a name exactly if it is spelled as one, and what is read is what it spells. -/
theorem distinguishedName_eq_ok_iff {text : String} {rs : List Relative} :
    distinguishedName text = .ok rs ↔ Spelled text.toList rs := by
  simp only [distinguishedName]
  constructor
  · intro h
    obtain ⟨gap, hgap, htext⟩ := exists_skipSpaces text.toList
    split at h
    · next hnil =>
      cases h
      rw [List.isEmpty_iff.1 hnil, List.append_nil] at htext
      exact .blank (htext ▸ hgap)
    · rw [htext]
      exact .names hgap (namesSpelled_of_relatives (head_skipSpaces _) (located_eq_ok_iff.1 h))
  · generalize text.toList = cs
    intro h
    cases h with
    | blank h => rw [h.skipSpaces_eq_nil, List.isEmpty_nil, if_pos rfl]
    | @names gap cs rs hgap h =>
      rw [skipSpaces_append hgap h.head_ne, if_neg (by simpa using h.ne_nil)]
      exact located_eq_ok_iff.2 (relatives_of_namesSpelled h)

/-- A relative name that is read on its own is followed by nothing but spaces. -/
theorem relativeName_eq_ok_iff {text : String} {r : Relative} :
    relativeName text = .ok r ↔
      ∃ rest, relative (skipSpaces text.toList) = .ok (r, rest) ∧ skipSpaces rest = [] := by
  simp only [relativeName, located_eq_ok_iff]
  generalize skipSpaces text.toList = cs
  constructor
  · intro h
    split at h
    · cases h
    · obtain ⟨⟨r', rest⟩, hread, h⟩ := bind_eq_ok_iff.1 h
      dsimp only at h
      split at h
      · next hnil =>
        cases h
        exact ⟨rest, hread, hnil⟩
      · split at h <;> cases h
  · rintro ⟨rest, hread, hnil⟩
    have hpos := length_lt_of_relative hread
    have hne : cs ≠ [] := by
      rintro rfl
      exact absurd hpos (Nat.not_lt_zero _)
    rw [if_neg (by simpa using hne), hread, ok_bind]
    simp only [hnil]

/-- A relative name that is read on its own keeps the text that spells it. -/
theorem relativeSpelled_of_relativeName {text : String} {r : Relative}
    (h : relativeName text = .ok r) : RelativeSpelled r.text.toList r := by
  obtain ⟨rest, hread, -⟩ := relativeName_eq_ok_iff.1 h
  obtain ⟨front, -, hr⟩ := relativeSpelled_of_relative (head_skipSpaces _) hread
  exact hr.text

end Ldap.Scan
