import Ldap.Dn.Error
import Ldap.Dn.Value

/-!
# Reading names

A name is read from left to right. Each step takes the text that is left and returns what follows
the part it read; a fault carries the text from the place where it stands, so its position is the
size of what comes before.
-/

namespace Ldap.Scan

/-- A fault in a name. -/
abbrev Stop := Text.Stop NameFault

/-- One `name=value` part of a relative name. -/
structure Part where
  name : String
  value : List UInt8
  deriving DecidableEq, Repr

/-! ## Characters -/

def isNameChar (c : Char) : Bool :=
  c.isAlphanum || c = '-' || c = '.' || c = '_'

def isSeparator (c : Char) : Bool :=
  c = ',' || c = ';'

/-- Whether a character ends an unquoted value. -/
def endsValue (c : Char) : Bool :=
  isSeparator c || c = '+'

def isHexDigit (c : Char) : Bool :=
  (Text.Hex.digit? c).isSome

/-- Whether a character stands for itself after a backslash. -/
def isEscapable (c : Char) : Bool :=
  Value.isSpecial c || c = '=' || c = ' ' || c = '#'

def skipSpaces (cs : List Char) : List Char :=
  cs.dropWhile (· = ' ')

/-! ## Values -/

/-- The byte that an escape denotes, from the text after its backslash. -/
def escaped : List Char → Except NameFault (UInt8 × List Char)
  | [] => .error .openEscape
  | c :: rest =>
    if isHexDigit c then
      match rest with
      | d :: rest =>
        match Text.Hex.pair? c d with
        | some b => .ok (b, rest)
        | none => .error .badHexEscape
      | [] => .error .badHexEscape
    else if isEscapable c then .ok (UInt8.ofNat c.toNat, rest)
    else .error (.badEscape c)

theorem length_lt_of_escaped {cs rest : List Char} {b : UInt8}
    (h : escaped cs = .ok (b, rest)) : rest.length < cs.length := by
  match cs, h with
  | c :: tail, h =>
    simp only [escaped] at h
    split at h
    · split at h
      · split at h
        · cases h; simp only [List.length_cons]; omega
        · cases h
      · cases h
    · split at h
      · cases h; simp
      · cases h

/-- The bytes of an unquoted value and the text after its last significant character: spaces at
the end do not belong to it. -/
def plainValue (cs : List Char) : Except Stop (List UInt8 × List Char) :=
  match cs with
  | [] => .ok ([], [])
  | c :: rest =>
    if endsValue c then .ok ([], c :: rest)
    else if c = '\\' then
      match h : escaped rest with
      | .error fault => .error ⟨fault, c :: rest⟩
      | .ok (b, after) =>
        have : after.length < rest.length := length_lt_of_escaped h
        match plainValue after with
        | .error stop => .error stop
        | .ok (bytes, stop) => .ok (b :: bytes, stop)
    else if c = '"' || c = '<' || c = '>' then .error ⟨.unescaped c, c :: rest⟩
    else
      match plainValue rest with
      | .error stop => .error stop
      | .ok (bytes, stop) =>
        if c = ' ' && bytes.isEmpty then .ok ([], c :: rest)
        else .ok (String.utf8EncodeChar c ++ bytes, stop)
termination_by cs.length
decreasing_by all_goals (simp only [List.length_cons]; omega)

/-- The bytes of a quoted value, from the text after its opening quote; `whole` is the text from
that quote on. -/
def quotedValue (whole cs : List Char) : Except Stop (List UInt8 × List Char) :=
  match cs with
  | [] => .error ⟨.openQuote, whole⟩
  | c :: rest =>
    if c = '"' then .ok ([], rest)
    else if c = '\\' then
      match h : escaped rest with
      | .error fault => .error ⟨fault, c :: rest⟩
      | .ok (b, after) =>
        have : after.length < rest.length := length_lt_of_escaped h
        match quotedValue whole after with
        | .error stop => .error stop
        | .ok (bytes, stop) => .ok (b :: bytes, stop)
    else
      match quotedValue whole rest with
      | .error stop => .error stop
      | .ok (bytes, stop) => .ok (String.utf8EncodeChar c ++ bytes, stop)
termination_by cs.length
decreasing_by all_goals (simp only [List.length_cons]; omega)

/-- The bytes that a hexadecimal value denotes: the content if they are one universal primitive
element, the bytes themselves otherwise. -/
def unwrap (raw : List UInt8) : List UInt8 :=
  match Ber.Element.decode raw with
  | .ok e => if e.tag.tagClass = .universal && !e.tag.isConstructed then e.content else raw
  | .error _ => raw

/-- The bytes of a hexadecimal value, from the text after its hash sign; `whole` is the text from
that sign on. -/
def hexValue (whole cs : List Char) : Except Stop (List UInt8 × List Char) :=
  let digits := cs.takeWhile isHexDigit
  let rest := cs.dropWhile isHexDigit
  let delimited := match rest with
    | [] => true
    | c :: _ => c = ' ' || endsValue c
  if !delimited then .error ⟨.badHexCharacter, rest⟩
  else if digits.isEmpty then .error ⟨.noHexDigits, whole⟩
  else
    match Text.Hex.decode? digits with
    | none => .error ⟨.oddHexDigits, rest⟩
    | some raw => .ok (unwrap raw, rest)

/-- The bytes of the value of an attribute, and the text after it. -/
def value (name : String) (cs : List Char) : Except Stop (List UInt8 × List Char) :=
  match cs with
  | [] => .error ⟨.noValue name, cs⟩
  | c :: rest =>
    if endsValue c then .error ⟨.noValue name, cs⟩
    else if c = '#' then hexValue cs rest
    else if c = '"' then quotedValue cs rest
    else plainValue cs

/-! ## Parts of a name -/

/-- An attribute name, and the text after it. -/
def attributeName (cs : List Char) : Except Stop (String × List Char) :=
  let name := cs.takeWhile isNameChar
  let rest := cs.dropWhile isNameChar
  let named : Except Stop (String × List Char) :=
    if name.isEmpty then .error ⟨.noName, rest⟩ else .ok (String.ofList name, rest)
  match rest with
  | [] => named
  | c :: _ =>
    if c = ' ' || c = '=' then named
    else if endsValue c then .error ⟨.unexpected c, rest⟩
    else .error ⟨.badNameCharacter, rest⟩

/-- A part `name=value`, and the text right after the value. -/
def part (cs : List Char) : Except Stop (Part × List Char) := do
  let (name, rest) ← attributeName (skipSpaces cs)
  match skipSpaces rest with
  | '=' :: rest =>
    let (bytes, rest) ← value name (skipSpaces rest)
    .ok (⟨name, bytes⟩, rest)
  | rest => .error ⟨.noEquals name, rest⟩

/-! ## Every step leaves less text -/

theorem length_skipSpaces_le (cs : List Char) : (skipSpaces cs).length ≤ cs.length :=
  (List.dropWhile_sublist _).length_le

theorem length_le_of_plainValue {cs rest : List Char} {bytes : List UInt8}
    (h : plainValue cs = .ok (bytes, rest)) : rest.length ≤ cs.length := by
  fun_induction plainValue cs generalizing bytes rest <;> simp_all <;> grind

theorem length_le_of_quotedValue {whole cs rest : List Char} {bytes : List UInt8}
    (h : quotedValue whole cs = .ok (bytes, rest)) : rest.length ≤ cs.length := by
  fun_induction quotedValue whole cs generalizing bytes rest <;> simp_all <;> grind

theorem length_le_of_hexValue {whole cs rest : List Char} {bytes : List UInt8}
    (h : hexValue whole cs = .ok (bytes, rest)) : rest.length ≤ cs.length := by
  have hle : (cs.dropWhile isHexDigit).length ≤ cs.length :=
    (List.dropWhile_sublist _).length_le
  simp only [hexValue] at h
  repeat' split at h
  all_goals first
    | (cases h; exact hle)
    | cases h

theorem length_le_of_value {name : String} {cs rest : List Char} {bytes : List UInt8}
    (h : value name cs = .ok (bytes, rest)) : rest.length ≤ cs.length := by
  match cs, h with
  | c :: tail, h =>
    simp only [value] at h
    split at h
    · cases h
    · split at h
      · exact Nat.le_succ_of_le (length_le_of_hexValue h)
      · split at h
        · exact Nat.le_succ_of_le (length_le_of_quotedValue h)
        · exact length_le_of_plainValue h

theorem length_le_of_attributeName {cs rest : List Char} {name : String}
    (h : attributeName cs = .ok (name, rest)) : rest.length ≤ cs.length := by
  have hle : (cs.dropWhile isNameChar).length ≤ cs.length :=
    (List.dropWhile_sublist _).length_le
  simp only [attributeName] at h
  repeat' split at h
  all_goals first
    | (cases h; exact hle)
    | cases h

theorem length_lt_of_part {cs rest : List Char} {p : Part}
    (h : part cs = .ok (p, rest)) : rest.length < cs.length := by
  simp only [part, bind, Except.bind] at h
  split at h
  · cases h
  · next found hname =>
    have h₁ := length_le_of_attributeName hname
    have h₂ := length_skipSpaces_le cs
    have h₃ := length_skipSpaces_le found.2
    split at h
    · next tail heq =>
      have h₄ := length_skipSpaces_le tail
      rw [heq, List.length_cons] at h₃
      split at h
      · cases h
      · next got hvalue =>
        have h₅ := length_le_of_value hvalue
        cases h
        omega
    · cases h

/-! ## Names -/

/-- The parts of a relative name, which plus signs join, and the text right after the last
value. -/
def parts (cs : List Char) : Except Stop (List Part × List Char) :=
  match h : part cs with
  | .error stop => .error stop
  | .ok (p, rest) =>
    match hplus : skipSpaces rest with
    | '+' :: tail =>
      if (skipSpaces tail).isEmpty then .error ⟨.openPlus, '+' :: tail⟩
      else
        have : (skipSpaces tail).length < cs.length := by
          have h₁ := length_lt_of_part h
          have h₂ := length_skipSpaces_le rest
          have h₃ := length_skipSpaces_le tail
          rw [hplus, List.length_cons] at h₂
          omega
        match parts (skipSpaces tail) with
        | .error stop => .error stop
        | .ok (ps, rest) => .ok (p :: ps, rest)
    | _ => .ok ([p], rest)
termination_by cs.length

/-- A relative name as read: its parts and its own text, without spaces around it. -/
structure Relative where
  parts : List Part
  text : String
  deriving DecidableEq, Repr

/-- A relative name at the front of a text, and the text right after it. -/
def relative (cs : List Char) : Except Stop (Relative × List Char) := do
  let (ps, rest) ← parts cs
  .ok (⟨ps, String.ofList (cs.take (cs.length - rest.length))⟩, rest)

theorem length_lt_of_parts {cs rest : List Char} {ps : List Part}
    (h : parts cs = .ok (ps, rest)) : rest.length < cs.length := by
  fun_induction parts cs generalizing ps rest <;> simp_all
  · next p rest' hpart tail hplus _ _ _ hlt _ ih =>
    grind
  · next p rest' hpart _ =>
    have := length_lt_of_part hpart
    simp_all

theorem length_lt_of_relative {cs rest : List Char} {r : Relative}
    (h : relative cs = .ok (r, rest)) : rest.length < cs.length := by
  simp only [relative, bind, Except.bind] at h
  split at h
  · cases h
  · next found hparts =>
    have := length_lt_of_parts hparts
    cases h
    omega

/-- The relative names of a text that is not blank, which commas and semicolons separate. -/
def relatives (cs : List Char) : Except Stop (List Relative) :=
  match h : relative cs with
  | .error stop => .error stop
  | .ok (r, rest) =>
    match hsep : skipSpaces rest with
    | [] => .ok [r]
    | c :: tail =>
      if isSeparator c then
        if (skipSpaces tail).isEmpty then .error ⟨.trailingSeparator, c :: tail⟩
        else
          have : (skipSpaces tail).length < cs.length := by
            have h₁ := length_lt_of_relative h
            have h₂ := length_skipSpaces_le rest
            have h₃ := length_skipSpaces_le tail
            rw [hsep, List.length_cons] at h₂
            omega
          match relatives (skipSpaces tail) with
          | .error stop => .error stop
          | .ok rs => .ok (r :: rs)
      else .error ⟨.unexpected c, c :: tail⟩
termination_by cs.length

/-- A fault in a text as an error that names its position. -/
def located {α : Type} (text : String) : Except Stop α → Except NameError α
  | .ok a => .ok a
  | .error stop =>
    .error (.malformed text (stop.position text) stop.fault)

/-- The relative names of a distinguished name, the entry's own first; none if it is blank. -/
def distinguishedName (text : String) : Except NameError (List Relative) :=
  let cs := skipSpaces text.toList
  if cs.isEmpty then .ok [] else located text (relatives cs)

/-- A text that is one relative name. -/
def relativeName (text : String) : Except NameError Relative :=
  let cs := skipSpaces text.toList
  located text <|
    if cs.isEmpty then .error ⟨.emptyRdn, cs⟩
    else do
      let (r, rest) ← relative cs
      match skipSpaces rest with
      | [] => .ok r
      | c :: tail =>
        if isSeparator c then .error ⟨.separatorInRdn, c :: tail⟩
        else .error ⟨.unexpected c, c :: tail⟩

end Ldap.Scan
