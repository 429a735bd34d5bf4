import Ldap.ProtocolError

/-!
# Reading filter texts

A filter text is read from left to right. Each step takes the text that is left and returns what
follows the part it read; a fault carries the text from the place where it stands.
-/

namespace Ldap.Filter

/-- A fault in a filter text. -/
abbrev Stop := Text.Stop FilterFault

/-- Whether a character may stand in an attribute description or a matching rule. -/
def isDescriptionChar (c : Char) : Bool :=
  c.isAlphanum || c = '-' || c = '.' || c = ';' || c = '_'

/-! ## Values -/

/-- The byte that an escape denotes, from the text after its backslash. -/
def escaped : List Char → Option (UInt8 × List Char)
  | [] => none
  | c :: rest =>
    let single :=
      if c = '*' || c = '(' || c = ')' || c = '\\' then some (UInt8.ofNat c.toNat, rest) else none
    match rest with
    | d :: after =>
      match Text.Hex.pair? c d with
      | some b => some (b, after)
      | none => single
    | [] => single

theorem length_lt_of_escaped {cs rest : List Char} {b : UInt8}
    (h : escaped cs = some (b, rest)) : rest.length < cs.length := by
  match cs, h with
  | c :: tail, h =>
    simp only [escaped] at h
    repeat' split at h
    all_goals cases h
    all_goals simp only [List.length_cons, List.length_nil]
    all_goals omega

/-- A value with the stars in it: the bytes before the first star, and for each star the text from
there on and the bytes up to the next one. -/
structure Pattern where
  head : List UInt8
  later : List (List Char × List UInt8)
  deriving DecidableEq, Repr

/-- The pattern with more bytes in front. -/
def Pattern.prepend (bytes : List UInt8) (p : Pattern) : Pattern :=
  { p with head := bytes ++ p.head }

/-- The value at the front of a text, and the text after it. A value in parentheses ends at the
closing one, any other with the text. -/
def pattern (inGroup : Bool) (cs : List Char) : Except Stop (Pattern × List Char) :=
  match cs with
  | [] => .ok (⟨[], []⟩, [])
  | c :: rest =>
    if c = ')' && inGroup then .ok (⟨[], []⟩, c :: rest)
    else if c = '(' || c = ')' then .error ⟨.unescaped c, c :: rest⟩
    else if c = '\\' then
      match h : escaped rest with
      | none => .error ⟨.badEscape, c :: rest⟩
      | some (b, after) =>
        have : after.length < rest.length := length_lt_of_escaped h
        match pattern inGroup after with
        | .error stop => .error stop
        | .ok (p, left) => .ok (p.prepend [b], left)
    else
      match pattern inGroup rest with
      | .error stop => .error stop
      | .ok (p, left) =>
        if c = '*' then .ok (⟨[], (c :: rest, p.head) :: p.later⟩, left)
        else .ok (p.prepend (String.utf8EncodeChar c), left)
termination_by cs.length
decreasing_by all_goals (simp only [List.length_cons]; omega)

/-- A value without stars, and the text after it. -/
def plainValue (inGroup : Bool) (cs : List Char) : Except Stop (List UInt8 × List Char) := do
  let (p, rest) ← pattern inGroup cs
  match p.later with
  | [] => .ok (p.head, rest)
  | (star, _) :: _ => .error ⟨.unescaped '*', star⟩

/-! ## Assertions -/

/-- Bytes that are there, or `none` for no bytes. -/
def nonempty? (bytes : List UInt8) : Option (List UInt8) :=
  if bytes.isEmpty then none else some bytes

/-- The parts between the stars of a value after its first star: the last part stands after the
last star, and the ones before it must not be empty. -/
def starParts : List (List Char × List UInt8) →
    Except Stop (List (List UInt8) × Option (List UInt8))
  | [] => .ok ([], none)
  | [(_, last)] => .ok ([], nonempty? last)
  | (_, bytes) :: (star, after) :: later =>
    if bytes.isEmpty then .error ⟨.emptySubstring, star⟩
    else do
      let (inner, last) ← starParts ((star, after) :: later)
      .ok (bytes :: inner, last)

/-- What `attr=value` asserts: equality without a star, presence with a star alone, and parts of
the value otherwise. -/
def ofPattern (attr : String) (p : Pattern) : Except Stop FilterItem :=
  match p.head, p.later with
  | head, [] => .ok (.compare .equal attr head)
  | [], [(_, [])] => .ok (.present attr)
  | head, later => do
    let (inner, last) ← starParts later
    .ok (.substrings attr (nonempty? head) inner last)

/-- The parts of an extensible match before its value. -/
structure MatchHead where
  rule : Option String
  dn : Bool
  deriving DecidableEq, Repr

/-- Reads the words between colons up to `:=`, from a text that begins with a colon. The first word
`dn` before any rule is the keyword; one other word may name the rule. -/
def matchHead (found : MatchHead) (fuel : Nat) (cs : List Char) :
    Except Stop (MatchHead × List Char) :=
  match fuel, cs.drop 1 with
  | _, '=' :: rest => .ok (found, rest)
  | 0, rest => .error ⟨.noColonEquals, rest⟩
  | fuel + 1, rest =>
    let word := String.ofList (rest.takeWhile isDescriptionChar)
    let after := rest.dropWhile isDescriptionChar
    if word.isEmpty || after.head? ≠ some ':' then .error ⟨.noColonEquals, after⟩
    else if found.rule.isSome then .error ⟨.secondRule, rest⟩
    else if word.toList.map Char.toLower = ['d', 'n'] && !found.dn then
      matchHead { found with dn := true } fuel after
    else matchHead { found with rule := some word } fuel after

/-- Reads an extensible match, from the colon after its attribute on; `whole` is the text from the
attribute on. -/
def extensible (inGroup : Bool) (whole : List Char) (attr : String) (cs : List Char) :
    Except Stop (FilterItem × List Char) := do
  let (head, rest) ← matchHead ⟨none, false⟩ cs.length cs
  if attr.isEmpty && head.rule.isNone then throw ⟨.nothingToMatch, whole⟩
  let (value, rest) ← plainValue inGroup rest
  .ok (.extensible head.rule (if attr.isEmpty then none else some attr) value head.dn, rest)

/-- Reads a comparison whose sign takes two characters. -/
def ordering (inGroup : Bool) (relation : Relation) (attr : String) (cs : List Char) :
    Except Stop (FilterItem × List Char) := do
  let (value, rest) ← plainValue inGroup cs
  .ok (.compare relation attr value, rest)

/-- The relation that a character stands for before an equal sign. -/
def relation? (c : Char) : Option Relation :=
  if c = '~' then some .approximate
  else if c = '>' then some .greaterOrEqual
  else if c = '<' then some .lessOrEqual
  else none

/-- Reads an assertion. -/
def assertion (inGroup : Bool) (cs : List Char) : Except Stop (FilterItem × List Char) :=
  let attr := String.ofList (cs.takeWhile isDescriptionChar)
  let rest := cs.dropWhile isDescriptionChar
  if rest.head? = some ':' then extensible inGroup cs attr rest
  else if attr.isEmpty then .error ⟨.noAttribute, cs⟩
  else
    match rest with
    | [] => .error ⟨.noRelation attr, rest⟩
    | '=' :: value => do
      let (p, after) ← pattern inGroup value
      .ok (← ofPattern attr p, after)
    | c :: more =>
      match relation? c with
      | none => .error ⟨.unexpected c, rest⟩
      | some relation =>
        match more with
        | '=' :: value => ordering inGroup relation attr value
        | _ => .error ⟨.noEquals c, rest⟩

/-! ## Groups -/

/-- Reads groups one after the other, at most `fuel` of them, as long as one follows. -/
def groups (group : List Char → Except Stop (Filter × List Char)) :
    Nat → List Char → Except Stop (List Filter × List Char)
  | fuel + 1, '(' :: rest => do
    let (f, rest) ← group ('(' :: rest)
    let (fs, rest) ← groups group fuel rest
    .ok (f :: fs, rest)
  | _, cs => .ok ([], cs)

/-- Takes the parenthesis that closes a group; `whole` is the text from the opening one on. -/
def close (whole : List Char) (f : Filter) : List Char → Except Stop (Filter × List Char)
  | [] => .error ⟨.unclosed, whole⟩
  | c :: rest => if c = ')' then .ok (f, rest) else .error ⟨.unexpected c, c :: rest⟩

/-- Reads a filter in parentheses with at most `room` groups in one another. -/
def group : (room : Nat) → List Char → Except Stop (Filter × List Char)
  | 0, cs => .error ⟨.tooDeep, cs⟩
  | room + 1, cs =>
    match cs.drop 1 with
    | [] => .error ⟨.unclosed, cs⟩
    | '&' :: rest => do
      let (fs, rest) ← groups (group room) rest.length rest
      close cs (.and fs) rest
    | '|' :: rest => do
      let (fs, rest) ← groups (group room) rest.length rest
      close cs (.or fs) rest
    | '!' :: rest =>
      if rest.head? = some '(' then do
        let (f, rest) ← group room rest
        close cs (.not f) rest
      else .error ⟨.lonelyNot, rest⟩
    | rest => do
      let (i, rest) ← assertion true rest
      close cs (.item i) rest

/-- Reads a filter text, whose outer parentheses may be missing around a single assertion. -/
def scan (cs : List Char) : Except Stop Filter := do
  let (f, rest) ←
    match cs with
    | [] => .error ⟨.empty, cs⟩
    | '(' :: _ => group (maxDepth + 1) cs
    | _ => do
      let (i, rest) ← assertion false cs
      .ok (.item i, rest)
  if rest.isEmpty then .ok f else .error ⟨.trailing, rest⟩

/-- Reads a filter text. -/
def parse (text : String) : Except ProtocolError Filter :=
  match scan text.toList with
  | .ok f => .ok f
  | .error stop => .error (.malformedFilter text (stop.position text) stop.fault)

end Ldap.Filter
