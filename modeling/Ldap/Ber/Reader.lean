import Ldap.Ber.Element
import Ldap.Ber.Source
import Ldap.Runs

/-!
# Reading elements from a source

A reader takes elements off a source one after the other and counts their bytes. It can look at one
byte ahead without counting it. A `Cursor` remembers where a sequence whose header was read ends,
so that its members can be read one by one (`walk`); each counts for some bytes
(`total_lt_of_element`), so that they come to an end.

An operation that fails leaves the reader usable; what it took from the source is gone.
-/

namespace Ldap.Ber

/-- A source with the byte that was looked at ahead, the count of bytes read, and the longest
content accepted. -/
structure Reader where
  source : Source
  held : Option UInt8
  total : Nat
  limit : Nat
  deriving DecidableEq, Repr

/-- Where a sequence ends, in bytes read. -/
structure Cursor where
  tag : Tag
  length : Nat
  stop : Nat
  deriving DecidableEq, Repr

/-- The longest content accepted unless told otherwise: 20 MiB. -/
def defaultLimit : Nat := 20 * 1024 * 1024

/-- Operations on a reader, which keep its state when they fail. -/
abbrev ReadM := ExceptT Error (StateM Reader)

namespace Reader

/-- A reader at the start of a source. -/
def ofSource (source : Source) (limit : Nat) : Reader :=
  { source, held := none, total := 0, limit }

/-! ## Bytes -/

/-- The next byte of the source, uncounted; none at the end. -/
def rawByte : ReadM (Option UInt8) := do
  let r ← get
  let ((bytes, ending), source) := r.source.fill 1
  set { r with source }
  match bytes, ending with
  | _, some (.failure reason) => throw (.source reason)
  | b :: _, _ => pure (some b)
  | [], _ => pure none

/-- Looks at the next byte without counting it. -/
def peek : ReadM (Option UInt8) := do
  let r ← get
  match r.held with
  | some b => pure (some b)
  | none =>
    let b ← rawByte
    modify fun r => { r with held := b }
    pure b

/-- Looks at the tag of the next element. -/
def peekTag : ReadM Tag := do
  match ← peek with
  | some b => pure b
  | none => throw .endOfInput

/-- Takes the next byte and counts it. -/
def nextByte : ReadM (Option UInt8) := do
  let r ← get
  match r.held with
  | some b =>
    set { r with held := none, total := r.total + 1 }
    pure (some b)
  | none =>
    match ← rawByte with
    | some b =>
      modify fun r => { r with total := r.total + 1 }
      pure (some b)
    | none => pure none

/-- Takes the byte that was looked at, if there is one, and counts it. -/
def takeHeld : ReadM (List UInt8) := do
  let r ← get
  set { r with held := none, total := r.total + r.held.toList.length }
  pure r.held.toList

/-- Takes `n` bytes off the source. Bytes are counted only if all of them are there. -/
def fromSource (n : Nat) : ReadM (List UInt8) := do
  let r ← get
  let ((bytes, ending), source) := r.source.fill n
  set { r with source }
  match ending with
  | some .endOfInput => throw .endOfInput
  | some (.failure reason) => throw (.source reason)
  | none =>
    modify fun r => { r with total := r.total + n }
    pure bytes

/-- Takes `n` bytes, first the one that was looked at. -/
def exactly (n : Nat) : ReadM (List UInt8) := do
  let first ← if n = 0 then pure [] else takeHeld
  let others ← fromSource (n - first.length)
  pure (first ++ others)

/-! ## Elements -/

/-- The tag and length of the next element; none at the end of the source. -/
def header : ReadM (Option (Tag × Nat)) := do
  match ← nextByte with
  | none => pure none
  | some tag =>
    match ← nextByte with
    | none => throw .endOfInput
    | some first =>
      let count ← MonadExcept.ofExcept (Length.continuationCount first)
      let rest ← exactly count
      let length := Length.assemble first rest
      let limit := (← get).limit
      if limit < length then throw (.elementTooLarge length limit)
      pure (some (tag, length))

/-- The next element; none at the end of the source. -/
def element? : ReadM (Option Element) := do
  match ← header with
  | none => pure none
  | some (tag, length) =>
    let content ← exactly length
    pure (some ⟨tag, content⟩)

/-- The next element, which has to be there. -/
def element : ReadM Element := do
  match ← element? with
  | some e => pure e
  | none => throw .endOfInput

/-- Passes over the next element. -/
def skip : ReadM Unit := do
  let _ ← element

/-- Reads the header of a sequence and marks where its content ends. -/
def begin : ReadM Cursor := do
  match ← header with
  | none => throw .endOfInput
  | some (tag, length) =>
    let r ← get
    pure ⟨tag, length, r.total + length⟩

/-! ## Typed reads, under any tag -/

def boolean : ReadM Bool := do
  let e ← element
  MonadExcept.ofExcept e.truth

def integer : ReadM Int64 := do
  let e ← element
  MonadExcept.ofExcept (Integer.decode .integer e.content)

def int32 : ReadM Int32 := do
  let e ← element
  MonadExcept.ofExcept (Integer.decode32 .integer e.content)

def enumerated : ReadM Int32 := do
  let e ← element
  MonadExcept.ofExcept (Integer.decode32 .enumerated e.content)

def octets : ReadM (List UInt8) := do
  let e ← element
  pure e.content

def string : ReadM String := do
  let e ← element
  MonadExcept.ofExcept e.text

def null : ReadM Unit := do
  let e ← element
  MonadExcept.ofExcept e.nothing

end Reader

/-! ## The members of a sequence -/

/-- Whether members of the sequence are left when `total` bytes were read. -/
def Cursor.hasMore (c : Cursor) (total : Nat) : Except Error Bool :=
  if total < c.stop then .ok true
  else if total = c.stop then .ok false
  else .error (.readPastEnd c.length c.stop total)

theorem Cursor.hasMore_eq_true_iff {c : Cursor} {total : Nat} :
    c.hasMore total = .ok true ↔ total < c.stop := by
  unfold hasMore
  split
  · simp [*]
  · split <;> simp [*]

namespace Reader

variable {r r' : Reader}

theorem total_of_rawByte {b? : Option UInt8} (h : Runs rawByte r b? r') : r'.total = r.total := by
  unfold rawByte at h
  rw [runs_get_bind_iff] at h
  obtain ⟨_, s, hset, h⟩ := runs_bind_iff.1 h
  cases hset
  split at h
  · cases runs_throw_iff.1 h
  all_goals
    obtain ⟨-, rfl⟩ := runs_pure_iff.1 h
    rfl

theorem total_lt_of_nextByte {b : UInt8} (h : Runs nextByte r (some b) r') :
    r.total < r'.total := by
  unfold nextByte at h
  rw [runs_get_bind_iff] at h
  split at h
  · obtain ⟨_, _, hset, h⟩ := runs_bind_iff.1 h
    cases hset
    obtain ⟨-, rfl⟩ := runs_pure_iff.1 h
    exact Nat.lt_succ_self _
  · obtain ⟨b?, s, hraw, h⟩ := runs_bind_iff.1 h
    have hraw := total_of_rawByte hraw
    cases b? with
    | none => cases (runs_pure_iff.1 h).1
    | some b =>
      obtain ⟨_, _, hmodify, h⟩ := runs_bind_iff.1 h
      cases hmodify
      obtain ⟨-, rfl⟩ := runs_pure_iff.1 h
      show r.total < s.total + 1
      omega

theorem total_le_of_fromSource {n : Nat} {bytes : List UInt8} (h : Runs (fromSource n) r bytes r') :
    r.total ≤ r'.total := by
  unfold fromSource at h
  rw [runs_get_bind_iff] at h
  obtain ⟨_, s, hset, h⟩ := runs_bind_iff.1 h
  cases hset
  split at h
  · cases runs_throw_iff.1 h
  · cases runs_throw_iff.1 h
  · obtain ⟨_, _, hmodify, h⟩ := runs_bind_iff.1 h
    cases hmodify
    obtain ⟨-, rfl⟩ := runs_pure_iff.1 h
    exact Nat.le_add_right _ _

theorem total_le_of_exactly {n : Nat} {bytes : List UInt8} (h : Runs (exactly n) r bytes r') :
    r.total ≤ r'.total := by
  unfold exactly at h
  dsimp only at h
  split at h
  all_goals
    obtain ⟨first, s, hfirst, h⟩ := runs_bind_iff.1 h
    obtain ⟨others, t, hothers, h⟩ := runs_bind_iff.1 h
    obtain ⟨-, rfl⟩ := runs_pure_iff.1 h
    refine Nat.le_trans ?_ (total_le_of_fromSource hothers)
  · obtain ⟨-, rfl⟩ := runs_pure_iff.1 hfirst
    exact Nat.le_refl _
  · cases hfirst
    exact Nat.le_add_right _ _

theorem total_lt_of_header {x : Tag × Nat} (h : Runs header r (some x) r') :
    r.total < r'.total := by
  obtain ⟨tag?, r₁, htag, h⟩ := runs_bind_iff.1 h
  cases tag? with
  | none => cases (runs_pure_iff.1 h).1
  | some tag =>
    obtain ⟨first?, r₂, hfirst, h⟩ := runs_bind_iff.1 h
    cases first? with
    | none => cases runs_throw_iff.1 h
    | some first =>
      obtain ⟨count, _, hcount, h⟩ := runs_bind_iff.1 h
      obtain ⟨-, rfl⟩ := runs_ofExcept_iff.1 hcount
      obtain ⟨rest, r₃, hrest, h⟩ := runs_bind_iff.1 h
      rw [runs_get_bind_iff] at h
      dsimp only at h
      split at h
      · obtain ⟨_, _, hthrow, -⟩ := runs_bind_iff.1 h
        cases runs_throw_iff.1 hthrow
      · obtain ⟨-, rfl⟩ := runs_pure_iff.1 h
        exact Nat.lt_of_lt_of_le
          (Nat.lt_trans (total_lt_of_nextByte htag) (total_lt_of_nextByte hfirst))
          (total_le_of_exactly hrest)

/-- An element that is taken counts for some bytes. -/
theorem total_lt_of_element {e : Element} (h : Runs element r e r') : r.total < r'.total := by
  obtain ⟨e?, s, helement, h⟩ := runs_bind_iff.1 h
  cases e? with
  | none => cases runs_throw_iff.1 h
  | some _ =>
    obtain ⟨-, rfl⟩ := runs_pure_iff.1 h
    obtain ⟨x?, t, hheader, helement⟩ := runs_bind_iff.1 helement
    cases x? with
    | none => cases (runs_pure_iff.1 helement).1
    | some x =>
      obtain ⟨content, u, hcontent, helement⟩ := runs_bind_iff.1 helement
      obtain ⟨-, rfl⟩ := runs_pure_iff.1 helement
      exact Nat.lt_of_lt_of_le (total_lt_of_header hheader) (total_le_of_exactly hcontent)

/-- Takes the members before the end of a sequence one by one, until the cursor says that none are
left or something fails. -/
def walk (c : Cursor) (r : Reader) : Except Error (List Element) × Reader :=
  match hmore : c.hasMore r.total with
  | .error fault => (.error fault, r)
  | .ok false => (.ok [], r)
  | .ok true =>
    match htaken : element.run.run r with
    | (.error fault, r') => (.error fault, r')
    | (.ok e, r') =>
      have : c.stop - r'.total < c.stop - r.total := by
        have hlt := total_lt_of_element htaken
        have hbefore := Cursor.hasMore_eq_true_iff.1 hmore
        omega
      match walk c r' with
      | (.error fault, r'') => (.error fault, r'')
      | (.ok es, r'') => (.ok (e :: es), r'')
termination_by c.stop - r.total

end Reader
end Ldap.Ber
