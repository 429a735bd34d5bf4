import Ldap.Proofs.Ber.Failure
import Ldap.Proofs.Ber.Walk
import Ldap.Proofs.Message.Refusal
import Mathlib.Tactic

/-!
# Members that run past the end of their message

The count of bytes read is compared with the end of a message between members only. A member that
runs past this end is taken first, and before the count is looked at again there may be something
else to object to: its length, what it holds, or the header of what stands behind it.
`framing_of_overrun_iff` says that such a message is always refused, and when that is told as what
it is, a stream that is out of step.
-/

namespace Ldap

open Ber (Element Reader ReadM Cursor Tag HeaderRefused)

/-! ## Failures and what they say of the stream -/

/-- From a state, an action fails, and the error says that the stream is out of step exactly in some
case. -/
def FailsFraming {ε σ α : Type} (isFraming : ε → Bool) (x : ExceptT ε (StateM σ) α) (s : σ)
    (framing : Prop) : Prop :=
  ∃ e, Fails x s e ∧ (isFraming e = true ↔ framing)

namespace FailsFraming

variable {ε σ α β : Type} {isFraming : ε → Bool} {x : ExceptT ε (StateM σ) α} {s t : σ}
  {framing : Prop}

/-- What fails first is what the whole fails with. -/
theorem bind (h : FailsFraming isFraming x s framing) (f : α → ExceptT ε (StateM σ) β) :
    FailsFraming isFraming (x >>= f) s framing := by
  obtain ⟨e, he, hframing⟩ := h
  exact ⟨e, he.bind f, hframing⟩

/-- What runs leaves the failure to what comes after it. -/
theorem of_runs {f : α → ExceptT ε (StateM σ) β} {a : α} (hx : Runs x s a t)
    (h : FailsFraming isFraming (f a) t framing) : FailsFraming isFraming (x >>= f) s framing := by
  obtain ⟨e, he, hframing⟩ := h
  exact ⟨e, hx.bind_fails he, hframing⟩

theorem congr {framing' : Prop} (h : FailsFraming isFraming x s framing)
    (hiff : framing ↔ framing') : FailsFraming isFraming x s framing' := by
  obtain ⟨e, he, hframing⟩ := h
  exact ⟨e, he, hframing.trans hiff⟩

/-- What is thrown is no reason to give the stream up. -/
theorem throw {e : ε} (h : isFraming e = false) (s : σ) :
    FailsFraming isFraming (throw e : ExceptT ε (StateM σ) α) s False :=
  ⟨e, fails_throw e s, by simp [h]⟩

end FailsFraming

/-- What is wrong with content does not put a stream out of step. -/
theorem ProtocolError.IsContent.not_isFraming {e : ProtocolError} (h : e.IsContent) :
    e.isFraming = false := by
  cases e with
  | ber e => exact Ber.Error.IsContent.not_isFraming h
  | inMessage => exact h.elim
  | _ => rfl

/-- The identifier of its message does not change what an error says of the stream. -/
theorem ProtocolError.isFraming_withMessageId (e : ProtocolError) (id : Int32) :
    (e.withMessageId id).isFraming = e.isFraming := by
  cases e <;> rfl

namespace Message

/-- A reading of a message fails, and the stream is said to be out of step exactly in some case. -/
abbrev Breaks {α : Type} (x : MessageM α) (r : Reader) (framing : Prop) : Prop :=
  FailsFraming ProtocolError.isFraming x r framing

variable {r r' : Reader} {envelope : Cursor} {id : Int32} {framing : Prop}

theorem breaks_liftReader {α : Type} {x : ReadM α}
    (h : FailsFraming Ber.Error.isFraming x r framing) : Breaks (liftM x) r framing := by
  obtain ⟨e, he, hframing⟩ := h
  refine ⟨.ber e, ?_, hframing⟩
  unfold Fails at he ⊢
  rw [run_liftReader, he]
  rfl

/-- An error that is told with the identifier of its message breaks the framing if it did without.
-/
theorem Breaks.withMessageId {α : Type} {x : MessageM α} (h : Breaks x r framing) (id : Int32) :
    Breaks (tryCatch x fun e => throw (e.withMessageId id)) r framing := by
  obtain ⟨e, he, hframing⟩ := h
  exact ⟨_, he.tryCatch fun e => e.withMessageId id, by rwa [e.isFraming_withMessageId id]⟩

/-- A decoder that refuses an element leaves the framing alone. -/
theorem breaks_liftExcept {α : Type} {x : Except ProtocolError α} {e : ProtocolError}
    (h : x = .error e) (he : e.isFraming = false) (r : Reader) :
    Breaks (liftM x) r False :=
  ⟨e, fails_ofExcept h r, by simp [he]⟩

/-! ## Steps -/

/-- Behind the end of the message the cursor finds that the stream is out of step. -/
theorem breaks_hasMore (h : envelope.stop < r.total) : Breaks (hasMore envelope) r True := by
  have herror : (envelope.hasMore r.total).mapError ProtocolError.ber =
      .error (.ber (.readPastEnd envelope.length envelope.stop r.total)) := by
    rw [Cursor.hasMore_of_stop_lt h]
    rfl
  unfold hasMore
  refine .of_runs (a := r) (t := r) rfl ?_
  exact ⟨_, fails_ofExcept herror r, by simp [ProtocolError.isFraming, Ber.Error.isFraming]⟩

/-- Before the end of the envelope there is more. -/
theorem runs_hasMore_true (h : r.total < envelope.stop) : Runs (hasMore envelope) r true r :=
  runs_hasMore_iff.2 ⟨.inl ⟨rfl, h⟩, rfl⟩

theorem breaks_readExtra_of_element (h : Breaks (liftM Reader.element) r framing) :
    Breaks readExtra r framing :=
  h.bind _

/-- What follows the operation is asked for its tag as soon as it is there. -/
theorem breaks_readExtra_of_tag {e : Element} (he : Runs Reader.element r e r')
    (htag : e.tag ≠ Control.listTag) : Breaks readExtra r False := by
  refine .of_runs (runs_liftReader_iff.2 he) ?_
  rw [if_neg htag]
  exact .throw rfl r'

/-- Controls are read from nothing but their list. -/
theorem tag_of_decodeAll {e : Element} {cs : List Control} (h : Control.decodeAll e = .ok cs) :
    e.tag = Control.listTag := by
  obtain ⟨_, hes, -⟩ := Control.decodeAll_eq_ok_iff.1 h
  exact hes.tag_eq

theorem breaks_readControls_of_element (more : r.total < envelope.stop)
    (h : Breaks (liftM Reader.element) r framing) : Breaks (readControls envelope) r framing := by
  refine .of_runs (runs_hasMore_true more) ?_
  rw [if_pos rfl]
  exact (breaks_readExtra_of_element h).bind _

/-- What stands where controls may come is looked at before the count of bytes is. -/
theorem breaks_readControls_of_extra {e : Element} (more : r.total < envelope.stop)
    (he : Runs Reader.element r e r') (beyond : envelope.stop < r'.total) :
    Breaks (readControls envelope) r (∃ cs, Control.decodeAll e = .ok cs) := by
  refine .of_runs (runs_hasMore_true more) ?_
  rw [if_pos rfl]
  by_cases htag : e.tag = Control.listTag
  · refine .of_runs (runs_readExtra_iff.2 ⟨he, htag⟩) ?_
    cases hcs : Control.decodeAll e with
    | error fault =>
      have hkept := ((Control.decodeAll_refuses e).of_eq_error hcs).not_isFraming
      exact ((breaks_liftExcept rfl hkept r').bind _).congr (by simp)
    | ok cs =>
      refine .of_runs (runs_liftExcept_iff.2 ⟨rfl, rfl⟩) ?_
      exact ((breaks_hasMore beyond).bind _).congr (by simp)
  · have hnone : ¬ ∃ cs, Control.decodeAll e = .ok cs := by
      rintro ⟨cs, hcs⟩
      exact htag (tag_of_decodeAll hcs)
    exact ((breaks_readExtra_of_tag he htag).bind _).congr (by simp [hnone])

/-- Behind the controls one more member is read before it is refused. -/
theorem breaks_readControls_of_surplus {e : Element} {cs : List Control}
    (more : r.total < envelope.stop) (he : Runs Reader.element r e r')
    (hcs : Control.decodeAll e = .ok cs) (more' : r'.total < envelope.stop)
    (h : ∀ {α : Type} (f : Element → MessageM α), (∀ e' s, Breaks (f e') s False) →
      Breaks (readExtra >>= f) r' framing) :
    Breaks (readControls envelope) r framing := by
  refine .of_runs (runs_hasMore_true more) ?_
  rw [if_pos rfl]
  refine .of_runs (runs_readExtra_iff.2 ⟨he, tag_of_decodeAll hcs⟩)
    (.of_runs (runs_liftExcept_iff.2 ⟨hcs, rfl⟩) (.of_runs (runs_hasMore_true more') ?_))
  rw [if_pos rfl]
  exact h _ fun e' s => .bind (.throw rfl s) _

/-- An identifier below zero is refused before the operation is looked at. -/
theorem breaks_readBody_of_neg (h : id < 0) (r : Reader) :
    Breaks (readBody envelope id) r False := by
  unfold readBody
  dsimp only
  rw [if_pos h]
  exact .bind (.throw rfl r) _

theorem breaks_readBody_of_element (nonneg : 0 ≤ id) (h : Breaks (liftM Reader.element) r framing) :
    Breaks (readBody envelope id) r framing := by
  unfold readBody
  dsimp only
  rw [if_neg (Int32.not_lt.2 nonneg)]
  exact h.bind _

theorem breaks_readBody_of_controls {op : Element} (nonneg : 0 ≤ id)
    (hop : Runs Reader.element r op r') (h : Breaks (readControls envelope) r' framing) :
    Breaks (readBody envelope id) r framing := by
  unfold readBody
  dsimp only
  rw [if_neg (Int32.not_lt.2 nonneg)]
  exact .of_runs (runs_liftReader_iff.2 hop) (h.bind _)

/-! ## Places in a message -/

/-- Where a member stands in a message. -/
inductive Place where
  | identifier
  | operation
  | controls
  /-- Behind the controls, where nothing may stand. -/
  | surplus
  deriving DecidableEq, Repr

/-- Reading a message gets as far as a place in its envelope. -/
inductive Reaches (r : Reader) (envelope : Cursor) : Place → Reader → Prop
  | identifier {b : UInt8} {t r' : Reader} (peeked : Runs Reader.peek r (some b) t)
      (begun : Runs Reader.begin t envelope r') (tag : envelope.tag = .sequence) :
      Reaches r envelope .identifier r'
  | operation {t r' : Reader} {id : Int32} (before : Reaches r envelope .identifier t)
      (read : Runs Reader.int32 t id r') (nonneg : 0 ≤ id) : Reaches r envelope .operation r'
  | controls {t r' : Reader} {op : Element} (before : Reaches r envelope .operation t)
      (read : Runs Reader.element t op r') : Reaches r envelope .controls r'
  | surplus {t r' : Reader} {e : Element} {cs : List Control}
      (before : Reaches r envelope .controls t) (more : t.total < envelope.stop)
      (read : Runs Reader.element t e r') (decoded : Control.decodeAll e = .ok cs) :
      Reaches r envelope .surplus r'

/-- A member whose header begins before the end of the message says that it ends behind it: it has a
tag, a length `n`, and then the bytes `tail` come. -/
structure Overruns (envelope : Cursor) (r : Reader) (tag : Tag) (n : Nat) (tail : List UInt8) :
    Prop where
  inside : r.total < envelope.stop
  header : ∃ body, r.rest = tag :: body ∧ Ber.Length.decode body = .ok (n, tail)
  beyond : envelope.stop < r.total + (r.rest.length - tail.length) + n

/-- What a member at a place that is there as a whole, with what stands behind it, has to be for
nothing else to be objected to before the count of bytes is looked at. -/
def Place.Passes (limit : Nat) (tag : Tag) (content behind : List UInt8) : Place → Prop
  | .identifier =>
    (∃ id, Ber.Integer.decode32 .integer content = .ok id ∧ 0 ≤ id) ∧ ¬ HeaderRefused limit behind
  | .operation => True
  | .controls => ∃ cs, Control.decodeAll ⟨tag, content⟩ = .ok cs
  | .surplus => False

section Read

variable {r r' t : Reader} {envelope : Cursor} {id : Int32} {framing : Prop} {b : UInt8}

theorem breaks_read_of_int32 (h : Reaches r envelope .identifier r')
    (hid : Breaks (liftM Reader.int32) r' framing) : Breaks read r framing := by
  cases h with
  | identifier peeked begun tag =>
    refine .of_runs (runs_liftReader_iff.2 peeked) (.of_runs (runs_liftReader_iff.2 begun) ?_)
    dsimp only
    rw [if_neg (not_not.2 tag)]
    exact hid.bind _

theorem breaks_read_of_readBody (h : Reaches r envelope .identifier t)
    (hid : Runs Reader.int32 t id r') (hbody : Breaks (readBody envelope id) r' framing) :
    Breaks read r framing := by
  cases h with
  | identifier peeked begun tag =>
    refine .of_runs (runs_liftReader_iff.2 peeked) (.of_runs (runs_liftReader_iff.2 begun) ?_)
    dsimp only
    rw [if_neg (not_not.2 tag)]
    exact .of_runs (runs_liftReader_iff.2 hid) ((hbody.withMessageId id).bind _)

/-- What goes wrong behind the operation is what the message is refused for. -/
theorem breaks_read_of_readControls (h : Reaches r envelope .controls r')
    (hcontrols : Breaks (readControls envelope) r' framing) : Breaks read r framing := by
  cases h with
  | controls before read =>
    cases before with
    | operation before hid nonneg =>
      exact breaks_read_of_readBody before hid (breaks_readBody_of_controls nonneg read hcontrols)

/-- On the way to a member the limit stays what it is. -/
theorem Reaches.limit {place : Place} (h : Reaches r envelope place r') : r'.limit = r.limit := by
  induction h with
  | identifier peeked begun _ =>
    obtain ⟨_, _, hheader, -⟩ := Reader.runs_begin_iff.1 begun
    obtain ⟨_, htook, -⟩ := Reader.took_of_header hheader
    exact htook.limit.trans (Reader.took_of_peek peeked).limit
  | operation _ read _ ih =>
    obtain ⟨_, helement, -⟩ := runs_int32_iff.1 read
    obtain ⟨_, htook, -⟩ := Reader.took_of_element helement
    exact htook.limit.trans ih
  | controls _ read ih | surplus _ _ read _ ih =>
    obtain ⟨_, htook, -⟩ := Reader.took_of_element read
    exact htook.limit.trans ih

end Read

/-! ## Members that run past the end -/

section Overruns

variable {r r' : Reader} {envelope : Cursor} {tag : Tag} {n : Nat} {tail : List UInt8}

/-- A member that cannot be had is missed, unless it is too long anyway. -/
theorem Overruns.missed (h : Overruns envelope r tag n tail)
    (hnot : ¬ (n ≤ r.limit ∧ n ≤ tail.length)) :
    FailsFraming Ber.Error.isFraming Reader.element r (n ≤ r.limit) := by
  obtain ⟨body, hrest, hlength⟩ := h.header
  obtain ⟨hover, hmissed, -⟩ := Reader.element_of_header hrest hlength
  by_cases hle : n ≤ r.limit
  · obtain ⟨e, he, hframing⟩ := hmissed hle (by omega)
    exact ⟨e, he, by simp [hframing, hle]⟩
  · obtain ⟨e, he, hframing⟩ := hover (by omega)
    exact ⟨e, he, by simp [hframing, hle]⟩

/-- A member that can be had is taken, and with it more than the message. -/
theorem Overruns.taken (h : Overruns envelope r tag n tail) (hle : n ≤ r.limit)
    (hthere : n ≤ tail.length) :
    ∃ r', Runs Reader.element r ⟨tag, tail.take n⟩ r' ∧ r'.rest = tail.drop n ∧
      r'.limit = r.limit ∧ envelope.stop < r'.total := by
  obtain ⟨body, hrest, hlength⟩ := h.header
  obtain ⟨-, -, htaken⟩ := Reader.element_of_header hrest hlength
  obtain ⟨r', helement, hrest'⟩ := htaken hle hthere
  obtain ⟨_, htook, -⟩ := Reader.took_of_element helement
  have htotal := htook.length_eq
  have hlt := Element.length_rest_lt_of_decode hlength
  have hbeyond := h.beyond
  rw [hrest', List.length_drop] at htotal
  rw [hrest, List.length_cons] at htotal hbeyond
  exact ⟨r', helement, hrest', htook.limit, by omega⟩

/-- A member that is too long for the limit or for the source is not read at all. -/
theorem Overruns.fails_of_missed {place : Place} (hreach : Reaches r envelope place r')
    (h : Overruns envelope r' tag n tail) (hnot : ¬ (n ≤ r'.limit ∧ n ≤ tail.length)) :
    Breaks read r (n ≤ r'.limit) := by
  have hmissed : Breaks (liftM Reader.element) r' (n ≤ r'.limit) :=
    breaks_liftReader (h.missed hnot)
  cases place with
  | identifier => exact breaks_read_of_int32 hreach (breaks_liftReader ((h.missed hnot).bind _))
  | operation =>
    cases hreach with
    | operation before hid nonneg =>
      exact breaks_read_of_readBody before hid (breaks_readBody_of_element nonneg hmissed)
  | controls =>
    exact breaks_read_of_readControls hreach (breaks_readControls_of_element h.inside hmissed)
  | surplus =>
    cases hreach with
    | surplus before more hread decoded =>
      exact breaks_read_of_readControls before (breaks_readControls_of_surplus more hread decoded
        h.inside fun f _ => (breaks_readExtra_of_element hmissed).bind f)

/-- Behind the end of the message there may be a header that is refused, before the cursor is
asked. -/
theorem breaks_readBody_of_stop_lt {id : Int32} (nonneg : 0 ≤ id)
    (beyond : envelope.stop < r.total) :
    Breaks (readBody envelope id) r (¬ HeaderRefused r.limit r.rest) := by
  obtain ⟨op, t, hop⟩ | ⟨e, he⟩ := runs_or_fails Reader.element r
  · obtain ⟨_, htook, -⟩ := Reader.took_of_element hop
    have hnot : ¬ HeaderRefused r.limit r.rest := by
      intro hrefused
      obtain ⟨e, hheader, -⟩ := Reader.fails_header_of_refused hrefused
      exact ((hheader.bind _).bind _ : Fails Reader.element r e).not_runs hop
    have hstop : Breaks (readControls envelope) t True :=
      (breaks_hasMore (by rw [htook.total]; omega)).bind _
    exact (breaks_readBody_of_controls nonneg hop hstop).congr (by simp [hnot])
  · exact breaks_readBody_of_element nonneg
      (breaks_liftReader ⟨e, he, Reader.isFraming_iff_of_element he⟩)

/-- A member that is there as a whole is read, and then what it is decides how the message fails. -/
theorem Overruns.fails_of_taken {place : Place} (hreach : Reaches r envelope place r')
    (h : Overruns envelope r' tag n tail) (hle : n ≤ r'.limit) (hthere : n ≤ tail.length) :
    Breaks read r (place.Passes r'.limit tag (tail.take n) (tail.drop n)) := by
  obtain ⟨t, helement, hrest, hlimit, hbeyond⟩ := h.taken hle hthere
  cases place with
  | identifier =>
    rw [Place.Passes, ← hrest, ← hlimit]
    cases hid : Ber.Integer.decode32 .integer (tail.take n) with
    | error e =>
      have hkept := ((Ber.Integer.decode32_refuses _ _).of_eq_error hid).not_isFraming
      have hint : FailsFraming Ber.Error.isFraming Reader.int32 r' False :=
        .of_runs helement ⟨e, fails_ofExcept hid t, by simp [hkept]⟩
      exact (breaks_read_of_int32 hreach (breaks_liftReader hint)).congr (by simp)
    | ok id =>
      have hint : Runs Reader.int32 r' id t := runs_int32_iff.2 ⟨_, helement, hid⟩
      refine (breaks_read_of_readBody hreach hint ?_)
      by_cases nonneg : 0 ≤ id
      · exact (breaks_readBody_of_stop_lt nonneg hbeyond).congr (by simp [nonneg])
      · exact (breaks_readBody_of_neg (Int32.not_le.1 nonneg) t).congr (by simp [nonneg])
  | operation =>
    cases hreach with
    | operation before hid nonneg =>
      exact breaks_read_of_readBody before hid
        (breaks_readBody_of_controls nonneg helement ((breaks_hasMore hbeyond).bind _))
  | controls =>
    exact breaks_read_of_readControls hreach
      (breaks_readControls_of_extra h.inside helement hbeyond)
  | surplus =>
    cases hreach with
    | surplus before more hread decoded =>
      refine breaks_read_of_readControls before (breaks_readControls_of_surplus more hread decoded
        h.inside fun f hf => ?_)
      by_cases htag : tag = Control.listTag
      · exact .of_runs (runs_readExtra_iff.2 ⟨helement, htag⟩) (hf _ t)
      · exact (breaks_readExtra_of_tag helement htag).bind f

/-- When reading a message gets to a member whose header begins before the end of the message and
says that the member ends behind it, the message is refused. The stream is said to be out of step
exactly if the member is not over the limit, and if it breaks off or is followed and filled so that
nothing else is objected to before the count of bytes is looked at: an identifier has to be one, and
no refused header may follow it; controls have to be controls; an operation may be anything, and
what stands behind the controls is objected to anyway. -/
theorem framing_of_overrun_iff {place : Place} (hreach : Reaches r envelope place r')
    (hover : Overruns envelope r' tag n tail) :
    ∃ e, Fails read r e ∧ (e.isFraming = true ↔
      n ≤ r.limit ∧ (tail.length < n ∨
        place.Passes r.limit tag (tail.take n) (tail.drop n))) := by
  rw [← hreach.limit]
  by_cases hthere : n ≤ r'.limit ∧ n ≤ tail.length
  · refine (hover.fails_of_taken hreach hthere.1 hthere.2).congr ?_
    have hnot : ¬ tail.length < n := not_lt.2 hthere.2
    simp [hthere.1, hnot]
  · refine (hover.fails_of_missed hreach hthere).congr ?_
    have hbreaks : n ≤ r'.limit → tail.length < n := fun hle => not_le.1 fun hle' =>
      hthere ⟨hle, hle'⟩
    exact ⟨fun hle => ⟨hle, .inl (hbreaks hle)⟩, fun h => h.1⟩

end Overruns

/-- The operation of a message says that it ends five bytes behind the message. -/
theorem framing_of_long_operation :
    let r (bytes : List UInt8) (held : Option UInt8) (total : Nat) : Reader :=
      ⟨.ofBytes bytes, held, total, 100⟩
    let start := r [0x30, 0x05, 0x02, 0x01, 0x01, 0x42, 0x05, 0x61, 0x62, 0x63, 0x64, 0x65] none 0
    let operation := r [0x42, 0x05, 0x61, 0x62, 0x63, 0x64, 0x65] none 5
    Reaches start ⟨.sequence, 5, 7⟩ .operation operation ∧
      Overruns ⟨.sequence, 5, 7⟩ operation 0x42 5 [0x61, 0x62, 0x63, 0x64, 0x65] ∧
      ∃ e, Fails read start e ∧ e.isFraming = true := by
  intro r start operation
  have hpeek : Runs Reader.peek start (some 0x30)
      (r [0x05, 0x02, 0x01, 0x01, 0x42, 0x05, 0x61, 0x62, 0x63, 0x64, 0x65] (some 0x30) 0) := by
    decide +kernel
  have hbegin : Runs Reader.begin
      (r [0x05, 0x02, 0x01, 0x01, 0x42, 0x05, 0x61, 0x62, 0x63, 0x64, 0x65] (some 0x30) 0)
      ⟨.sequence, 5, 7⟩
      (r [0x02, 0x01, 0x01, 0x42, 0x05, 0x61, 0x62, 0x63, 0x64, 0x65] none 2) := by
    decide +kernel
  have hid : Runs Reader.int32
      (r [0x02, 0x01, 0x01, 0x42, 0x05, 0x61, 0x62, 0x63, 0x64, 0x65] none 2) 1 operation := by
    decide +kernel
  have hreach : Reaches start ⟨.sequence, 5, 7⟩ .operation operation :=
    .operation (.identifier hpeek hbegin rfl) hid (by decide)
  have hover : Overruns ⟨.sequence, 5, 7⟩ operation 0x42 5 [0x61, 0x62, 0x63, 0x64, 0x65] :=
    ⟨by decide, ⟨[0x05, 0x61, 0x62, 0x63, 0x64, 0x65], by decide +kernel, by decide +kernel⟩,
      by decide +kernel⟩
  obtain ⟨e, he, hframing⟩ := framing_of_overrun_iff hreach hover
  exact ⟨hreach, hover, e, he, hframing.2 ⟨by decide, .inr trivial⟩⟩

/-- An octet string behind the operation of a message begins in the message and ends behind it. It
is refused for its tag, and the stream is not said to be out of step. -/
theorem not_framing_of_long_octetString :
    let r (bytes : List UInt8) (held : Option UInt8) (total : Nat) : Reader :=
      ⟨.ofBytes bytes, held, total, 100⟩
    let start := r [0x30, 0x07, 0x02, 0x01, 0x01, 0x42, 0x00, 0x04, 0x03, 0x61, 0x62, 0x63] none 0
    let behind := r [0x04, 0x03, 0x61, 0x62, 0x63] none 7
    Reaches start ⟨.sequence, 7, 9⟩ .controls behind ∧
      Overruns ⟨.sequence, 7, 9⟩ behind 0x04 3 [0x61, 0x62, 0x63] ∧
      ∃ e, Fails read start e ∧ e.isFraming = false := by
  intro r start behind
  have hpeek : Runs Reader.peek start (some 0x30)
      (r [0x07, 0x02, 0x01, 0x01, 0x42, 0x00, 0x04, 0x03, 0x61, 0x62, 0x63] (some 0x30) 0) := by
    decide +kernel
  have hbegin : Runs Reader.begin
      (r [0x07, 0x02, 0x01, 0x01, 0x42, 0x00, 0x04, 0x03, 0x61, 0x62, 0x63] (some 0x30) 0)
      ⟨.sequence, 7, 9⟩
      (r [0x02, 0x01, 0x01, 0x42, 0x00, 0x04, 0x03, 0x61, 0x62, 0x63] none 2) := by
    decide +kernel
  have hid : Runs Reader.int32
      (r [0x02, 0x01, 0x01, 0x42, 0x00, 0x04, 0x03, 0x61, 0x62, 0x63] none 2) 1
      (r [0x42, 0x00, 0x04, 0x03, 0x61, 0x62, 0x63] none 5) := by
    decide +kernel
  have hop : Runs Reader.element (r [0x42, 0x00, 0x04, 0x03, 0x61, 0x62, 0x63] none 5) ⟨0x42, []⟩
      behind := by
    decide +kernel
  have hread : Fails read start (.inMessage 1 (.unknownTag "LDAP message" 0x04)) := by
    decide +kernel
  exact ⟨.controls (.operation (.identifier hpeek hbegin rfl) hid (by decide)) hop,
    ⟨by decide, ⟨[0x03, 0x61, 0x62, 0x63], by decide +kernel, by decide +kernel⟩,
      by decide +kernel⟩, _, hread, rfl⟩

end Message
end Ldap
