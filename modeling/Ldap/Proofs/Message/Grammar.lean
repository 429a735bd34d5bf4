import Ldap.Message
import Ldap.Proofs.Ber.Reader
import Ldap.Proofs.Control.RoundTrip
import Ldap.Proofs.Operation.RoundTrip

/-!
# What is accepted as a message

Messages are read member by member off a stream, and after each member the count of bytes read is
compared with the end of the message. `decodeWithin_eq_ok_iff` says what comes of it for bytes that
are to hold one message: they are one sequence, split into an identifier, an operation, and perhaps
controls.
-/

namespace Ldap

open Ber (Element Reader ReadM Cursor Tag)

/-! ## Steps that succeed -/

/-- A step of the reader is one of reading a message, with its errors among the others. -/
theorem run_liftReader {α : Type} (x : ReadM α) (r : Reader) :
    (liftM x : MessageM α).run.run r = ((x.run.run r).1.mapError .ber, (x.run.run r).2) := rfl

theorem runs_liftReader_iff {α : Type} {x : ReadM α} {r r' : Reader} {a : α} :
    Runs (liftM x : MessageM α) r a r' ↔ Runs x r a r' := by
  have hx : x.run.run r = ((x.run.run r).1, (x.run.run r).2) := rfl
  rw [runs_iff_of_run (run_liftReader x r), runs_iff_of_run hx]
  cases (x.run.run r).1 <;> simp [Except.mapError]

theorem runs_liftExcept_iff {α : Type} {x : Except ProtocolError α} {r r' : Reader} {a : α} :
    Runs (liftM x : MessageM α) r a r' ↔ x = .ok a ∧ r = r' :=
  runs_ofExcept_iff

/-- To look at the reader is to go on with it, also where the look is a lifted action. -/
theorem runs_getReader_bind_iff {α : Type} {f : Reader → MessageM α} {r r' : Reader} {a : α} :
    Runs (get >>= f) r a r' ↔ Runs (f r) r a r' := by
  rfl

namespace Message

/-! ## Members -/

theorem runs_hasMore_iff {envelope : Cursor} {r r' : Reader} {more : Bool} :
    Runs (hasMore envelope) r more r' ↔
      (more = true ∧ r.total < envelope.stop ∨ more = false ∧ r.total = envelope.stop) ∧
        r = r' := by
  unfold hasMore
  rw [runs_getReader_bind_iff, runs_liftExcept_iff]
  apply and_congr_left'
  unfold Cursor.hasMore
  split
  · next hlt =>
    cases more
    · simp [Except.mapError]
      omega
    · simpa [Except.mapError] using hlt
  · next hnot =>
    split
    · next heq =>
      cases more
      · simpa [Except.mapError] using heq
      · simpa [Except.mapError] using hnot
    · next hne =>
      cases more
      · simpa [Except.mapError] using hne
      · simpa [Except.mapError] using hnot

theorem runs_readExtra_iff {r r' : Reader} {e : Element} :
    Runs readExtra r e r' ↔ Runs Reader.element r e r' ∧ e.tag = Control.listTag := by
  unfold readExtra
  rw [runs_bind_iff]
  simp only [runs_liftReader_iff]
  constructor
  · intro h
    rcases h with ⟨e', t, he, h⟩
    split at h
    · next htag =>
      rcases runs_pure_iff.1 h with ⟨rfl, rfl⟩
      exact ⟨he, htag⟩
    · cases runs_throw_iff.1 h
  · intro h
    rcases h with ⟨he, htag⟩
    refine ⟨e, r', he, ?_⟩
    rw [if_pos htag]
    exact runs_pure_iff.2 ⟨rfl, rfl⟩

/-- After the operation a message ends, or it goes on with controls and then ends. -/
theorem runs_readControls_iff {envelope : Cursor} {r r' : Reader} {cs : List Control} :
    Runs (readControls envelope) r cs r' ↔
      r'.total = envelope.stop ∧ ((r = r' ∧ cs = []) ∨
        (r.total < envelope.stop ∧
          ∃ e, Runs Reader.element r e r' ∧ Control.decodeAll e = .ok cs)) := by
  unfold readControls
  rw [runs_bind_iff]
  simp only [runs_hasMore_iff]
  constructor
  · intro h
    rcases h with ⟨more, t, ⟨hmore, rfl⟩, h⟩
    rcases hmore with ⟨rfl, hlt⟩ | ⟨rfl, heq⟩
    · rw [if_pos rfl] at h
      rcases runs_bind_iff.1 h with ⟨e, t₁, he, h⟩
      rcases runs_readExtra_iff.1 he with ⟨he, -⟩
      rcases runs_bind_iff.1 h with ⟨cs', t₂, hlift, h⟩
      rcases runs_liftExcept_iff.1 hlift with ⟨hcs, rfl⟩
      rcases runs_bind_iff.1 h with ⟨more', t₃, hagain, h⟩
      rcases runs_hasMore_iff.1 hagain with ⟨hmore', rfl⟩
      -- if there is one more member nothing succeeds any more
      rcases hmore' with ⟨rfl, -⟩ | ⟨rfl, hend⟩
      · rw [if_pos rfl] at h
        rcases runs_bind_iff.1 h with ⟨_, _, -, h⟩
        rcases runs_bind_iff.1 h with ⟨_, _, h, -⟩
        cases runs_throw_iff.1 h
      · rw [if_neg (by decide)] at h
        rcases runs_pure_iff.1 h with ⟨rfl, rfl⟩
        exact ⟨hend, .inr ⟨hlt, e, he, hcs⟩⟩
    · rw [if_neg (by decide)] at h
      rcases runs_pure_iff.1 h with ⟨rfl, rfl⟩
      exact ⟨heq, .inl ⟨rfl, rfl⟩⟩
  · intro h
    rcases h with ⟨hend, ⟨rfl, rfl⟩ | ⟨hlt, e, he, hcs⟩⟩
    · refine ⟨false, r, ⟨.inr ⟨rfl, hend⟩, rfl⟩, ?_⟩
      rw [if_neg (by decide)]
      exact runs_pure_iff.2 ⟨rfl, rfl⟩
    · refine ⟨true, r, ⟨.inl ⟨rfl, hlt⟩, rfl⟩, ?_⟩
      have htag : e.tag = Control.listTag := by
        rcases Control.decodeAll_eq_ok_iff.1 hcs with ⟨_, hes, -⟩
        exact hes.tag_eq
      rw [if_pos rfl]
      refine runs_bind_iff.2 ⟨e, r', runs_readExtra_iff.2 ⟨he, htag⟩, runs_bind_iff.2
        ⟨cs, r', runs_liftExcept_iff.2 ⟨hcs, rfl⟩, runs_bind_iff.2
          ⟨false, r', runs_hasMore_iff.2 ⟨.inr ⟨rfl, hend⟩, rfl⟩, ?_⟩⟩⟩
      rw [if_neg (by decide)]
      exact runs_pure_iff.2 ⟨rfl, rfl⟩

theorem runs_readBody_iff {envelope : Cursor} {id : Int32} {r r' : Reader} {m : Message} :
    Runs (readBody envelope id) r m r' ↔
      0 ≤ id ∧ m.id = id ∧ ∃ e t, Runs Reader.element r e t ∧ Operation.decode e = .ok m.op ∧
        Runs (readControls envelope) t m.controls r' := by
  unfold readBody
  dsimp only
  constructor
  · intro h
    split at h
    · rcases runs_bind_iff.1 h with ⟨_, _, h, -⟩
      cases runs_throw_iff.1 h
    · next hnot =>
      rcases runs_bind_iff.1 h with ⟨e, t, he, h⟩
      rcases runs_bind_iff.1 h with ⟨cs, t', hcs, h⟩
      rcases runs_bind_iff.1 h with ⟨op, t'', hlift, h⟩
      rcases runs_liftExcept_iff.1 hlift with ⟨hop, rfl⟩
      rcases runs_pure_iff.1 h with ⟨rfl, rfl⟩
      exact ⟨Int32.not_lt.1 hnot, rfl, e, t, runs_liftReader_iff.1 he, hop, hcs⟩
  · intro h
    rcases h with ⟨hnonneg, rfl, e, t, he, hop, hcs⟩
    rw [if_neg (Int32.not_lt.2 hnonneg)]
    exact runs_bind_iff.2 ⟨e, t, runs_liftReader_iff.2 he, runs_bind_iff.2 ⟨_, _, hcs,
      runs_bind_iff.2 ⟨_, _, runs_liftExcept_iff.2 ⟨hop, rfl⟩, runs_pure_iff.2 ⟨rfl, rfl⟩⟩⟩⟩

theorem runs_int32_iff {r r' : Reader} {v : Int32} :
    Runs Reader.int32 r v r' ↔
      ∃ e, Runs Reader.element r e r' ∧ Ber.Integer.decode32 .integer e.content = .ok v := by
  unfold Reader.int32
  simp only [runs_bind_iff, runs_ofExcept_iff]
  constructor
  · intro h
    rcases h with ⟨e, t, he, hv, rfl⟩
    exact ⟨e, he, hv⟩
  · intro h
    rcases h with ⟨e, he, hv⟩
    exact ⟨e, r', he, hv, rfl⟩

/-- The header of the envelope is read, then what stands in it. -/
theorem runs_read_iff {r r' : Reader} {m : Message} :
    Runs read r (some m) r' ↔
      ∃ b t n t₁, Runs Reader.peek r (some b) t ∧
        Runs Reader.header t (some (.sequence, n)) t₁ ∧
        ∃ e t₂, Runs Reader.element t₁ e t₂ ∧
          Ber.Integer.decode32 .integer e.content = .ok m.id ∧
          Runs (readBody ⟨.sequence, n, t₁.total + n⟩ m.id) t₂ m r' := by
  unfold read
  constructor
  · intro h
    rcases runs_bind_iff.1 h with ⟨b?, t, hpeek, h⟩
    cases b? with
    | none => cases (runs_pure_iff.1 h).1
    | some b =>
      rcases runs_bind_iff.1 h with ⟨envelope, t₁, hbegin, h⟩
      rcases runs_bind_iff.1 (runs_liftReader_iff.1 hbegin) with ⟨header?, t₁', hheader, hbegin⟩
      cases header? with
      | none => cases runs_throw_iff.1 hbegin
      | some x =>
        rcases x with ⟨tag, n⟩
        dsimp only at hbegin
        rw [runs_get_bind_iff] at hbegin
        rcases runs_pure_iff.1 hbegin with ⟨rfl, rfl⟩
        dsimp only at h
        split at h
        · rcases runs_bind_iff.1 h with ⟨_, _, hthrow, -⟩
          cases runs_throw_iff.1 hthrow
        · next htag =>
          obtain rfl : tag = .sequence := not_not.1 htag
          rcases runs_bind_iff.1 h with ⟨id, t₂, hid, h⟩
          rcases runs_int32_iff.1 (runs_liftReader_iff.1 hid) with ⟨e, he, hid⟩
          rcases runs_bind_iff.1 h with ⟨m', t₃, hbody, h⟩
          rcases runs_pure_iff.1 h with ⟨hm, rfl⟩
          cases hm
          -- that errors are told with the identifier makes no difference for what is accepted
          have hbody' := runs_tryCatch_iff.1 hbody
          obtain rfl := (runs_readBody_iff.1 hbody').2.1
          exact ⟨b, t, n, t₁', runs_liftReader_iff.1 hpeek, hheader, e, t₂, he, hid, hbody'⟩
  · intro h
    rcases h with ⟨b, t, n, t₁, hpeek, hheader, e, t₂, he, hid, hbody⟩
    have hbegin : Runs Reader.begin t ⟨.sequence, n, t₁.total + n⟩ t₁ :=
      runs_bind_iff.2 ⟨_, _, hheader, by
        dsimp only
        rw [runs_get_bind_iff]
        exact runs_pure_iff.2 ⟨rfl, rfl⟩⟩
    refine runs_bind_iff.2 ⟨some b, t, runs_liftReader_iff.2 hpeek, runs_bind_iff.2
      ⟨_, t₁, runs_liftReader_iff.2 hbegin, ?_⟩⟩
    dsimp only
    rw [if_neg (not_not.2 rfl)]
    exact runs_bind_iff.2 ⟨m.id, t₂, runs_liftReader_iff.2 (runs_int32_iff.2 ⟨e, he, hid⟩),
      runs_bind_iff.2 ⟨m, r', runs_tryCatch_iff.2 hbody, runs_pure_iff.2 ⟨rfl, rfl⟩⟩⟩

/-! ## Bytes that hold one message -/

/-- The members that a message is read from. -/
def Spells (es : List Element) (m : Message) : Prop :=
  ∃ id op extras, es = id :: op :: extras ∧ 0 ≤ m.id ∧
    Ber.Integer.decode32 .integer id.content = .ok m.id ∧ Operation.decode op = .ok m.op ∧
    (extras = [] ∧ m.controls = [] ∨
      ∃ e, extras = [e] ∧ Control.decodeAll e = .ok m.controls)

theorem decodeWithin_eq_ok_iff_runs {limit : Nat} {bytes : List UInt8} {m : Message} :
    decodeWithin limit bytes = .ok m ↔
      ∃ r, Runs read (.ofSource (.ofBytes bytes) limit) (some m) r ∧ bytes.length ≤ r.total := by
  unfold decodeWithin Runs
  cases hrun : read.run.run (.ofSource (.ofBytes bytes) limit) with
  | mk x r =>
    constructor
    · intro h
      cases x with
      | error e => cases h
      | ok m? =>
        cases m? with
        | none => cases h
        | some m' =>
          dsimp only at h
          split at h
          · cases h
          · cases h
            exact ⟨r, rfl, by omega⟩
    · intro h
      rcases h with ⟨t, heq, hle⟩
      cases heq
      dsimp only
      rw [if_neg (by omega)]

/-- The body of a message ends where its envelope does. -/
theorem count_of_readBody {envelope : Cursor} {id : Int32} {r r' : Reader} {m : Message}
    (h : Runs (readBody envelope id) r m r') :
    r'.total = envelope.stop ∧ r'.total + r'.rest.length = r.total + r.rest.length := by
  rcases runs_readBody_iff.1 h with ⟨-, -, op, t, hop, -, hcontrols⟩
  obtain ⟨head, htook, -⟩ := Reader.took_of_element hop
  rcases runs_readControls_iff.1 hcontrols with ⟨hend, ⟨rfl, -⟩ | ⟨-, e, he, -⟩⟩
  · exact ⟨hend, htook.length_eq⟩
  · obtain ⟨head', htook', -⟩ := Reader.took_of_element he
    exact ⟨hend, htook'.length_eq.trans htook.length_eq⟩

/-- The members that are read if nothing is left behind them. -/
theorem parseAll_of_readBody {envelope : Cursor} {id : Int32} {r r' : Reader} {m : Message}
    (h : Runs (readBody envelope id) r m r') (hrest : r'.rest = []) :
    ∃ op extras, Element.parseAll r.rest = .ok (op :: extras) ∧ Operation.decode op = .ok m.op ∧
      (extras = [] ∧ m.controls = [] ∨
        ∃ e, extras = [e] ∧ Control.decodeAll e = .ok m.controls) := by
  rcases runs_readBody_iff.1 h with ⟨-, -, op, t, hop, hdecode, hcontrols⟩
  obtain ⟨head, -, -, hparse, -⟩ := Reader.took_of_element hop
  rcases runs_readControls_iff.1 hcontrols with ⟨-, ⟨rfl, hnil⟩ | ⟨-, e, he, hcs⟩⟩
  · refine ⟨op, [], Element.parseAll_eq_ok_cons_iff.2 ⟨t.rest, hparse, ?_⟩, hdecode,
      .inl ⟨rfl, hnil⟩⟩
    exact Element.parseAll_eq_ok_nil_iff.2 hrest
  · obtain ⟨head', -, -, hparse', -⟩ := Reader.took_of_element he
    exact ⟨op, [e], Element.parseAll_eq_ok_cons_iff.2 ⟨t.rest, hparse,
      Element.parseAll_eq_ok_cons_iff.2 ⟨r'.rest, hparse', Element.parseAll_eq_ok_nil_iff.2 hrest⟩⟩,
      hdecode, .inr ⟨e, rfl, hcs⟩⟩

/-- A member that fits is taken, and what follows it fits as well. -/
theorem exists_member {r : Reader} {e : Element} {es : List Element}
    (h : Element.parseAll r.rest = .ok (e :: es)) (hfits : r.rest.length ≤ r.limit) :
    ∃ r', Runs Reader.element r e r' ∧ Element.parseAll r'.rest = .ok es ∧
      r'.total + r'.rest.length = r.total + r.rest.length ∧ r'.rest.length < r.rest.length ∧
      r'.limit = r.limit := by
  rcases Element.parseAll_eq_ok_cons_iff.1 h with ⟨rest, hparse, hes⟩
  obtain ⟨front, hfront, hlen⟩ := Element.exists_prefix_of_parse hparse
  have hcontent := e.length_content_lt
  have hrest : r.rest.length = front.length + rest.length := by rw [hfront, List.length_append]
  obtain ⟨r', he⟩ := Reader.exists_element hparse (by omega)
  obtain ⟨head, htook, -, hparse', -⟩ := Reader.took_of_element he
  rw [hparse] at hparse'
  cases hparse'
  exact ⟨r', he, hes, htook.length_eq, by omega, htook.limit⟩

/-- A body is read whose members stand in an envelope up to its end. -/
theorem exists_readBody {envelope : Cursor} {r : Reader} {m : Message} {op : Element}
    {extras : List Element} (hid : 0 ≤ m.id)
    (hparse : Element.parseAll r.rest = .ok (op :: extras)) (hop : Operation.decode op = .ok m.op)
    (hextras : extras = [] ∧ m.controls = [] ∨
      ∃ e, extras = [e] ∧ Control.decodeAll e = .ok m.controls)
    (hfits : r.rest.length ≤ r.limit) (hstop : envelope.stop = r.total + r.rest.length) :
    ∃ r', Runs (readBody envelope m.id) r m r' ∧ r'.total = envelope.stop := by
  obtain ⟨t, ht, hrest, hcount, hlt, hlimit⟩ := exists_member hparse hfits
  rcases hextras with ⟨rfl, hnil⟩ | ⟨e, rfl, hcs⟩
  · have hempty : t.rest.length = 0 := by
      rw [Element.parseAll_eq_ok_nil_iff.1 hrest, List.length_nil]
    -- with nothing left the count is that of the end
    have hend : t.total = envelope.stop := by omega
    exact ⟨t, runs_readBody_iff.2 ⟨hid, rfl, op, t, ht, hop,
      runs_readControls_iff.2 ⟨hend, .inl ⟨rfl, hnil⟩⟩⟩, hend⟩
  · obtain ⟨t', ht', hrest', hcount', hlt', -⟩ := exists_member hrest (by omega)
    have hempty : t'.rest.length = 0 := by
      rw [Element.parseAll_eq_ok_nil_iff.1 hrest', List.length_nil]
    have hend : t'.total = envelope.stop := by omega
    exact ⟨t', runs_readBody_iff.2 ⟨hid, rfl, op, t, ht, hop,
      runs_readControls_iff.2 ⟨hend, .inr ⟨by omega, e, ht', hcs⟩⟩⟩, hend⟩

/-- What stands in the envelope is all that a message is read from, if it takes all the bytes. -/
theorem members_of_read {r r' : Reader} {m : Message} (h : Runs read r (some m) r')
    (hall : r.total + r.rest.length ≤ r'.total) :
    ∃ e es, Element.decode r.rest = .ok e ∧ e.content.length ≤ r.limit ∧ e.Holds .sequence es ∧
      Spells es m := by
  rcases runs_read_iff.1 h with ⟨b, t, n, t₁, hpeek, hheader, id, t₂, hid, hv, hbody⟩
  have htook := Reader.took_of_peek hpeek
  obtain ⟨head, htook₁, -, hlength, hle⟩ := Reader.took_of_header hheader
  obtain ⟨front, htook₂, -, hparse, -⟩ := Reader.took_of_element hid
  have hbytes : r.rest = Tag.sequence :: (head ++ t₁.rest) := (htook.trans htook₁).rest
  have hcount₁ := (htook.trans htook₁).length_eq
  have hcount₂ := htook₂.length_eq
  obtain ⟨hend, hcount₃⟩ := count_of_readBody hbody
  replace hend : r'.total = t₁.total + n := hend
  -- nothing is left, so that the content is all that stands behind the header
  have hrest : r'.rest = [] := List.length_eq_zero_iff.1 (by omega)
  have hn : n = t₁.rest.length := by
    rw [hrest, List.length_nil] at hcount₃
    omega
  obtain ⟨op, extras, hbodyParse, hop, hextras⟩ := parseAll_of_readBody hbody hrest
  refine ⟨⟨.sequence, t₁.rest⟩, id :: op :: extras, Element.decode_eq_ok_iff.2 ?_, ?_,
    ⟨rfl, Element.parseAll_eq_ok_cons_iff.2 ⟨t₂.rest, hparse, hbodyParse⟩⟩,
    id, op, extras, rfl, (runs_readBody_iff.1 hbody).1, hv, hop, hextras⟩
  · rw [hbytes]
    exact Element.parse_cons_eq_ok_iff.2 ⟨n, _, hlength, by omega, by rw [hn, List.take_length],
      by rw [hn, List.drop_length]⟩
  · rw [← hn]
    exact hle.trans (le_of_eq htook.limit)

/-- A reader gets a message whose envelope is not too long, and takes all the bytes for it. -/
theorem exists_read {r : Reader} {e : Element} {es : List Element} {m : Message}
    (h : Element.decode r.rest = .ok e) (hle : e.content.length ≤ r.limit)
    (hes : e.Holds .sequence es) (hm : Spells es m) :
    ∃ r', Runs read r (some m) r' ∧ r'.total = r.total + r.rest.length := by
  rcases hm with ⟨id, op, extras, rfl, hid, hv, hop, hextras⟩
  replace h := Element.decode_eq_ok_iff.1 h
  cases hrest : r.rest with
  | nil =>
    rw [hrest] at h
    cases h
  | cons tag body =>
    rw [hrest] at h
    rcases Element.parse_cons_eq_ok_iff.1 h with ⟨n, tail, hlength, hn, rfl, hdrop⟩
    obtain rfl : tag = Tag.sequence := hes.tag_eq
    -- nothing follows the content
    have htail : tail.length = n := by
      have hzero : (tail.drop n).length = 0 := by rw [← hdrop, List.length_nil]
      rw [List.length_drop] at hzero
      omega
    have hmembers : Element.parseAll (tail.take n) = .ok (id :: op :: extras) := hes.2
    rw [← htail, List.take_length] at hmembers
    replace hle : n ≤ r.limit := by simpa [htail] using hle
    obtain ⟨t, hpeek⟩ := Reader.exists_peek hrest
    have htook := Reader.took_of_peek hpeek
    have hlimit : n ≤ t.limit := by rwa [htook.limit]
    obtain ⟨t₁, hheader, rfl⟩ := Reader.exists_header (htook.rest.symm.trans hrest) hlength hlimit
    obtain ⟨head, htook₁, -⟩ := Reader.took_of_header hheader
    have hcount₁ := (htook.trans htook₁).length_eq
    have hlimit₁ : t₁.limit = r.limit := (htook.trans htook₁).limit
    obtain ⟨t₂, ht₂, hmembers₂, hcount₂, hlt, hlimit₂⟩ := exists_member hmembers (by omega)
    have hstop : (Cursor.mk .sequence n (t₁.total + n)).stop = t₂.total + t₂.rest.length := by
      show t₁.total + n = t₂.total + t₂.rest.length
      omega
    obtain ⟨r', hbody, hend⟩ := exists_readBody hid hmembers₂ hop hextras (by omega) hstop
    refine ⟨r', runs_read_iff.2 ⟨_, t, n, t₁, hpeek, hheader, id, t₂, ht₂, hv, hbody⟩, ?_⟩
    rw [← hrest]
    omega

/-- Bytes are accepted as a message exactly if they are one sequence that is not too long, and its
members spell the message. -/
theorem decodeWithin_eq_ok_iff {limit : Nat} {bytes : List UInt8} {m : Message} :
    decodeWithin limit bytes = .ok m ↔
      ∃ e es, Element.decode bytes = .ok e ∧ e.content.length ≤ limit ∧ e.Holds .sequence es ∧
        Spells es m := by
  have hrest := Reader.rest_ofSource bytes limit
  have hcount : (Reader.ofSource (.ofBytes bytes) limit).total
      + (Reader.ofSource (.ofBytes bytes) limit).rest.length = bytes.length := by
    rw [hrest]
    exact Nat.zero_add _
  rw [decodeWithin_eq_ok_iff_runs]
  constructor
  · intro h
    rcases h with ⟨r, hread, hall⟩
    have h := members_of_read hread (by omega)
    rwa [hrest] at h
  · intro h
    rcases h with ⟨e, es, hdecode, hle, hes, hm⟩
    rw [← hrest] at hdecode
    obtain ⟨r, hread, hend⟩ := exists_read hdecode hle hes hm
    exact ⟨r, hread, by omega⟩

end Message
end Ldap
