import Ldap.Proofs.Ber.Failure
import Ldap.Proofs.Message.Grammar
import Ldap.Proofs.Operation.Refusal

/-!
# Why messages are refused

A reader of messages never complains of bytes behind a message (`read_throws`): it stops where the
envelope ends and does not look further. Only `Message.decodeWithin`, which is given all the bytes,
can find that some are left, and it does not if they are exactly one element
(`not_isTrailing_of_decodeWithin`).
-/

namespace Ldap

open Ber (Element Reader ReadM Cursor)

/-- An error about bytes that follow an element, also one told with the identifier of a message. -/
def Ber.Error.IsTrailing : Ber.Error → Prop
  | .trailingBytes _ => True
  | _ => False

@[inherit_doc Ber.Error.IsTrailing]
def ProtocolError.IsTrailing : ProtocolError → Prop
  | .ber e => e.IsTrailing
  | .inMessage _ cause => cause.IsTrailing
  | _ => False

/-- What a decoder finds in an element is not what stands behind it. -/
theorem Ber.Error.IsContent.not_isTrailing {e : Ber.Error} (h : e.IsContent) : ¬ e.IsTrailing := by
  cases e <;> first | exact not_false | exact fun _ => h

/-- A source that has stopped leaves no bytes to complain of. -/
theorem Ber.Error.Stops.not_isTrailing {e : Ber.Error} (h : e.Stops) : ¬ e.IsTrailing := by
  cases e <;> first | exact not_false | exact fun _ => h

theorem ProtocolError.IsContent.not_isTrailing {e : ProtocolError} (h : e.IsContent) :
    ¬ e.IsTrailing := by
  cases e with
  | ber e => exact Ber.Error.IsContent.not_isTrailing h
  | inMessage _ _ => exact fun _ => h
  | _ => exact not_false

/-- The identifier of its message does not change what an error is about. -/
theorem ProtocolError.isTrailing_withMessageId {e : ProtocolError} {id : Int32} :
    (e.withMessageId id).IsTrailing ↔ e.IsTrailing := by
  cases e <;> rfl

/-! ## Elements read from a source -/

namespace Ber.Reader

theorem peek_throws : Throws peek fun e => ¬ e.IsTrailing :=
  peek_throws_stop.mono fun h => h.not_isTrailing

theorem nextByte_throws : Throws nextByte fun e => ¬ e.IsTrailing :=
  nextByte_throws_stop.mono fun h => h.not_isTrailing

theorem exactly_throws (n : Nat) : Throws (exactly n) fun e => ¬ e.IsTrailing :=
  (exactly_throws_stop n).mono fun h => h.not_isTrailing

/-- The head of an element is refused for its length, before anybody looks behind the element. -/
theorem header_throws : Throws header fun e => ¬ e.IsTrailing := by
  refine .bind nextByte_throws fun tag? => ?_
  split
  · exact .pure _
  refine .bind nextByte_throws fun first? => ?_
  split
  · exact .throw not_false
  refine .bind (.ofExcept ((Length.continuationCount_refuses _).mono
    fun h => h.not_isTrailing)) fun count => .bind (exactly_throws _) fun rest =>
      .bind .get fun r => ?_
  dsimp only
  split
  · exact .bind (.throw not_false) fun _ => .pure _
  · exact .pure _

/-- Nor is anybody looking there when the content is taken. -/
theorem element_throws : Throws element fun e => ¬ e.IsTrailing := by
  refine .bind (.bind header_throws fun x? => ?_) fun e? => ?_
  · split
    · exact .pure _
    · exact .bind (exactly_throws _) fun _ => .pure _
  · split
    · exact .pure _
    · exact .throw not_false

/-- A sequence that is begun has its end in sight, and no member was read yet. -/
theorem begin_throws : Throws Reader.begin fun e => ¬ e.IsTrailing := by
  refine .bind header_throws fun x? => ?_
  split
  · exact .throw not_false
  · exact .bind .get fun _ => .pure _

theorem int32_throws : Throws int32 fun e => ¬ e.IsTrailing :=
  .bind element_throws fun _ =>
    .ofExcept ((Integer.decode32_refuses _ _).mono fun h => h.not_isTrailing)

end Ber.Reader

/-! ## Messages -/

/-- An action of the reader fails as before where it is a step of reading a message. -/
theorem Throws.liftReader {α : Type} {x : ReadM α} (hx : Throws x fun e => ¬ e.IsTrailing) :
    Throws (liftM x : MessageM α) fun e => ¬ e.IsTrailing := by
  intro s e s' h
  rw [run_liftReader] at h
  cases hx' : x.run.run s with
  | mk y t =>
    rw [hx'] at h
    cases y with
    | ok a => cases h
    | error e' =>
      cases h
      exact hx s _ _ hx'

/-- A decoder that refuses content does so where it is a step of reading a message. -/
theorem Throws.liftExcept {α : Type} {x : Except ProtocolError α}
    (hx : Refuses x ProtocolError.IsContent) :
    Throws (liftM x : MessageM α) fun e => ¬ e.IsTrailing :=
  .ofExcept (hx.mono fun h => h.not_isTrailing)

namespace Message

open Ber.Reader

/-- That a cursor is behind the end of the envelope is an error of its own. -/
theorem hasMore_throws (envelope : Cursor) : Throws (hasMore envelope) fun e => ¬ e.IsTrailing := by
  refine .bind (fun s e s' h => nomatch h) fun r => .ofExcept (.mapError ?_)
  unfold Cursor.hasMore
  split
  · exact .ok _
  split
  · exact .ok _
  · exact .error not_false

/-- A member behind the operation is read like any element, and refused if it is no list of
controls. -/
theorem readExtra_throws : Throws readExtra fun e => ¬ e.IsTrailing := by
  refine .bind (.liftReader element_throws) fun e => ?_
  split
  · exact .pure _
  · exact .throw not_false

/-- A member behind the controls is refused for its tag, or as one too many. -/
theorem readControls_throws (envelope : Cursor) :
    Throws (readControls envelope) fun e => ¬ e.IsTrailing := by
  refine .bind (hasMore_throws envelope) fun more => ?_
  split
  · refine .bind readExtra_throws fun e => .bind (.liftExcept (Control.decodeAll_refuses e))
      fun cs => .bind (hasMore_throws envelope) fun more => ?_
    split
    · exact .bind readExtra_throws fun _ => .bind (.throw not_false) fun _ => .pure _
    · exact .pure _
  · exact .pure _

/-- What follows the identifier is refused for the identifier, for a member, or for what a decoder
makes of it. -/
theorem readBody_throws (envelope : Cursor) (id : Int32) :
    Throws (readBody envelope id) fun e => ¬ e.IsTrailing := by
  have hrest : Throws (do
      let op ← Reader.element
      let controls ← readControls envelope
      return ⟨id, ← Operation.decode op, controls⟩ : MessageM Message)
      fun e => ¬ e.IsTrailing :=
    .bind (.liftReader element_throws) fun op => .bind (readControls_throws envelope) fun _ =>
      .bind (.liftExcept (Operation.decode_refuses op)) fun _ => .pure _
  unfold readBody
  dsimp only
  split
  · exact .bind (.throw not_false) fun _ => hrest
  · exact hrest

/-- Reading a message never fails for bytes that follow it. -/
theorem read_throws : Throws read fun e => ¬ e.IsTrailing := by
  refine .bind (.liftReader peek_throws) fun b? => ?_
  split
  · exact .pure _
  · refine .bind (.liftReader begin_throws) fun envelope => ?_
    have hrest : Throws (do
        let id ← Reader.int32
        let m ← tryCatch (readBody envelope id) fun e => throw (e.withMessageId id)
        return some m : MessageM (Option Message)) fun e => ¬ e.IsTrailing :=
      .bind (.liftReader int32_throws) fun id => .bind (.tryCatch fun s e s' h =>
        ProtocolError.isTrailing_withMessageId.not.2 (readBody_throws envelope id s e s' h))
          fun _ => .pure _
    dsimp only
    split
    · exact .bind (.throw not_false) fun _ => hrest
    · exact hrest

/-- A message that is read off exactly one element takes all of its bytes. -/
theorem total_of_read {r r' : Reader} {e : Element} {m : Message} (h : Runs read r (some m) r')
    (he : Element.decode r.rest = .ok e) : r'.total = r.total + r.rest.length := by
  rcases runs_read_iff.1 h with ⟨b, t, n, t₁, hpeek, hheader, id, t₂, hid, -, hbody⟩
  have htook := Reader.took_of_peek hpeek
  obtain ⟨head, htook₁, -, hlength, -⟩ := Reader.took_of_header hheader
  have hbytes : r.rest = Ber.Tag.sequence :: (head ++ t₁.rest) := (htook.trans htook₁).rest
  have hcount := (htook.trans htook₁).length_eq
  have hend : r'.total = t₁.total + n := (count_of_readBody hbody).1
  -- the one element ends where its header says, and that is where the bytes end
  replace he := Element.decode_eq_ok_iff.1 he
  rw [hbytes] at he
  rcases Element.parse_cons_eq_ok_iff.1 he with ⟨n', tail, hlength', hle, -, hdrop⟩
  rw [hlength] at hlength'
  cases hlength'
  have hzero : (t₁.rest.drop n).length = 0 := by rw [← hdrop, List.length_nil]
  rw [List.length_drop] at hzero
  omega

/-- Where the bytes are exactly one element, none are ever found to be left over. -/
theorem not_isTrailing_of_decodeWithin {limit : Nat} {bytes : List UInt8} {e : Element}
    {error : ProtocolError} (he : Element.decode bytes = .ok e)
    (h : decodeWithin limit bytes = .error error) : ¬ error.IsTrailing := by
  unfold decodeWithin at h
  cases hrun : read.run.run (.ofSource (.ofBytes bytes) limit) with
  | mk x r =>
    rw [hrun] at h
    cases x with
    | error e' =>
      cases h
      exact read_throws _ _ _ hrun
    | ok m? =>
      cases m? with
      | none =>
        cases h
        exact not_false
      | some m =>
        have hrest := Reader.rest_ofSource bytes limit
        have htotal := total_of_read (e := e) hrun (by rwa [hrest])
        rw [hrest] at htotal
        dsimp only at h
        rw [if_neg (by rw [htotal]; show ¬ 0 + bytes.length < bytes.length; omega)] at h
        cases h

end Message
end Ldap
