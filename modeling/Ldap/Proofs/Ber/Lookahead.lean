import Ldap.Proofs.Ber.Failure
import Mathlib.Tactic

/-!
# Looking ahead

A reader can look at the next byte before it takes it. Such a look takes the byte off the source,
but counts it only when it is taken, so that the count is one behind. `Reader.answers` makes one
call on a reader after the other. What the other calls answer, and the count after them, does not
depend on the looks between them, nor on the pieces that the bytes come in; and as long as the
source has not stopped, what was taken off it is what was counted, and the byte that was looked at
(`looks_unnoticed_and_bytes_counted`).
-/

namespace Ldap.Ber.Reader

/-! ## From readers that are alike -/

/-- Some bytes have been taken and counted; or the source stopped, and the bytes are lost. -/
def Counted {α : Type} (r : Reader) (outcome : Except Error α × Reader) : Prop :=
  (∃ e, outcome.1 = .error e ∧ e.Stops) ∨ ∃ bytes, r.Took bytes outcome.2

/-- From two readers, an action has the same outcome and leaves readers that are alike, and it has
counted the bytes it took. -/
structure Lockstep {α : Type} (x : ReadM α) (r r' : Reader) : Prop where
  outcome : (x.run.run r).1 = (x.run.run r').1
  alike : Alike (x.run.run r).2 (x.run.run r').2
  counted : Counted r (x.run.run r)

namespace Lockstep

variable {α β : Type} {r r' : Reader}

theorem pure (a : α) (h : Alike r r') : Lockstep (pure a) r r' :=
  ⟨rfl, h, .inr ⟨[], rfl, rfl, rfl⟩⟩

theorem throw (e : Error) (h : Alike r r') : Lockstep (throw e : ReadM α) r r' :=
  ⟨rfl, h, .inr ⟨[], rfl, rfl, rfl⟩⟩

theorem ofExcept (x : Except Error α) (h : Alike r r') :
    Lockstep (MonadExcept.ofExcept x : ReadM α) r r' := by
  cases x with
  | ok a => exact .pure a h
  | error e => exact .throw e h

/-- Two actions, one after the other, if the second is in step where the first succeeds. -/
theorem bind {x : ReadM α} {f : α → ReadM β} (hx : Lockstep x r r')
    (hf : ∀ a s s', Runs x r a s → Runs x r' a s' → Alike s s' → Lockstep (f a) s s') :
    Lockstep (x >>= f) r r' := by
  obtain ⟨houtcome, halike, hcounted⟩ := hx
  cases hr : x.run.run r with
  | mk y s =>
    cases hr' : x.run.run r' with
    | mk y' s' =>
      rw [hr, hr'] at houtcome halike
      rw [hr] at hcounted
      obtain rfl : y = y' := houtcome
      cases y with
      | error e =>
        refine ⟨?_, ?_, ?_⟩
        · rw [run_bind, run_bind, hr, hr']
        · rw [run_bind, run_bind, hr, hr']
          exact halike
        · rw [run_bind, hr]
          apply hcounted.imp
          · intro h
            obtain ⟨e', he, hstop⟩ := h
            cases he
            exact ⟨e, rfl, hstop⟩
          · exact id
      | ok a =>
        have hnext := hf a s s' hr hr' halike
        obtain ⟨bytes, htook⟩ : ∃ bytes, r.Took bytes s :=
          hcounted.resolve_left fun h => nomatch h.choose_spec.1
        refine ⟨?_, ?_, ?_⟩
        · rw [run_bind, run_bind, hr, hr']
          exact hnext.outcome
        · rw [run_bind, run_bind, hr, hr']
          exact hnext.alike
        · rw [run_bind, hr]
          apply hnext.counted.imp id
          intro h
          obtain ⟨bytes', htook'⟩ := h
          exact ⟨bytes ++ bytes', htook.trans htook'⟩

/-- To look at the state makes no difference where the action depends on what is alike. -/
theorem get_bind {f : Reader → ReadM α} (hsame : f r = f r') (hf : Lockstep (f r) r r') :
    Lockstep (get >>= f) r r' := by
  refine ⟨?_, ?_, hf.counted⟩
  · rw [run_get_bind, run_get_bind, ← hsame]
    exact hf.outcome
  · rw [run_get_bind, run_get_bind, ← hsame]
    exact hf.alike

theorem map {x : ReadM α} (f : α → β) (hx : Lockstep x r r') : Lockstep (f <$> x) r r' := by
  rw [map_eq_pure_bind]
  exact hx.bind fun a _ _ _ _ h => .pure (f a) h

end Lockstep

/-! ## Bytes -/

variable {r r' : Reader}

theorem lockstep_nextByte (h : Alike r r') : Lockstep nextByte r r' := by
  obtain ⟨s, hrun, htook, -, hending⟩ := run_nextByte r
  obtain ⟨s', hrun', htook', -, hending'⟩ := run_nextByte r'
  rw [← h.rest] at hrun' htook'
  refine ⟨?_, ?_, ?_⟩
  · rw [hrun, hrun', h.ending]
  · rw [hrun, hrun']
    exact h.of_took htook htook' (by rw [hending, hending', h.ending])
  · rw [hrun]
    exact .inr ⟨_, htook⟩

theorem lockstep_peek (h : Alike r r') : Lockstep peek r r' := by
  obtain ⟨s, hrun, halike⟩ := run_peek r
  obtain ⟨s', hrun', halike'⟩ := run_peek r'
  refine ⟨?_, ?_, ?_⟩
  · rw [hrun, hrun', h.rest, h.ending]
  · rw [hrun, hrun']
    exact (halike.trans h).trans halike'.symm
  · rw [hrun]
    exact .inr ⟨[], halike.took⟩

/-- Where no byte is held, bytes are asked of the source. -/
theorem lockstep_exactly (n : Nat) (hheld : r.held = none) (hheld' : r'.held = none)
    (h : Alike r r') : Lockstep (exactly n) r r' := by
  have hbytes : r.source.bytes = r'.source.bytes := by
    rw [← rest_of_held_none hheld, h.rest, rest_of_held_none hheld']
  refine ⟨?_, ?_, ?_⟩
  · rw [run_exactly hheld, run_exactly hheld', run_fromSource, run_fromSource, hbytes, h.ending]
  · obtain ⟨-, hleft, hending⟩ := r.source.fill_eq n
    obtain ⟨-, hleft', hending'⟩ := r'.source.fill_eq n
    rw [run_exactly hheld, run_exactly hheld', run_fromSource, run_fromSource]
    refine ⟨?_, hending.trans (h.ending.trans hending'.symm), ?_, h.limit⟩
    · show r.held.toList ++ (r.source.fill n).2.bytes = r'.held.toList ++ (r'.source.fill n).2.bytes
      rw [hheld, hheld', hleft, hleft', hbytes]
    · show (if _ then _ else _) = (if _ then _ else _)
      rw [hbytes, h.total]
  · obtain ⟨bytes, s, hruns⟩ | ⟨e, hfails⟩ := runs_or_fails (exactly n) r
    · obtain ⟨htook, -⟩ := took_of_exactly hheld hruns
      rw [show (exactly n).run.run r = (.ok bytes, s) from hruns]
      exact .inr ⟨bytes, htook⟩
    · exact .inl ⟨e, hfails, (exactly_throws_stop n).of_fails hfails⟩

/-! ## Elements -/

theorem lockstep_header (h : Alike r r') : Lockstep header r r' := by
  unfold header
  apply (lockstep_nextByte h).bind
  intro tag? s s' _ _ h
  cases tag? with
  | none => exact .pure none h
  | some tag =>
    apply (lockstep_nextByte h).bind
    intro first? s s' hs hs' h
    cases first? with
    | none => exact .throw _ h
    | some first =>
      -- to take a byte is to hold none
      obtain ⟨-, hheld⟩ := took_of_nextByte hs
      obtain ⟨-, hheld'⟩ := took_of_nextByte hs'
      apply (Lockstep.ofExcept (Length.continuationCount first) h).bind
      intro count t t' ht ht' h
      obtain ⟨-, rfl⟩ := runs_ofExcept_iff.1 ht
      obtain ⟨-, rfl⟩ := runs_ofExcept_iff.1 ht'
      apply (lockstep_exactly count hheld hheld' h).bind
      intro bytes u u' _ _ h
      refine .get_bind (by rw [h.limit]) ?_
      dsimp only
      split
      · exact (Lockstep.throw _ h).bind fun _ _ _ _ _ h => .pure _ h
      · exact .pure _ h

theorem lockstep_element? (h : Alike r r') : Lockstep element? r r' := by
  unfold element?
  apply (lockstep_header h).bind
  intro header? s s' hs hs' h
  cases header? with
  | none => exact .pure none h
  | some x =>
    obtain ⟨tag, length⟩ := x
    obtain ⟨-, -, hheld, -⟩ := took_of_header hs
    obtain ⟨-, -, hheld', -⟩ := took_of_header hs'
    exact (lockstep_exactly length hheld hheld' h).bind fun _ _ _ _ _ h => .pure _ h

theorem lockstep_element (h : Alike r r') : Lockstep element r r' := by
  unfold element
  apply (lockstep_element? h).bind
  intro e? s s' _ _ h
  cases e? with
  | none => exact .throw _ h
  | some e => exact .pure e h

theorem lockstep_begin (h : Alike r r') : Lockstep Reader.begin r r' := by
  unfold Reader.begin
  apply (lockstep_header h).bind
  intro header? s s' _ _ h
  cases header? with
  | none => exact .throw _ h
  | some x => exact .get_bind (by rw [h.total]) (.pure _ h)

/-- A typed read takes an element and looks at its content. -/
theorem lockstep_typed {α : Type} (view : Element → Except Error α) (h : Alike r r') :
    Lockstep (do let e ← element; MonadExcept.ofExcept (view e)) r r' :=
  (lockstep_element h).bind fun e _ _ _ _ h => .ofExcept (view e) h

/-! ## Calls -/

/-- What a call tells if it succeeds. -/
inductive Reply where
  | byte (b? : Option UInt8)
  | tag (t : Tag)
  | element (e? : Option Element)
  | done
  | cursor (c : Cursor)
  | boolean (b : Bool)
  | integer (v : Int64)
  | int32 (v : Int32)
  | octets (bytes : List UInt8)
  | string (s : String)
  deriving DecidableEq, Repr

/-- A call on a reader. -/
inductive Call where
  | peek
  | peekTag
  | element
  | skip
  | begin
  | boolean
  | integer
  | int32
  | enumerated
  | octets
  | string
  | null
  deriving DecidableEq, Repr

/-- Whether a call only looks ahead. -/
def Call.looks : Call → Bool
  | .peek | .peekTag => true
  | _ => false

/-- What a call does. -/
def Call.action : Call → ReadM Reply
  | .peek => .byte <$> Reader.peek
  | .peekTag => .tag <$> Reader.peekTag
  | .element => .element <$> Reader.element?
  | .skip => (fun _ => .done) <$> Reader.skip
  | .begin => .cursor <$> Reader.begin
  | .boolean => .boolean <$> Reader.boolean
  | .integer => .integer <$> Reader.integer
  | .int32 => .int32 <$> Reader.int32
  | .enumerated => .int32 <$> Reader.enumerated
  | .octets => .octets <$> Reader.octets
  | .string => .string <$> Reader.string
  | .null => (fun _ => .done) <$> Reader.null

/-- A call with what it told, and the count of bytes after it. -/
structure Answer where
  call : Call
  reply : Except Error Reply
  total : Nat
  deriving DecidableEq

/-- Makes one call after the other, also after calls that failed. -/
def answers (r : Reader) : List Call → List Answer × Reader
  | [] => ([], r)
  | c :: calls =>
    let (reply, r') := c.action.run.run r
    let (later, r'') := answers r' calls
    (⟨c, reply, r'.total⟩ :: later, r'')

theorem lockstep_action (c : Call) (h : Alike r r') : Lockstep c.action r r' := by
  cases c with
  | peek => exact (lockstep_peek h).map _
  | peekTag =>
    refine Lockstep.map _ ((lockstep_peek h).bind fun b? s s' _ _ h => ?_)
    cases b? with
    | none => exact .throw _ h
    | some b => exact .pure b h
  | element => exact (lockstep_element? h).map _
  | skip => exact .map _ ((lockstep_element h).bind fun _ _ _ _ _ h => .pure _ h)
  | begin => exact (lockstep_begin h).map _
  | boolean => exact (lockstep_typed _ h).map _
  | integer => exact (lockstep_typed _ h).map _
  | int32 => exact (lockstep_typed _ h).map _
  | enumerated => exact (lockstep_typed _ h).map _
  | octets => exact .map _ ((lockstep_element h).bind fun _ _ _ _ _ h => .pure _ h)
  | string => exact (lockstep_typed _ h).map _
  | null => exact (lockstep_typed _ h).map _

/-- After a look, everything is still to come. -/
theorem alike_of_looks {c : Call} (hlooks : c.looks = true) (r : Reader) :
    Alike (c.action.run.run r).2 r := by
  obtain ⟨s, hrun, halike⟩ := run_peek r
  cases c with
  | peek =>
    show Alike ((Reply.byte <$> peek).run.run r).2 r
    rw [ExceptT.run_map, StateT.run_map, hrun]
    exact halike
  | peekTag =>
    show Alike ((Reply.tag <$> peekTag).run.run r).2 r
    unfold peekTag
    rw [ExceptT.run_map, StateT.run_map, run_bind, hrun]
    rcases front r.rest r.source.ending with _ | _ | _ <;> exact halike
  | _ => cases hlooks

theorem answers_cons (r : Reader) (c : Call) (calls : List Call) :
    answers r (c :: calls) =
      (⟨c, (c.action.run.run r).1, (c.action.run.run r).2.total⟩ ::
        (answers (c.action.run.run r).2 calls).1, (answers (c.action.run.run r).2 calls).2) := rfl

/-- The calls that are no looks are answered as if there were no looks. -/
theorem filter_answers (h : Alike r r') (calls : List Call) :
    (answers r calls).1.filter (fun a => !a.call.looks) =
      (answers r' (calls.filter fun c => !c.looks)).1 := by
  induction calls generalizing r r' with
  | nil => rfl
  | cons c calls ih =>
    rw [answers_cons]
    cases hlooks : c.looks with
    | true =>
      rw [List.filter_cons_of_neg (by simp [hlooks]), List.filter_cons_of_neg (by simp [hlooks])]
      exact ih ((alike_of_looks hlooks r).trans h)
    | false =>
      obtain ⟨houtcome, halike, -⟩ := lockstep_action c h
      rw [List.filter_cons_of_pos (by simp [hlooks]), List.filter_cons_of_pos (by simp [hlooks]),
        answers_cons, houtcome, halike.total, ih halike]

/-- As long as no call but a look has told that the source stopped, the bytes that are taken are
counted. -/
theorem took_of_answers (r : Reader) (calls : List Call)
    (hstop : ∀ a ∈ (answers r calls).1, a.call.looks = false →
      ∀ e, a.reply = .error e → ¬ e.Stops) :
    ∃ bytes, r.Took bytes (answers r calls).2 := by
  induction calls generalizing r with
  | nil => exact ⟨[], rfl, rfl, rfl⟩
  | cons c calls ih =>
    rw [answers_cons] at hstop ⊢
    obtain ⟨bytes, htook⟩ : ∃ bytes, r.Took bytes (c.action.run.run r).2 := by
      cases hlooks : c.looks with
      | true => exact ⟨[], (alike_of_looks hlooks r).took⟩
      | false =>
        obtain ⟨-, -, hcounted⟩ := lockstep_action c (.refl r)
        apply hcounted.resolve_left
        intro h
        obtain ⟨e, he, hstops⟩ := h
        exact hstop _ List.mem_cons_self hlooks e he hstops
    obtain ⟨later, htook'⟩ := ih _ fun a ha => hstop a (List.mem_cons_of_mem _ ha)
    exact ⟨bytes ++ later, htook.trans htook'⟩

/-- Calls are answered alike over every source that gives the same bytes and stops in the same way,
in whatever pieces the bytes come; and looks that are put in anywhere among them change neither what
any other call tells nor the count of bytes after it. As long as none of the others has told that
the source stopped, the count is that of the bytes that were taken off the source, less the one that
is held. -/
theorem looks_unnoticed_and_bytes_counted (source source' : Source)
    (hbytes : source.bytes = source'.bytes) (hending : source.ending = source'.ending)
    (limit : Nat) (calls : List Call) :
    let run := answers (ofSource source limit) calls
    let plain := answers (ofSource source' limit) (calls.filter fun c => !c.looks)
    run.1.filter (fun a => !a.call.looks) = plain.1 ∧
      ((∀ a ∈ plain.1, ∀ e, a.reply = .error e → ¬ e.Stops) →
        ∃ taken, source.bytes = taken ++ run.2.source.bytes ∧
          run.2.total + run.2.held.toList.length = taken.length) := by
  intro run plain
  have halike : Alike (ofSource source limit) (ofSource source' limit) :=
    ⟨hbytes, hending, rfl, rfl⟩
  have hsame : run.1.filter (fun a => !a.call.looks) = plain.1 := filter_answers halike calls
  refine ⟨hsame, fun hstop => ?_⟩
  have hothers (a : Answer) (ha : a ∈ run.1) (hlooks : a.call.looks = false) :
      ∀ e, a.reply = .error e → ¬ e.Stops := by
    apply hstop a
    rw [← hsame]
    exact List.mem_filter.2 ⟨ha, by rw [hlooks]; rfl⟩
  obtain ⟨bytes, htook⟩ := took_of_answers (ofSource source limit) calls hothers
  refine ⟨bytes ++ run.2.held.toList, ?_, ?_⟩
  · rw [List.append_assoc]
    exact htook.rest
  · rw [List.length_append, htook.total]
    show 0 + bytes.length + _ = _
    omega

/-- A sequence that comes in four pieces is read with looks before its header, before and after its
member and behind it, and over another source without them. In the end six bytes were taken off the
source, of which five are counted and one is held. -/
theorem looks_unnoticed_in_sequence :
    let source : Source :=
      ⟨[.data 0x30 [0x03], .interruption, .data 0x01 [0x01], .data 0xFF [0x05], .data 0x00 []],
        .endOfInput⟩
    let source' : Source := .ofBytes [0x30, 0x03, 0x01, 0x01, 0xFF, 0x05, 0x00]
    let run := answers (ofSource source 100) [.peek, .begin, .peekTag, .peek, .boolean, .peek]
    let plain := answers (ofSource source' 100) [.begin, .boolean]
    source.bytes = source'.bytes ∧ source.ending = source'.ending ∧
      (∀ a ∈ plain.1, ∀ e, a.reply = .error e → ¬ e.Stops) ∧
      run.1.filter (fun a => !a.call.looks) = plain.1 ∧
      run.2.total = 5 ∧ run.2.held = some 0x05 ∧
      ∃ taken, source.bytes = taken ++ run.2.source.bytes ∧ taken.length = 6 := by
  intro source source' run plain
  have hrun : run.2 = ⟨⟨[.data 0x00 []], .endOfInput⟩, some 0x05, 5, 100⟩ := by
    show (answers (ofSource ⟨[.data 0x30 [0x03], .interruption, .data 0x01 [0x01],
      .data 0xFF [0x05], .data 0x00 []], .endOfInput⟩ 100)
      [.peek, .begin, .peekTag, .peek, .boolean, .peek]).2 = _
    decide +kernel
  have hplain : plain.1 =
      [⟨.begin, .ok (.cursor ⟨0x30, 3, 5⟩), 2⟩, ⟨.boolean, .ok (.boolean true), 5⟩] := by
    show (answers (ofSource (.ofBytes [0x30, 0x03, 0x01, 0x01, 0xFF, 0x05, 0x00]) 100)
      [.begin, .boolean]).1 = _
    decide +kernel
  have hstop : ∀ a ∈ plain.1, ∀ e, a.reply = .error e → ¬ e.Stops := by
    intro a ha e he
    rw [hplain] at ha
    simp only [List.mem_cons, List.not_mem_nil, or_false] at ha
    rcases ha with rfl | rfl <;> cases he
  obtain ⟨hsame, hcount⟩ := looks_unnoticed_and_bytes_counted source source' rfl rfl 100
    [.peek, .begin, .peekTag, .peek, .boolean, .peek]
  obtain ⟨taken, htaken, hlength⟩ := hcount hstop
  refine ⟨rfl, rfl, hstop, hsame, ?_, ?_, taken, htaken, ?_⟩
  · rw [hrun]
  · rw [hrun]
  · rw [← hlength]
    show run.2.total + run.2.held.toList.length = 6
    rw [hrun]
    rfl

end Ldap.Ber.Reader
