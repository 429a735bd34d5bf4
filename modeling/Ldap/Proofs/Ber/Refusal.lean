import Ldap.Proofs.Ber.Faithful
import Ldap.Proofs.Ber.Reader

/-!
# Why elements are refused

A decoder that is given an element can only find fault with what stands in it: `IsContent` names the
errors that are left. What stands before or after the element, and how its bytes were come by, a
decoder knows nothing of.
-/

namespace Ldap

open Ber (Element Tag)

/-! ## Errors of one kind -/

section Refuses

variable {ε ε' σ α β : Type} {p : ε → Prop}

/-- All that a value can be refused for is of one kind. -/
structure Refuses (x : Except ε α) (p : ε → Prop) : Prop where
  of_eq_error : ∀ {e}, x = .error e → p e

namespace Refuses

theorem ok (a : α) : Refuses (.ok a) p := ⟨nofun⟩

theorem error {e : ε} (h : p e) : Refuses (.error e : Except ε α) p := by
  refine ⟨fun h' => ?_⟩
  cases h'
  exact h

/-- What is of a kind is of every wider kind. -/
theorem mono {q : ε → Prop} {x : Except ε α} (hx : Refuses x p) (h : ∀ {e}, p e → q e) :
    Refuses x q :=
  ⟨fun he => h (hx.of_eq_error he)⟩

/-- A computation in two steps can be refused in either. -/
theorem bind {x : Except ε α} {f : α → Except ε β} (hx : Refuses x p)
    (hf : ∀ a, Refuses (f a) p) : Refuses (x >>= f) p := by
  refine ⟨fun h => ?_⟩
  cases x with
  | error e =>
    cases h
    exact hx.of_eq_error rfl
  | ok a => exact (hf a).of_eq_error h

/-- What is made of a result adds no errors. -/
theorem map {x : Except ε α} (hx : Refuses x p) (f : α → β) :
    Refuses (x >>= fun a => pure (f a)) p :=
  hx.bind fun _ => .ok _

/-- Errors that are passed on in another form are of the kind that this form has. -/
theorem mapError {x : Except ε' α} {f : ε' → ε} (hx : Refuses x fun e => p (f e)) :
    Refuses (x.mapError f) p := by
  refine ⟨fun h => ?_⟩
  cases x with
  | error e =>
    cases h
    exact hx.of_eq_error rfl
  | ok a => cases h

/-- A list is refused for one of its members. -/
theorem mapM {γ : Type} {read : γ → Except ε α} (hread : ∀ c, Refuses (read c) p) (cs : List γ) :
    Refuses (cs.mapM read) p := by
  induction cs with
  | nil => exact .ok _
  | cons c cs ih =>
    rw [List.mapM_cons]
    exact (hread c).bind fun _ => ih.map _

/-- A list that is read from left to right is refused at one of its members, whatever was read so
far. -/
theorem foldlM {γ : Type} {read : β → γ → Except ε β} (hread : ∀ b c, Refuses (read b c) p)
    (b : β) (cs : List γ) : Refuses (cs.foldlM read b) p := by
  induction cs generalizing b with
  | nil => exact .ok _
  | cons c cs ih =>
    rw [List.foldlM_cons]
    exact (hread b c).bind fun _ => ih _

end Refuses

/-- All that an action can fail with is of one kind. -/
def Throws (x : ExceptT ε (StateM σ) α) (p : ε → Prop) : Prop :=
  ∀ s e s', x.run.run s = (.error e, s') → p e

namespace Throws

theorem mono {q : ε → Prop} {x : ExceptT ε (StateM σ) α} (hx : Throws x p)
    (h : ∀ {e}, p e → q e) : Throws x q :=
  fun s e s' hrun => h (hx s e s' hrun)

theorem pure (a : α) : Throws (pure a : ExceptT ε (StateM σ) α) p := by
  intro s e s' h
  cases h

theorem throw {e : ε} (h : p e) : Throws (throw e : ExceptT ε (StateM σ) α) p := by
  intro s e' s' h'
  cases h'
  exact h

/-- An action that looks at a value only fails with what the value is refused for. -/
theorem ofExcept {x : Except ε α} (hx : Refuses x p) :
    Throws (MonadExcept.ofExcept x : ExceptT ε (StateM σ) α) p := by
  cases x with
  | error e => exact .throw (hx.of_eq_error rfl)
  | ok a => exact .pure a

/-- An action in two steps can fail in either; the second one starts where the first one ends. -/
theorem bind {x : ExceptT ε (StateM σ) α} {f : α → ExceptT ε (StateM σ) β} (hx : Throws x p)
    (hf : ∀ a, Throws (f a) p) : Throws (x >>= f) p := by
  intro s e s' h
  rw [run_bind] at h
  cases hrun : x.run.run s with
  | mk r t =>
    rw [hrun] at h
    cases r with
    | error e' =>
      cases h
      exact hx s _ _ hrun
    | ok a => exact hf a t e s' h

theorem get : Throws (get : ExceptT ε (StateM σ) σ) p := by
  intro s e s' h
  cases h

theorem set (s : σ) : Throws (set s : ExceptT ε (StateM σ) PUnit) p := by
  intro t e s' h
  cases h

theorem modify (f : σ → σ) : Throws (modify f : ExceptT ε (StateM σ) PUnit) p := by
  intro s e s' h
  cases h

/-- An action whose errors are passed on in another form fails with errors of that form. -/
theorem tryCatch {x : ExceptT ε (StateM σ) α} {f : ε → ε} (hx : Throws x fun e => p (f e)) :
    Throws (tryCatch x fun e => MonadExcept.throw (f e)) p := by
  intro s e s' h
  rw [run_tryCatch] at h
  cases hx' : x.run.run s with
  | mk y t =>
    rw [hx'] at h
    cases y with
    | ok a => cases h
    | error e' =>
      cases h
      exact hx s _ _ hx'

end Throws

end Refuses

/-! ## Elements -/

namespace Ber

/-- An error about the bytes of an element that is there as a whole. -/
def Error.IsContent : Error → Prop
  | .truncated .. | .lengthTooLarge _ | .indefiniteLength | .tagMismatch .. | .invalidContent .. =>
    True
  | .elementTooLarge .. | .trailingBytes _ | .readPastEnd .. | .endOfInput | .source _ => False

namespace Length

/-- The first byte of a length is refused if it announces no length or more than four bytes. -/
theorem continuationCount_refuses (first : UInt8) :
    Refuses (continuationCount first) Error.IsContent := by
  unfold continuationCount
  split
  · exact .ok _
  dsimp only
  split
  · exact .error trivial
  split
  · exact .error trivial
  · exact .ok _

/-- A length is refused for its first byte or because the bytes that this announces are missing. -/
theorem decode_refuses (bytes : List UInt8) : Refuses (decode bytes) Error.IsContent := by
  cases bytes with
  | nil => exact .error trivial
  | cons first rest =>
    refine (continuationCount_refuses first).bind fun count => ?_
    split
    · exact .error trivial
    · exact .ok _

end Length

namespace Integer

/-- A number without bytes is refused, and one of more than eight. -/
theorem decode_refuses (kind : ContentKind) (bytes : List UInt8) :
    Refuses (decode kind bytes) Error.IsContent := by
  unfold decode
  split
  · exact .error trivial
  split
  · exact .error trivial
  · exact .ok _

/-- What is read as a number of 64 bits may still be too great for 32. -/
theorem decode32_refuses (kind : ContentKind) (bytes : List UInt8) :
    Refuses (decode32 kind bytes) Error.IsContent := by
  refine (decode_refuses kind bytes).bind fun v => ?_
  split
  · exact .ok _
  · exact .error trivial

end Integer

namespace Element

/-- An element in memory is refused for its length or because it is not there as a whole. No limit
is set to its size, so `elementTooLarge` is not among the errors. -/
theorem parse_refuses (bytes : List UInt8) : Refuses (parse bytes) Error.IsContent := by
  cases bytes with
  | nil => exact .error trivial
  | cons tag body =>
    have hlength := Length.decode_refuses body
    simp only [parse]
    cases hdecode : Length.decode body with
    | error e =>
      have he := hlength.of_eq_error hdecode
      cases e <;> exact .error he
    | ok x =>
      rcases x with ⟨n, rest⟩
      dsimp only
      split
      · exact .error trivial
      · exact .ok _

/-- Members are refused for the first one that cannot be read, and nothing is left over behind the
last one. -/
theorem parseAll_refuses (bytes : List UInt8) : Refuses (parseAll bytes) Error.IsContent := by
  -- on the length of the bytes, of which each element leaves fewer
  induction hn : bytes.length using Nat.strong_induction_on generalizing bytes with
  | h n ih =>
    subst hn
    rw [parseAll]
    split
    · exact .ok _
    split
    · next e hparse => exact .error ((parse_refuses bytes).of_eq_error hparse)
    · next e rest hparse =>
      have hrest := ih rest.length (length_rest_lt_of_parse hparse) rest rfl
      dsimp only
      split
      · next e' he' => exact .error (hrest.of_eq_error he')
      · exact .ok _

variable (e : Element) (tag : Tag)

/-- Another tag than the one that is asked for is all there is to find fault with. -/
theorem expectTag_refuses (kind : ContentKind) :
    Refuses (e.expectTag tag kind) Error.IsContent := by
  unfold expectTag
  split
  · exact .ok _
  · exact .error trivial

/-- A sequence is refused for its tag or for its members. -/
theorem asSequenceTagged_refuses : Refuses (e.asSequenceTagged tag) Error.IsContent :=
  (e.expectTag_refuses tag _).bind fun _ => parseAll_refuses _

theorem asSet_refuses : Refuses e.asSet Error.IsContent :=
  (e.expectTag_refuses _ _).bind fun _ => parseAll_refuses _

/-- Any bytes will do for octets, so the tag is all that these are refused for. -/
theorem asOctetsTagged_refuses : Refuses (e.asOctetsTagged tag) Error.IsContent :=
  (e.expectTag_refuses tag _).bind fun _ => .ok _

/-- A text is refused for its tag or because its bytes are no UTF-8. -/
theorem asStringTagged_refuses : Refuses (e.asStringTagged tag) Error.IsContent := by
  refine (e.expectTag_refuses tag _).bind fun _ => ?_
  unfold text
  split
  · exact .ok _
  · exact .error trivial

/-- A number is refused for its tag, for its bytes, or for its size. -/
theorem asInt32Tagged_refuses : Refuses (e.asInt32Tagged tag) Error.IsContent :=
  (e.expectTag_refuses tag _).bind fun _ => Integer.decode32_refuses _ _

theorem asEnumeratedTagged_refuses : Refuses (e.asEnumeratedTagged tag) Error.IsContent :=
  (e.expectTag_refuses tag _).bind fun _ => Integer.decode32_refuses _ _

/-- A truth value is refused for its tag or because it is not of one byte. -/
theorem asBooleanTagged_refuses : Refuses (e.asBooleanTagged tag) Error.IsContent := by
  refine (e.expectTag_refuses tag _).bind fun _ => ?_
  unfold truth
  split
  · exact .ok _
  · exact .error trivial

theorem asNullTagged_refuses : Refuses (e.asNullTagged tag) Error.IsContent := by
  refine (e.expectTag_refuses tag _).bind fun _ => ?_
  unfold nothing
  split
  · exact .ok _
  · exact .error trivial

end Element
end Ber

/-! ## Decoders -/

namespace ProtocolError

/-- An error about what stands in an element. -/
def IsContent : ProtocolError → Prop
  | broken _ | memberCount .. | unknownTag .. => True
  | ber e => e.IsContent
  | malformedFilter .. | missingValue _ | inMessage .. | name _ => False

end ProtocolError

/-- The view of an element refuses it for its content, also where it is a step of a decoder. -/
theorem Refuses.lift {α : Type} {x : Except Ber.Error α} (hx : Refuses x Ber.Error.IsContent) :
    Refuses (liftM x : Except ProtocolError α) ProtocolError.IsContent :=
  Refuses.mapError (p := ProtocolError.IsContent) (f := .ber) hx

/-- The number of the members is part of the content. -/
theorem checkCount_refuses (context : String) (min : Nat) (max : Option Nat) (es : List Element) :
    Refuses (checkCount context min max es) ProtocolError.IsContent := by
  unfold checkCount
  split
  · exact .error trivial
  · exact .ok _

/-- A sequence is refused for its content if its members are, whatever their number has to be. -/
theorem Refuses.members {α : Type} {e : Element} {tag : Tag} {context : String} {min : Nat}
    {max : Option Nat} {read : List Element → Except ProtocolError α}
    (hread : ∀ es, Refuses (read es) ProtocolError.IsContent) :
    Refuses (do
      let es ← e.asSequenceTagged tag
      checkCount context min max es
      read es : Except ProtocolError α) ProtocolError.IsContent :=
  .bind (.lift (e.asSequenceTagged_refuses tag)) fun es =>
    .bind (checkCount_refuses ..) fun _ => hread es

end Ldap
