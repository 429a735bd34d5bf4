import Ldap.ProtocolError
import Ldap.Proofs.Ber.Element

/-!
# Values that survive the wire

A type of values is written as elements and read from elements. `Faithful` says that the two fit:
a value is read back from the element it is written as, and no element that is read as a value is
shorter than the one that the value is written as. It holds of the simple types, and of a type of
records once it holds of the types of the members.
-/

namespace Ldap

open Ber (Element Tag)

/-! ## Steps that succeed -/

section Steps

variable {ε α β : Type}

/-- A computation in two steps succeeds if both of them do. -/
theorem bind_eq_ok_iff {x : Except ε α} {f : α → Except ε β} {b : β} :
    x >>= f = .ok b ↔ ∃ a, x = .ok a ∧ f a = .ok b := by
  cases x <;> simp [bind, Except.bind]

@[simp] theorem ok_bind (a : α) (f : α → Except ε β) : (.ok a >>= f) = f a := rfl

theorem pure_eq_ok_iff {a b : α} : (pure a : Except ε α) = .ok b ↔ a = b := by
  simp [pure, Except.pure]

@[simp] theorem liftM_ok (a : α) : (liftM (.ok a : Except Ber.Error α) : Except ProtocolError α)
    = .ok a := rfl

/-- An error of an element is an error of the message, and nothing else changes. -/
theorem liftM_eq_ok_iff {x : Except Ber.Error α} {a : α} :
    (liftM x : Except ProtocolError α) = .ok a ↔ x = .ok a := by
  show x.mapError ProtocolError.ber = .ok a ↔ x = .ok a
  cases x <;> simp [Except.mapError]

/-- The same for an error of a name. -/
theorem liftM_name_eq_ok_iff {x : Except NameError α} {a : α} :
    (liftM x : Except ProtocolError α) = .ok a ↔ x = .ok a := by
  show x.mapError ProtocolError.name = .ok a ↔ x = .ok a
  cases x <;> simp [Except.mapError]

end Steps

/-- Members are counted against a least number, and against a greatest one if there is one. -/
theorem checkCount_eq_ok_iff {context : String} {min : Nat} {max : Option Nat} {es : List Element}
    {u : Unit} :
    checkCount context min max es = .ok u ↔ min ≤ es.length ∧ ∀ m ∈ max, es.length ≤ m := by
  unfold checkCount
  split
  · next h =>
    simp only [reduceCtorEq, false_iff, not_and]
    simp only [Bool.or_eq_true, decide_eq_true_eq, Option.any_eq_true] at h
    intro hmin hmax
    rcases h with h | ⟨m, hm, h⟩
    · omega
    · have := hmax m hm
      omega
  · next h =>
    simp only [Bool.or_eq_true, decide_eq_true_eq, Option.any_eq_true, not_or, not_exists,
      not_and] at h
    simp only [true_iff]
    exact ⟨by omega, fun m hm => by have := h.2 m hm; omega⟩

/-- A reader that wants two members succeeds exactly if there are two, and it accepts them. -/
theorem pair_eq_ok_iff {α : Type} {e : Element} {tag : Tag} {context : String}
    {fault : Nat → ProtocolError} {read : Element → Element → Except ProtocolError α} {a : α} :
    (do
      let members ← e.asSequenceTagged tag
      checkCount context 2 (some 2) members
      match members with
      | [x, y] => read x y
      | _ => throw (fault members.length) : Except ProtocolError α) = .ok a ↔
      ∃ x y, e.Holds tag [x, y] ∧ read x y = .ok a := by
  simp only [bind_eq_ok_iff, liftM_eq_ok_iff, Element.asSequenceTagged_eq_ok_iff,
    checkCount_eq_ok_iff]
  constructor
  · intro h
    rcases h with ⟨es, hes, -, -, h⟩
    split at h
    · exact ⟨_, _, hes, h⟩
    · cases h
  · intro h
    rcases h with ⟨x, y, hes, h⟩
    exact ⟨_, hes, (), by simp, h⟩

/-- A property that every step keeps, with the room that the elements take which were read so far,
holds at the end. -/
theorem foldlM_invariant {ε β : Type} {read : β → Element → Except ε β} {motive : Nat → β → Prop}
    (hstep : ∀ {n b e b'}, motive n b → read b e = .ok b' →
      motive (n + e.encode.length) b')
    {n : Nat} {b b' : β} {es : List Element} (h : motive n b) (hread : es.foldlM read b = .ok b') :
    motive (n + Element.size es) b' := by
  -- on the elements to come, with the room of those that were read
  induction es generalizing n b with
  | nil =>
    obtain rfl : b = b' := pure_eq_ok_iff.1 hread
    exact h
  | cons e es ih =>
    rw [List.foldlM_cons, bind_eq_ok_iff] at hread
    rcases hread with ⟨c, hc, hrest⟩
    have hlast := ih (hstep h hc) hrest
    rwa [Element.size_cons, ← Nat.add_assoc]

/-! ## Faithful types -/

/-- Values that are `Good` are read from what they are written as. What is read is good, and is
written as an element that is no longer than the one it was read from. -/
structure Faithful {α : Type} (write : α → Element) (Reads : Element → α → Prop)
    (Good : α → Prop) : Prop where
  reads : ∀ {a : α}, Good a → (write a).Short → Reads (write a) a
  good : ∀ {e : Element} {a : α}, Reads e a → Good a
  shrinks : ∀ {e : Element} {a : α}, Reads e a → (write a).encode.length ≤ e.encode.length

namespace Faithful

/-- A text is read from nothing but what is written for it. -/
theorem stringTagged (tag : Tag) :
    Faithful (Element.stringTagged tag) (fun e s => e.asStringTagged tag = .ok s)
      fun _ => True where
  reads _ _ := Element.asStringTagged_stringTagged _ _
  good _ := trivial
  shrinks h := by rw [Element.asStringTagged_eq_ok_iff.1 h]

theorem string : Faithful Element.string (fun e s => e.asString = .ok s) fun _ => True :=
  stringTagged .octetString

/-- So are octets. -/
theorem octetsTagged (tag : Tag) :
    Faithful (fun bytes => ⟨tag, bytes⟩) (fun e bytes => e.asOctetsTagged tag = .ok bytes)
      fun _ => True where
  reads _ _ := Element.asOctetsTagged_eq_ok_iff.2 rfl
  good _ := trivial
  shrinks h := by rw [Element.asOctetsTagged_eq_ok_iff.1 h]

theorem octets :
    Faithful Element.octetString (fun e bytes => e.asOctets = .ok bytes) fun _ => True :=
  octetsTagged .octetString

theorem int64 :
    Faithful (fun v : Int64 => Element.integer v.toInt) (fun e v => e.asInteger = .ok v)
      fun _ => True where
  reads _ _ := Element.asInteger_integer _
  good _ := trivial
  shrinks h := Element.length_encode_mono <|
    Ber.Integer.length_encode_le_of_decode (Element.asIntegerTagged_eq_ok_iff.1 h).2

/-- A number may be read from more bytes than are written for it. -/
theorem int32Tagged (tag : Tag) :
    Faithful (fun v : Int32 => Element.integerTagged tag v.toInt)
      (fun e v => e.asInt32Tagged tag = .ok v) fun _ => True where
  reads _ _ := Element.asInt32Tagged_eq_ok_iff.2 ⟨rfl, Ber.Integer.decode32_encode _ _⟩
  good _ := trivial
  shrinks h := Element.length_encode_mono <|
    Ber.Integer.length_encode_le_of_decode32 (Element.asInt32Tagged_eq_ok_iff.1 h).2

theorem int32 :
    Faithful (fun v : Int32 => Element.integer v.toInt) (fun e v => e.asInt32 = .ok v)
      fun _ => True :=
  int32Tagged .integer

theorem enumerated :
    Faithful (fun v : Int32 => Element.enumerated v.toInt) (fun e v => e.asEnumerated = .ok v)
      fun _ => True where
  reads _ _ := Element.asEnumeratedTagged_eq_ok_iff.2 ⟨rfl, Ber.Integer.decode32_encode _ _⟩
  good _ := trivial
  shrinks h := Element.length_encode_mono <|
    Ber.Integer.length_encode_le_of_decode32 (Element.asEnumeratedTagged_eq_ok_iff.1 h).2

/-- A truth is one byte however it is spelled. -/
theorem booleanTagged (tag : Tag) :
    Faithful (Element.booleanTagged tag) (fun e b => e.asBooleanTagged tag = .ok b)
      fun _ => True where
  reads _ _ := Element.asBooleanTagged_booleanTagged _ _
  good _ := trivial
  shrinks h := by
    rcases Element.asBooleanTagged_eq_ok_iff.1 h with ⟨-, byte, hcontent, -⟩
    exact Element.length_encode_mono (by simp [hcontent, Element.booleanTagged])

theorem boolean : Faithful Element.boolean (fun e b => e.asBoolean = .ok b) fun _ => True :=
  booleanTagged .boolean

end Faithful

/-! ## Lists -/

section Lists

variable {α : Type} {write : α → Element} {Reads : Element → α → Prop} {Good : α → Prop}

/-- An element with a tag, the members of which are read as the values of a list. -/
def Lists (Reads : Element → α → Prop) (tag : Tag) (e : Element) (as : List α) : Prop :=
  ∃ es, e.Holds tag es ∧ List.Forall₂ Reads es as

/-- A list is read element by element. -/
theorem mapM_eq_ok_iff {ε : Type} {read : Element → Except ε α} {es : List Element} {as : List α} :
    es.mapM read = .ok as ↔ List.Forall₂ (fun e a => read e = .ok a) es as := by
  induction es generalizing as with
  | nil => rw [List.mapM_nil, pure_eq_ok_iff, List.forall₂_nil_left_iff, eq_comm]
  | cons e es ih =>
    simp only [List.mapM_cons, bind_eq_ok_iff, pure_eq_ok_iff, List.forall₂_cons_left_iff, ih]
    constructor
    · intro h
      rcases h with ⟨a, ha, as, has, rfl⟩
      exact ⟨a, as, ha, has, rfl⟩
    · intro h
      rcases h with ⟨a, as, ha, has, rfl⟩
      exact ⟨a, ha, as, has, rfl⟩

/-- A list is read back exactly if its values are. -/
theorem mapM_map_eq_ok_iff {ε : Type} {read : Element → Except ε α} {as : List α} :
    (as.map write).mapM read = .ok as ↔ ∀ a ∈ as, read (write a) = .ok a := by
  rw [mapM_eq_ok_iff, List.forall₂_map_left_iff, List.forall₂_same]

theorem forall₂_toList_none_iff {es : List Element} :
    List.Forall₂ Reads es (none : Option α).toList ↔ es = [] :=
  List.forall₂_nil_right_iff

theorem forall₂_toList_some_iff {es : List Element} {a : α} :
    List.Forall₂ Reads es (some a).toList ↔ ∃ e, es = [e] ∧ Reads e a := by
  rw [Option.toList_some, List.forall₂_cons_right_iff]
  simp only [List.forall₂_nil_right_iff]
  constructor
  · intro h
    rcases h with ⟨e, _, ha, rfl, rfl⟩
    exact ⟨e, rfl, ha⟩
  · intro h
    rcases h with ⟨e, rfl, ha⟩
    exact ⟨e, [], ha, rfl, rfl⟩

namespace Faithful

/-- A list of good values is written and read back member by member. -/
theorem forall₂_map (h : Faithful write Reads Good) {as : List α} (hgood : ∀ a ∈ as, Good a)
    (hsize : Element.size (as.map write) < 2 ^ 32) : List.Forall₂ Reads (as.map write) as := by
  rw [List.forall₂_map_left_iff, List.forall₂_same]
  intro a ha
  have hle := Element.length_encode_le_size (List.mem_map_of_mem (f := write) ha)
  exact h.reads (hgood a ha) (Element.short_of_length_lt (lt_of_le_of_lt hle hsize))

/-- What was read is good. -/
theorem forall_good (h : Faithful write Reads Good) {es : List Element} {as : List α}
    (hread : List.Forall₂ Reads es as) : ∀ a ∈ as, Good a := by
  induction hread with
  | nil => simp
  | cons ha _ ih => simpa using ⟨h.good ha, ih⟩

/-- What was read member by member is written in no more room. -/
theorem size_le (h : Faithful write Reads Good) {es : List Element} {as : List α}
    (hread : List.Forall₂ Reads es as) : Element.size (as.map write) ≤ Element.size es := by
  induction hread with
  | nil => simp
  | cons ha _ ih =>
    have hfirst := h.shrinks ha
    rw [List.map_cons, Element.size_cons, Element.size_cons]
    omega

/-- Lists of values are faithful if the values are. -/
theorem lists (h : Faithful write Reads Good) (tag : Tag) :
    Faithful (fun as => .constructed tag (as.map write)) (Lists Reads tag)
      fun as => ∀ a ∈ as, Good a where
  reads hgood hshort :=
    ⟨_, Element.holds_constructed hshort, h.forall₂_map hgood hshort.size⟩
  good := by
    intro e as h
    rcases h with ⟨es, -, hread⟩
    exact h.forall_good hread
  shrinks := by
    intro e as h
    rcases h with ⟨es, hes, hread⟩
    exact hes.constructed_le tag (h.size_le hread)

end Faithful

end Lists

/-! ## Records -/

/-- Values of two parts are faithful if the parts are. -/
theorem Faithful.pair {α β γ : Type} {writeα : α → Element} {Readsα : Element → α → Prop}
    {Goodα : α → Prop} {writeβ : β → Element} {Readsβ : Element → β → Prop} {Goodβ : β → Prop}
    {write : γ → Element} {Reads : Element → γ → Prop} {tag : Tag} {f : γ → α} {g : γ → β}
    (hα : Faithful writeα Readsα Goodα) (hβ : Faithful writeβ Readsβ Goodβ)
    (hwrite : ∀ c, write c = .constructed tag [writeα (f c), writeβ (g c)])
    (hread : ∀ e c, Reads e c ↔ ∃ x y, e.Holds tag [x, y] ∧ Readsα x (f c) ∧ Readsβ y (g c)) :
    Faithful write Reads fun c => Goodα (f c) ∧ Goodβ (g c) where
  reads {c} hgood hshort := by
    rw [hwrite] at hshort ⊢
    exact (hread _ _).2 ⟨_, _, Element.holds_constructed hshort,
      hα.reads hgood.1 (hshort.member (by simp)), hβ.reads hgood.2 (hshort.member (by simp))⟩
  good h := by
    obtain ⟨x, y, -, hx, hy⟩ := (hread _ _).1 h
    exact ⟨hα.good hx, hβ.good hy⟩
  shrinks {e c} h := by
    obtain ⟨x, y, hes, hx, hy⟩ := (hread _ _).1 h
    have hlex := hα.shrinks hx
    have hley := hβ.shrinks hy
    rw [hwrite]
    apply hes.constructed_le tag
    simp only [Element.size_cons, Element.size_nil]
    omega

/-- Values of a part that is always there and one that may be missing are faithful if the parts
are. -/
theorem Faithful.headed {α β γ : Type} {writeα : α → Element} {Readsα : Element → α → Prop}
    {Goodα : α → Prop} {writeβ : β → Element} {Readsβ : Element → β → Prop} {Goodβ : β → Prop}
    {write : γ → Element} {Reads : Element → γ → Prop} {tag : Tag} {f : γ → α} {g : γ → Option β}
    (hα : Faithful writeα Readsα Goodα) (hβ : Faithful writeβ Readsβ Goodβ)
    (hwrite : ∀ c, write c = .constructed tag (writeα (f c) :: (g c).toList.map writeβ))
    (hread : ∀ e c, Reads e c ↔ ∃ x ys, e.Holds tag (x :: ys) ∧ Readsα x (f c) ∧
      List.Forall₂ Readsβ ys (g c).toList) :
    Faithful write Reads fun c => Goodα (f c) ∧ ∀ b ∈ (g c).toList, Goodβ b where
  reads {c} hgood hshort := by
    rw [hwrite] at hshort ⊢
    have hsize := hshort.size
    rw [Element.size_cons] at hsize
    exact (hread _ _).2 ⟨_, _, Element.holds_constructed hshort,
      hα.reads hgood.1 (hshort.member List.mem_cons_self), hβ.forall₂_map hgood.2 (by omega)⟩
  good h := by
    obtain ⟨x, ys, -, hx, hys⟩ := (hread _ _).1 h
    exact ⟨hα.good hx, hβ.forall_good hys⟩
  shrinks {e c} h := by
    obtain ⟨x, ys, hes, hx, hys⟩ := (hread _ _).1 h
    have hlex := hα.shrinks hx
    have hleys := hβ.size_le hys
    rw [hwrite]
    apply hes.constructed_le tag
    rw [Element.size_cons, Element.size_cons]
    omega

/-- What is good may be said in other words. -/
theorem Faithful.of_iff {α : Type} {write : α → Element} {Reads : Element → α → Prop}
    {Good Good' : α → Prop} (h : Faithful write Reads Good) (hgood : ∀ a, Good' a ↔ Good a) :
    Faithful write Reads Good' where
  reads hg := h.reads ((hgood _).1 hg)
  good hr := (hgood _).2 (h.good hr)
  shrinks := h.shrinks

end Ldap
