import Ldap.Ber.Writer
import Mathlib.Tactic

/-!
# What a writer writes

A writer that closes what it opens writes the same bytes as the elements that the calls make when
they are put together one by one (`bytes_callAll_of_scoped`). The length of a sequence goes in front
of its content when the sequence is closed; with it all that was written since moves, but not what
the enclosing sequences began with. `Buffer` is a writer that keeps all bytes together and remembers
where the contents of open sequences begin; it writes the same (`buffer_callAll`).
-/

namespace Ldap.Ber

/-! ## Calls -/

/-- What can be done to a writer. -/
inductive WriterCall where
  | null (tag : Tag)
  | boolean (tag : Tag) (b : Bool)
  | integer (tag : Tag) (v : Int64)
  | octets (tag : Tag) (bytes : List UInt8)
  /-- Appends an element that was made before. -/
  | element (e : Element)
  | begin (tag : Tag)
  /-- Closes the innermost open sequence. -/
  | finish
  /-- Opens a sequence, makes the calls that fill it, and closes it. -/
  | sequence (tag : Tag) (fill : List WriterCall)
  | clear

namespace WriterCall

mutual

/-- How many sequences are open after a call, of which `n` are open before. It must not close more
than are open. Calls that `fill` a sequence must leave it and those around it alone. -/
def openAfter? (filling : Bool) (n : Nat) : WriterCall → Option Nat
  | null _ | boolean .. | integer .. | octets .. | element _ => some n
  | begin _ => some (n + 1)
  | finish => if n = 0 then none else some (n - 1)
  | sequence _ fill => if openAfterAll? true 0 fill = some 0 then some n else none
  | clear => if filling then none else some 0

/-- How many sequences are open after some calls. -/
def openAfterAll? (filling : Bool) (n : Nat) : List WriterCall → Option Nat
  | [] => some n
  | c :: cs => (c.openAfter? filling n).bind fun n => openAfterAll? filling n cs

end

/-- Sequences are closed innermost first, and none is open at the end. -/
def Scoped (calls : List WriterCall) : Prop :=
  openAfterAll? false 0 calls = some 0

instance (calls : List WriterCall) : Decidable (Scoped calls) :=
  inferInstanceAs (Decidable (_ = _))

end WriterCall

/-! ## Writers -/

namespace Writer

mutual

/-- Makes a call. -/
def call (w : Writer) : WriterCall → Writer
  | .null tag => w.addContent tag []
  | .boolean tag b => w.addContent tag [if b then 0xFF else 0x00]
  | .integer tag v => w.addContent tag (Integer.encode v.toInt)
  | .octets tag bytes => w.addContent tag bytes
  | .element e => w.add e
  | .begin tag => w.begin tag
  | .finish => w.finish
  | .sequence tag fill => w.sequence tag fun w => w.callAll fill
  | .clear => w.clear

/-- Makes calls one after the other. -/
def callAll (w : Writer) : List WriterCall → Writer
  | [] => w
  | c :: cs => (w.call c).callAll cs

end

end Writer

/-! ## The elements that calls make -/

/-- Elements that are put together: those since the innermost open sequence began, and for each
open sequence, innermost first, those before it and its tag. -/
structure Draft where
  elements : List Element
  enclosing : List (List Element × Tag)

namespace Draft

def empty : Draft := ⟨[], []⟩

/-- Appends an element. -/
def add (d : Draft) (e : Element) : Draft :=
  { d with elements := d.elements ++ [e] }

/-- Makes an element of the innermost open sequence; nothing happens if none is open. -/
def finish (d : Draft) : Draft :=
  match d.enclosing with
  | [] => d
  | (before, tag) :: enclosing => ⟨before ++ [.constructed tag d.elements], enclosing⟩

mutual

/-- Makes a call. -/
def call (d : Draft) : WriterCall → Draft
  | .null tag => d.add ⟨tag, []⟩
  | .boolean tag b => d.add (.booleanTagged tag b)
  | .integer tag v => d.add (.integerTagged tag v.toInt)
  | .octets tag bytes => d.add ⟨tag, bytes⟩
  | .element e => d.add e
  | .begin tag => ⟨[], (d.elements, tag) :: d.enclosing⟩
  | .finish => d.finish
  | .sequence tag fill => d.add (.constructed tag (empty.callAll fill).elements)
  | .clear => empty

/-- Makes calls one after the other. -/
def callAll (d : Draft) : List WriterCall → Draft
  | [] => d
  | c :: cs => (d.call c).callAll cs

end

theorem length_finish (d : Draft) : d.finish.enclosing.length = d.enclosing.length - 1 := by
  unfold finish
  split
  · next hnil =>
    rw [hnil]
    rfl
  · next hcons =>
    rw [hcons]
    rfl

end Draft

/-- The elements that calls make. -/
def WriterCall.forest (calls : List WriterCall) : List Element :=
  (Draft.empty.callAll calls).elements

/-! ## All bytes together -/

namespace Buffer

mutual

/-- Makes a call. -/
def call (b : Buffer) : WriterCall → Buffer
  | .null tag => b.addContent tag []
  | .boolean tag v => b.addContent tag [if v then 0xFF else 0x00]
  | .integer tag v => b.addContent tag (Integer.encode v.toInt)
  | .octets tag bytes => b.addContent tag bytes
  | .element e => b.append e.encode
  | .begin tag => b.begin tag
  | .finish => b.finish
  | .sequence tag fill => ((b.begin tag).callAll fill).finish
  | .clear => empty

/-- Makes calls one after the other. -/
def callAll (b : Buffer) : List WriterCall → Buffer
  | [] => b
  | c :: cs => (b.call c).callAll cs

end

end Buffer

namespace Writer

/-- Where the contents of open sequences begin. -/
def starts : List (List UInt8) → List Nat
  | [] => []
  | before :: enclosing => (before :: enclosing).reverse.flatten.length :: starts enclosing

/-- A writer with all its bytes together. -/
def buffer (w : Writer) : Buffer :=
  ⟨w.bytes, starts w.enclosing⟩

theorem buffer_append (w : Writer) (bytes : List UInt8) :
    ({ w with current := w.current ++ bytes } : Writer).buffer = w.buffer.append bytes := by
  simp only [buffer, Writer.bytes, Buffer.append, List.append_assoc]

theorem buffer_begin (w : Writer) (tag : Tag) : (w.begin tag).buffer = w.buffer.begin tag := by
  have hbytes : (w.begin tag).bytes = w.bytes ++ [tag] := by
    simp [Writer.begin, Writer.bytes]
  have hstarts : starts (w.begin tag).enclosing =
      (w.bytes ++ [tag]).length :: starts w.enclosing := by
    simp [Writer.begin, starts, Writer.bytes]
  rw [buffer, hbytes, hstarts]
  rfl

/-- The bytes of the enclosing sequences stay where they are, so that the place where the content
begins is the right one to split the buffer at. -/
theorem buffer_finish (w : Writer) : w.finish.buffer = w.buffer.finish := by
  rcases w with ⟨current, enclosing⟩
  cases enclosing with
  | nil => rfl
  | cons before enclosing =>
    have htake : (Writer.bytes ⟨current, before :: enclosing⟩).take
        (before :: enclosing).reverse.flatten.length = (before :: enclosing).reverse.flatten :=
      List.take_left
    have hdrop : (Writer.bytes ⟨current, before :: enclosing⟩).drop
        (before :: enclosing).reverse.flatten.length = current :=
      List.drop_left
    simp only [Writer.finish, buffer, starts, Buffer.finish, htake, hdrop]
    simp [Writer.bytes]

mutual

theorem buffer_call (w : Writer) (c : WriterCall) : (w.call c).buffer = w.buffer.call c := by
  cases c with
  | null _ | boolean _ _ | integer _ _ | octets _ _ | element _ => exact w.buffer_append _
  | begin tag => exact w.buffer_begin tag
  | finish => exact w.buffer_finish
  | sequence tag fill =>
    rw [Writer.call, Buffer.call, Writer.sequence, buffer_finish, buffer_callAll, buffer_begin]
  | clear => rfl

/-- A writer that keeps the bytes of each open sequence apart writes what it writes when it keeps
all bytes together. -/
theorem buffer_callAll (w : Writer) (cs : List WriterCall) :
    (w.callAll cs).buffer = w.buffer.callAll cs := by
  cases cs with
  | nil => rfl
  | cons c cs => rw [Writer.callAll, Buffer.callAll, buffer_callAll, buffer_call]

end

/-! ## Writers and drafts -/

/-- The bytes before the content of an open sequence up to its tag. -/
def opening (frame : List Element × Tag) : List UInt8 :=
  frame.1.flatMap Element.encode ++ [frame.2]

/-- A writer wrote the elements of a draft, within the sequences that are open `around` them. -/
structure Wrote (around : List (List UInt8)) (d : Draft) (w : Writer) : Prop where
  current : w.current = d.elements.flatMap Element.encode
  enclosing : w.enclosing = d.enclosing.map opening ++ around

namespace Wrote

variable {around : List (List UInt8)} {d : Draft} {w : Writer}

theorem add (h : Wrote around d w) (e : Element) : Wrote around (d.add e) (w.add e) where
  current := by simp [Writer.add, Draft.add, h.current]
  enclosing := h.enclosing

theorem begin (h : Wrote around d w) (tag : Tag) :
    Wrote around ⟨[], (d.elements, tag) :: d.enclosing⟩ (w.begin tag) where
  current := rfl
  enclosing := by simp [Writer.begin, opening, h.current, h.enclosing]

/-- To close a sequence of the draft makes an element of it. -/
theorem finish (h : Wrote around d w) (hopen : d.enclosing ≠ []) :
    Wrote around d.finish w.finish := by
  rcases d with ⟨elements, enclosing⟩
  cases enclosing with
  | nil => exact absurd rfl hopen
  | cons frame enclosing =>
    obtain ⟨before, tag⟩ := frame
    obtain ⟨hcurrent, henclosing⟩ := h
    rcases w with ⟨current, outer⟩
    dsimp only at hcurrent henclosing
    subst hcurrent henclosing
    exact ⟨by simp [Writer.finish, Draft.finish, opening, Element.constructed, Element.encode], rfl⟩

/-- A sequence that was opened, filled and closed is one more element. -/
theorem sequence (h : Wrote around d w) {tag : Tag} {filled : Draft} {w' : Writer}
    (hfilled : Wrote ((w.current ++ [tag]) :: w.enclosing) filled w')
    (hclosed : filled.enclosing = []) :
    Wrote around (d.add (.constructed tag filled.elements)) w'.finish := by
  obtain ⟨hcurrent, henclosing⟩ := hfilled
  rw [hclosed, List.map_nil, List.nil_append] at henclosing
  have hfinish : w'.finish =
      ⟨w.current ++ [tag] ++ Length.encode w'.current.length ++ w'.current, w.enclosing⟩ := by
    rw [Writer.finish, henclosing]
  rw [hfinish, hcurrent]
  exact ⟨by simp [Draft.add, h.current, Element.constructed, Element.encode], h.enclosing⟩

end Wrote

mutual

/-- A call keeps writer and draft together, and leaves as many sequences open as it says. -/
theorem wrote_call {around : List (List UInt8)} {d : Draft} {w : Writer} {filling : Bool} {n : Nat}
    (h : Wrote around d w) (hnone : filling = false → around = []) (c : WriterCall)
    (hopen : c.openAfter? filling d.enclosing.length = some n) :
    Wrote around (d.call c) (w.call c) ∧ (d.call c).enclosing.length = n := by
  cases c with
  | null _ | boolean _ _ | integer _ _ | octets _ _ | element _ =>
    exact ⟨h.add _, Option.some.inj hopen⟩
  | begin tag => exact ⟨h.begin tag, Option.some.inj hopen⟩
  | finish =>
    rw [WriterCall.openAfter?, Option.ite_none_left_eq_some] at hopen
    obtain ⟨hne, hn⟩ := hopen
    refine ⟨h.finish (List.ne_nil_of_length_pos (Nat.pos_of_ne_zero hne)), ?_⟩
    rw [Draft.call, Draft.length_finish]
    exact Option.some.inj hn
  | sequence tag fill =>
    rw [WriterCall.openAfter?, Option.ite_none_right_eq_some] at hopen
    obtain ⟨hfill, hn⟩ := hopen
    -- the content is a draft of its own, around which the sequence stays open
    have hbegin : Wrote ((w.current ++ [tag]) :: w.enclosing) .empty (w.begin tag) := ⟨rfl, rfl⟩
    obtain ⟨hfilled, hclosed⟩ := wrote_callAll hbegin (fun h : true = false => nomatch h) fill hfill
    exact ⟨h.sequence hfilled (List.eq_nil_of_length_eq_zero hclosed), Option.some.inj hn⟩
  | clear =>
    rw [WriterCall.openAfter?, Option.ite_none_left_eq_some, Bool.not_eq_true] at hopen
    obtain ⟨hwhole, hn⟩ := hopen
    rw [hnone hwhole]
    exact ⟨⟨rfl, rfl⟩, Option.some.inj hn⟩

theorem wrote_callAll {around : List (List UInt8)} {d : Draft} {w : Writer} {filling : Bool}
    {n : Nat} (h : Wrote around d w) (hnone : filling = false → around = []) (cs : List WriterCall)
    (hopen : WriterCall.openAfterAll? filling d.enclosing.length cs = some n) :
    Wrote around (d.callAll cs) (w.callAll cs) ∧ (d.callAll cs).enclosing.length = n := by
  cases cs with
  | nil => exact ⟨h, Option.some.inj hopen⟩
  | cons c cs =>
    rw [WriterCall.openAfterAll?, Option.bind_eq_some_iff] at hopen
    obtain ⟨m, hm, hopen⟩ := hopen
    obtain ⟨hw, rfl⟩ := wrote_call h hnone c hm
    exact wrote_callAll hw hnone cs hopen

end

/-- Calls that close what they open, innermost first, write the elements that they make, one after
the other, and leave nothing open. A buffer in which the lengths are put in between when sequences
are closed ends up with the same bytes. -/
theorem bytes_callAll_of_scoped {calls : List WriterCall} (h : WriterCall.Scoped calls) :
    (empty.callAll calls).enclosing = [] ∧
      (empty.callAll calls).bytes = (WriterCall.forest calls).flatMap Element.encode ∧
      Buffer.empty.callAll calls = ⟨(WriterCall.forest calls).flatMap Element.encode, []⟩ := by
  have hempty : Wrote [] .empty empty := ⟨rfl, rfl⟩
  obtain ⟨⟨hcurrent, henclosing⟩, hlength⟩ := wrote_callAll hempty (fun _ => rfl) calls h
  rw [List.eq_nil_of_length_eq_zero hlength] at henclosing
  have hnone : (empty.callAll calls).enclosing = [] := henclosing
  have hbytes : (empty.callAll calls).bytes =
      (WriterCall.forest calls).flatMap Element.encode := by
    rw [bytes, hnone, hcurrent]
    rfl
  refine ⟨hnone, hbytes, ?_⟩
  have hbuffer := buffer_callAll empty calls
  rw [buffer, hnone, hbytes] at hbuffer
  exact hbuffer.symm

/-- What was written before is forgotten, also a sequence that was open. Then a sequence is written
around another one that holds a number and a long text, and an octet string follows. -/
theorem bytes_of_nested_after_clear :
    let calls : List WriterCall :=
      [.begin 0x30, .boolean 0x01 true, .clear, .begin 0x30,
        .sequence 0x63 [.integer 0x02 5, .octets 0x04 (List.replicate 200 0x78)], .finish,
        .element (.octetString [])]
    let text := Element.octetString (List.replicate 200 0x78)
    WriterCall.Scoped calls ∧
      (empty.callAll calls).bytes =
        (Element.sequence [.constructed 0x63 [.integer 5, text]]).encode ++
          (Element.octetString []).encode := by
  intro calls text
  have hscoped : WriterCall.Scoped calls := by decide
  obtain ⟨-, hbytes, -⟩ := bytes_callAll_of_scoped hscoped
  refine ⟨hscoped, hbytes.trans ?_⟩
  rw [← List.append_nil (Element.octetString []).encode]
  rfl

end Writer
end Ldap.Ber
