import Ldap.Ber.Element

/-!
# Writing elements into a buffer

A writer appends encoded elements. A sequence can be opened, filled and closed; its length goes in
front of its content when it is closed, so nothing has to be known in advance. `Buffer` keeps all
bytes together and moves them when the length is known.
-/

namespace Ldap.Ber

/-- The bytes since the innermost open sequence began, and for each open sequence, innermost first,
the bytes before its content up to its tag. -/
structure Writer where
  current : List UInt8
  enclosing : List (List UInt8)
  deriving DecidableEq, Repr

namespace Writer

def empty : Writer := ⟨[], []⟩

/-- Everything written so far; an open sequence has no length yet. -/
def bytes (w : Writer) : List UInt8 :=
  w.enclosing.reverse.flatten ++ w.current

/-- Appends an element. -/
def add (w : Writer) (e : Element) : Writer :=
  { w with current := w.current ++ e.encode }

/-- Appends a tag and content, with the length of the content between them. -/
def addContent (w : Writer) (tag : Tag) (content : List UInt8) : Writer :=
  { w with current := w.current ++ tag :: (Length.encode content.length ++ content) }

/-- Opens a sequence with a tag. -/
def begin (w : Writer) (tag : Tag) : Writer :=
  ⟨[], (w.current ++ [tag]) :: w.enclosing⟩

/-- Closes the innermost open sequence; nothing happens if none is open. -/
def finish (w : Writer) : Writer :=
  match w.enclosing with
  | [] => w
  | before :: enclosing =>
    ⟨before ++ Length.encode w.current.length ++ w.current, enclosing⟩

/-- Writes a sequence whose content `fill` appends. -/
def sequence (w : Writer) (tag : Tag) (fill : Writer → Writer) : Writer :=
  (fill (w.begin tag)).finish

/-- Forgets the bytes and the open sequences. -/
def clear (_ : Writer) : Writer := empty

/-- Closes the sequences that are still open. -/
def finishAll (w : Writer) : Writer :=
  w.enclosing.foldl (fun w _ => w.finish) w

end Writer

/-! ## All bytes together -/

/-- The bytes that are written, and where among them the contents of the open sequences begin,
innermost first. -/
structure Buffer where
  bytes : List UInt8
  starts : List Nat

namespace Buffer

def empty : Buffer := ⟨[], []⟩

/-- Appends bytes. -/
def append (b : Buffer) (bytes : List UInt8) : Buffer :=
  { b with bytes := b.bytes ++ bytes }

/-- Appends a tag and content, with the length of the content between them. -/
def addContent (b : Buffer) (tag : Tag) (content : List UInt8) : Buffer :=
  b.append (tag :: (Length.encode content.length ++ content))

/-- Opens a sequence with a tag. -/
def begin (b : Buffer) (tag : Tag) : Buffer :=
  ⟨b.bytes ++ [tag], (b.bytes ++ [tag]).length :: b.starts⟩

/-- Closes the innermost open sequence: the buffer is split where the content begins, and the length
of what is split off goes in between. -/
def finish (b : Buffer) : Buffer :=
  match b.starts with
  | [] => b
  | start :: starts =>
    let content := b.bytes.drop start
    ⟨b.bytes.take start ++ Length.encode content.length ++ content, starts⟩

end Buffer
end Ldap.Ber
