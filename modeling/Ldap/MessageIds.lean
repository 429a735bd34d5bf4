/-!
# Message identifiers

Identifiers run from 1 to the greatest 32-bit number and begin again at 1. Zero marks what no
request asked for and is never given out.
-/

namespace Ldap

/-- The identifier that is given out next. -/
structure MessageIds where
  next : Int32
  deriving DecidableEq, Repr

namespace MessageIds

/-- Begins at an identifier, or at 1 if that is less. -/
def startingAt (initial : Int32) : MessageIds :=
  ⟨if initial < 1 then 1 else initial⟩

/-- The identifier after another. -/
def successor (id : Int32) : Int32 :=
  if id = Int32.maxValue then 1 else id + 1

/-- Gives out an identifier. -/
def draw (ids : MessageIds) : Int32 × MessageIds :=
  (ids.next, ⟨successor ids.next⟩)

/-- Gives out the first identifier that is not taken, after at most `tries` ones that are, and then
the next one as it is. A search without such a bound finds the same where no more than `tries`
identifiers are taken and one is free. Where none is, it would never end; this one gives up, and the
identifier is refused as a duplicate when it is registered. -/
def drawFree (taken : Int32 → Bool) : Nat → MessageIds → Int32 × MessageIds
  | 0, ids => ids.draw
  | tries + 1, ids =>
    let (id, ids) := ids.draw
    if taken id then drawFree taken tries ids else (id, ids)

end MessageIds
end Ldap
