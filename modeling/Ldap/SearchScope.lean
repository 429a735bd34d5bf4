/-!
# Search scopes

How far below its base a search reaches. Any number can travel; four of them have a meaning.
-/

namespace Ldap

/-- How far below its base a search reaches. -/
structure SearchScope where
  value : Int32
  deriving DecidableEq, Repr

namespace SearchScope

/-- The base entry alone. -/
def base : SearchScope := ⟨0⟩

/-- The entries right below the base. -/
def one : SearchScope := ⟨1⟩

/-- The base and all entries below it. -/
def sub : SearchScope := ⟨2⟩

/-- All entries below the base. -/
def subordinates : SearchScope := ⟨3⟩

/-- The name of a scope with a meaning. -/
def name? (s : SearchScope) : Option String :=
  if s = base then some "base"
  else if s = one then some "one"
  else if s = sub then some "sub"
  else if s = subordinates then some "subordinates"
  else none

/-- The name of a scope, or `SCOPE` and its number. -/
def text (s : SearchScope) : String :=
  s.name?.getD ("SCOPE" ++ toString s.value.toInt)

end SearchScope
end Ldap
