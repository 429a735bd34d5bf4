/-!
# Kinds of operation

What a request asks for, apart from its fields. Two kinds never get a response.
-/

namespace Ldap

/-- What a request asks for. -/
inductive OperationKind where
  | abandon
  | add
  | bind
  | compare
  | delete
  | extended
  | modify
  | modifyDn
  | search
  | unbind
  deriving DecidableEq, Repr

namespace OperationKind

/-- Every kind, in the order of their names. -/
def all : List OperationKind :=
  [.abandon, .add, .bind, .compare, .delete, .extended, .modify, .modifyDn, .search, .unbind]

/-- The name of a kind. -/
def name : OperationKind → String
  | .abandon => "ABANDON"
  | .add => "ADD"
  | .bind => "BIND"
  | .compare => "COMPARE"
  | .delete => "DELETE"
  | .extended => "EXTENDED"
  | .modify => "MODIFY"
  | .modifyDn => "MODIFY_DN"
  | .search => "SEARCH"
  | .unbind => "UNBIND"

/-- Whether a server answers requests of a kind. -/
def expectsResponse : OperationKind → Bool
  | .abandon | .unbind => false
  | _ => true

end OperationKind
end Ldap
