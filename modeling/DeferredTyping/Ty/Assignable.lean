import DeferredTyping.Ty.Basic

/-!
# Using one type where another is expected

A relation of assignability says of two types whether a value of the second
may be used where the first is expected.  What follows from such a relation
alone is here: which argument lists a parameter list accepts, and the type
of a choice between two branches.
-/

namespace DeferredTyping

/-- A relation of assignability: the expected type first, then the given
one. -/
abbrev Assignable := Ty → Ty → Bool

namespace Assignable

/-- The parameters accept the arguments one for one. -/
def accepts (isParent : Assignable) : List Ty → List Ty → Bool
  | [], [] => true
  | parameter :: parameters, argument :: arguments =>
      isParent parameter argument && accepts isParent parameters arguments
  | _, _ => false

/-- The type of a choice between two branches: the one of the two types that
accepts the other.  A branch that never completes leaves the choice to the
other one. -/
def join? (isParent : Assignable) (thenType elseType : Ty) : Option Ty :=
  if thenType.isUnreachable || isParent elseType thenType then some elseType
  else if elseType.isUnreachable || isParent thenType elseType then some thenType
  else none

end Assignable

end DeferredTyping
