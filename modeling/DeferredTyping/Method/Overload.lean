import DeferredTyping.Method.Table
import DeferredTyping.Ty.Assignable

/-!
# Choosing among overloads

An overload with exactly the given argument types wins.  Else the overloads
that accept the arguments one for one compete, and only when there is none,
those that take the arguments spread into their rest array; of the latter
only those with the most parameters.  Among competitors the one that all
others accept wins.
-/

namespace DeferredTyping

/-- The answer to a call on a list of overloads. -/
inductive Selection where
  /-- No overload takes the arguments. -/
  | absent
  | found (method : MethodType)
  /-- Several overloads take the arguments and none is most specific. -/
  | ambiguous
deriving DecidableEq, Repr

namespace MethodType

/-- The method takes the arguments one for one. -/
def accepts (isParent : Assignable) (arguments : List Ty) (method : MethodType) :
    Bool :=
  isParent.accepts method.parameters arguments

/-- The method takes the arguments as its leading parameters, followed by any
number of elements of its rest array. -/
def acceptsSpread (isParent : Assignable) (arguments : List Ty)
    (method : MethodType) : Bool :=
  match method.varargs, method.parameters.getLast?.bind Ty.element? with
  | true, some element =>
      let leading := method.parameters.dropLast
      leading.length ≤ arguments.length
        && isParent.accepts leading (arguments.take leading.length)
        && (arguments.drop leading.length).all (isParent element)
  | _, _ => false

end MethodType

namespace Overloads

/-- The methods with the most parameters. -/
def longest (methods : List MethodType) : List MethodType :=
  methods.filter fun method =>
    methods.all fun other => other.parameters.length ≤ method.parameters.length

/-- The overloads that compete for a call. -/
def applicable (isParent : Assignable) (overloads : List MethodType)
    (arguments : List Ty) : List MethodType :=
  match overloads.filter (MethodType.accepts isParent arguments) with
  | [] => longest (overloads.filter (MethodType.acceptsSpread isParent arguments))
  | fixed => fixed

/-- Every competitor accepts the parameters of this one. -/
def isMostSpecific (isParent : Assignable) (competitors : List MethodType)
    (method : MethodType) : Bool :=
  competitors.all fun other => isParent.accepts other.parameters method.parameters

/-- Chooses among competitors.  A single one needs no comparison. -/
def mostSpecific (isParent : Assignable) : List MethodType → Selection
  | [] => .absent
  | [only] => .found only
  | competitors =>
      match competitors.find? (isMostSpecific isParent competitors) with
      | some method => .found method
      | none => .ambiguous

/-- The overload that a call with these arguments means. -/
def select (isParent : Assignable) (overloads : List MethodType)
    (arguments : List Ty) : Selection :=
  match overloads.find? fun method => method.parameters == arguments with
  | some exact => .found exact
  | none => mostSpecific isParent (applicable isParent overloads arguments)

end Overloads

end DeferredTyping
