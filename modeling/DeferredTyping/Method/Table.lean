import DeferredTyping.Ty.Basic

/-!
# Learned methods

The method table holds what call sites can see: one entry for each class,
name and parameter list, in the order in which they were learned.  An entry
can be confirmed but never changed.
-/

namespace DeferredTyping

/-- A method as its callers see it. -/
structure MethodType where
  definingClass : Ty
  name : String
  parameters : List Ty
  returnType : Ty
  throws : List Ty := []
  /-- The last parameter is an array that takes any number of further
  arguments. -/
  varargs : Bool := false
deriving DecidableEq, Repr

/-- The learned methods, oldest first. -/
structure MethodTable where
  entries : List MethodType := []
deriving DecidableEq, Repr, Inhabited

namespace MethodTable

/-- The learned methods of one class and name, oldest first. -/
def overloads (table : MethodTable) (definingClass : Ty) (name : String) :
    List MethodType :=
  table.entries.filter fun method =>
    method.definingClass == definingClass && method.name == name

/-- The learned method with exactly these parameters. -/
def findExact? (table : MethodTable) (definingClass : Ty) (name : String)
    (parameters : List Ty) : Option MethodType :=
  (table.overloads definingClass name).find? fun method =>
    method.parameters == parameters

/-- Records a method.  Learning the same fact twice changes nothing; the
error is the entry that holds another return type for the same class, name
and parameters. -/
def learn (table : MethodTable) (method : MethodType) :
    Except MethodType MethodTable :=
  match table.findExact? method.definingClass method.name method.parameters with
  | some known =>
      if known.returnType = method.returnType then .ok table else .error known
  | none => .ok ⟨table.entries ++ [method]⟩

/-- Methods are learned at the end of the table. -/
theorem entries_prefix_of_learn {table learned : MethodTable}
    {method : MethodType} (success : table.learn method = .ok learned) :
    table.entries <+: learned.entries := by
  unfold learn at success
  split at success
  · split at success
    · cases success
      exact List.prefix_rfl
    · cases success
  · cases success
    exact List.prefix_append _ _

/-- The methods learned for a class in order of their names, those of one
name oldest first. -/
def methodsOf (table : MethodTable) (definingClass : Ty) : List MethodType :=
  (table.entries.filter fun method => method.definingClass == definingClass).mergeSort
    fun left right => decide (left.name ≤ right.name)

/-- The number of learned methods. -/
def size (table : MethodTable) : Nat := table.entries.length

def isEmpty (table : MethodTable) : Bool := table.entries.isEmpty

end MethodTable

end DeferredTyping
