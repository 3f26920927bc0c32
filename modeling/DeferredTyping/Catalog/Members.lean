import DeferredTyping.Catalog.Hierarchy

/-!
# Methods the catalogue knows by itself

Library methods come first, then the operators of primitive types and the
few methods that every reference has.
-/

namespace DeferredTyping.Catalog

/-- The result type of a binary operator on primitive operands. -/
def operatorType? (target : Primitive) (name : String) (argument : Primitive) :
    Option Ty :=
  if ["+", "-", "*", "/", "%"].contains name then
    if target.isNumeric && argument.isNumeric then
      some (.primitive (target.promote argument))
    else none
  else if ["<", ">", "<=", ">="].contains name then
    if target.isNumeric && argument.isNumeric then some .boolean else none
  else if ["==", "!="].contains name then
    if target.isNumeric == argument.isNumeric then some .boolean else none
  else if ["&", "|", "^"].contains name then
    if target == .boolean && argument == .boolean then some .boolean else none
  else none

/-- The result type of a method that every reference has.  Strings can also
be joined with anything that is a value. -/
def referenceMethodType? (target : Ty) (name : String) :
    List Ty → Option Ty
  | [] =>
      if name == "toString" then some (.object stringName)
      else if name == "hashCode" then some .int
      else none
  | [argument] =>
      if name == "+" then
        if target.className? == some stringName && !argument.isVoid then
          some (.object stringName)
        else none
      else if ["equals", "==", "!="].contains name then
        if argument.isReference then some .boolean else none
      else none
  | _ => none

/-- The result type of a library method: the first one added for this owner
and name that accepts the arguments. -/
def libraryMethodType? (catalog : Catalog) (target : Ty) (name : String)
    (arguments : List Ty) : Option Ty :=
  (catalog.library.find? fun method =>
    method.owner == target && method.name == name
      && Assignable.accepts catalog.isParent method.parameters arguments).map
    LibraryMethod.returnType

/-- The result type of a call on a type, as far as the catalogue knows.  No
superclass is searched. -/
def methodType? (catalog : Catalog) (target : Ty) (name : String)
    (arguments : List Ty) : Option Ty :=
  match catalog.libraryMethodType? target name arguments with
  | some returnType => some returnType
  | none =>
      match target.primitive? with
      | some primitive =>
          match arguments with
          | [argument] => argument.primitive?.bind (operatorType? primitive name)
          | _ => none
      | none =>
          if target.isReference then referenceMethodType? target name arguments
          else none

end DeferredTyping.Catalog
