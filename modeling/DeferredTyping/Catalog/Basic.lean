import DeferredTyping.Table
import DeferredTyping.Ty.Assignable

/-!
# The catalogue of classes

The catalogue knows every class and interface by its full name, a few of
them by a short name too, and the methods of library classes.  Names of
superclasses and interfaces are kept as they were written; what they mean is
decided when they are asked for, so a class may be declared after its
subclasses.
-/

namespace DeferredTyping

/-- The root of the class hierarchy. -/
def objectName : String := "java.lang.Object"

/-- The class of string values. -/
def stringName : String := "java.lang.String"

/-- What the catalogue keeps of a class or interface. -/
structure ClassEntry where
  superclass : Option String
  interfaces : List String
  isInterface : Bool
deriving DecidableEq, Repr

/-- The names a class or interface gives as its parents. -/
def ClassEntry.parents (entry : ClassEntry) : List String :=
  entry.superclass.toList ++ entry.interfaces

/-- The declaration of a class or interface. -/
structure TypeDeclaration where
  name : String
  superclass : Option String := none
  interfaces : List String := []
  isInterface : Bool := false
deriving DecidableEq, Repr

/-- A method of a library class.  Static methods belong to the type of the
class object. -/
structure LibraryMethod where
  owner : Ty
  name : String
  parameters : List Ty
  returnType : Ty
deriving DecidableEq, Repr

/-- Classes by full name, and library methods in the order in which they
were added. -/
structure Catalog where
  classes : Table String ClassEntry := {}
  library : List LibraryMethod := []
deriving DecidableEq, Repr, Inhabited

namespace Catalog

/-- The classes that every catalogue starts with. -/
def builtinClasses : List (String × ClassEntry) := [
  (objectName, ⟨none, [], false⟩),
  ("java.lang.CharSequence", ⟨none, [], true⟩),
  (stringName, ⟨some objectName, ["java.lang.CharSequence"], false⟩),
  ("java.lang.Throwable", ⟨some objectName, [], false⟩),
  ("java.lang.Exception", ⟨some "java.lang.Throwable", [], false⟩),
  ("java.lang.RuntimeException", ⟨some "java.lang.Exception", [], false⟩)]

/-- The short names of the builtin classes. -/
def shortNames : List (String × String) := [
  ("Object", objectName),
  ("CharSequence", "java.lang.CharSequence"),
  ("String", stringName),
  ("Throwable", "java.lang.Throwable"),
  ("Exception", "java.lang.Exception"),
  ("RuntimeException", "java.lang.RuntimeException")]

/-- The catalogue of the builtin classes. -/
def builtin : Catalog where
  classes := builtinClasses.foldl (fun table (name, entry) => table.insert name entry) {}

/-- Makes a class or interface known, in place of an earlier one of the same
name.  A class without a superclass extends the root class. -/
def define (catalog : Catalog) (declaration : TypeDeclaration) : Catalog :=
  let superclass :=
    match declaration.superclass with
    | some superclass => some superclass
    | none => if declaration.isInterface then none else some objectName
  { catalog with
    classes := catalog.classes.insert declaration.name
      { superclass, interfaces := declaration.interfaces
        isInterface := declaration.isInterface } }

/-- Adds a library class. -/
def withClass (catalog : Catalog) (name : String) (superclass : Option String) :
    Catalog :=
  catalog.define { name, superclass }

/-- Adds a library method. -/
def withMethod (catalog : Catalog) (method : LibraryMethod) : Catalog :=
  { catalog with library := catalog.library ++ [method] }

/-- The full name that a name stands for: a known class is its own full
name, and else a short name may stand for a builtin class. -/
def canonical? (catalog : Catalog) (name : String) : Option String :=
  if catalog.classes.contains name then some name
  else (shortNames.find? fun short => short.1 == name).map Prod.snd

/-- The full name that a name stands for, or the name itself. -/
def canonical (catalog : Catalog) (name : String) : String :=
  (catalog.canonical? name).getD name

/-- What is known of the class that a name stands for. -/
def entry? (catalog : Catalog) (name : String) : Option ClassEntry :=
  (catalog.canonical? name).bind catalog.classes.get?

/-- Takes array brackets off the end of a name that is given backwards, and
counts them. -/
def stripBrackets : List Char → Nat × List Char
  | ']' :: '[' :: rest =>
      let (depth, name) := stripBrackets rest
      (depth + 1, name)
  | name => (0, name)

/-- An array of arrays, as deep as asked for. -/
def arrayOf : Nat → Ty → Ty
  | 0, ty => ty
  | depth + 1, ty => .array (arrayOf depth ty)

/-- The type of a name without array brackets: a builtin keyword first, then
a class. -/
def resolveElement (catalog : Catalog) (name : String) : Option Ty :=
  match Ty.ofKeyword? name with
  | some ty => some ty
  | none => (catalog.canonical? name).map .object

/-- What a name without array brackets can stand for: a keyword for a type
without a class, any other name for the class that carries the full name. -/
inductive StandsFor (catalog : Catalog) (name : String) : Ty → Prop where
  | void : StandsFor catalog name .void
  | primitive (basic : Primitive) : StandsFor catalog name (.primitive basic)
  | object {full : String} :
      catalog.canonical? name = some full → StandsFor catalog name (.object full)

theorem standsFor_of_resolveElement
    {catalog : Catalog} {name : String} {ty : Ty}
    (found : catalog.resolveElement name = some ty) : catalog.StandsFor name ty := by
  unfold resolveElement at found
  split at found
  · rename_i keyword
    cases found
    unfold Ty.ofKeyword? at keyword
    split at keyword
    · cases keyword
      exact .void
    · obtain ⟨basic, _, rfl⟩ := Option.map_eq_some_iff.mp keyword
      exact .primitive basic
  · obtain ⟨full, stands, rfl⟩ := Option.map_eq_some_iff.mp found
    exact .object stands

/-- The type that a written name stands for.  Brackets at the end make an
array type. -/
def resolve (catalog : Catalog) (name : String) : Option Ty :=
  let (depth, element) := stripBrackets name.toList.reverse
  (catalog.resolveElement (String.ofList element.reverse)).map (arrayOf depth)

end Catalog

end DeferredTyping
