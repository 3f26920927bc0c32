import DeferredTyping.Ty.Primitive

/-!
# Types

A type is a shape together with a flag.  The flag marks the type of the
class object itself, whose members are the static ones; it may also sit on
the element type of an array.  `Ty.text` is how a type is written in every
report and error.
-/

namespace DeferredTyping

/-- What a type is, its class-object flag aside. -/
inductive Shape where
  /-- No value. -/
  | void
  /-- The shape of an expression that never completes. -/
  | unreachable
  | null
  | primitive (basic : Primitive)
  /-- A class or interface by its full name. -/
  | object (name : String)
  /-- An array; the flag is the one of its element type. -/
  | array (element : Shape) (elementIsMeta : Bool)
deriving DecidableEq, Repr, Inhabited

/-- The text of a shape; an element type that is a class object says so. -/
def Shape.text : Shape → String
  | .void => "void"
  | .unreachable => "unreachable"
  | .null => "null"
  | .primitive basic => basic.keyword
  | .object name => name
  | .array element elementIsMeta =>
      element.text ++ (if elementIsMeta then " meta" else "") ++ "[]"

/-- A type. -/
structure Ty where
  shape : Shape
  /-- The type of the class object, whose members are the static ones. -/
  isMeta : Bool := false
deriving DecidableEq, Repr, Inhabited

namespace Ty

def void : Ty := ⟨.void, false⟩

def unreachable : Ty := ⟨.unreachable, false⟩

def null : Ty := ⟨.null, false⟩

def primitive (basic : Primitive) : Ty := ⟨.primitive basic, false⟩

def int : Ty := .primitive .int

def boolean : Ty := .primitive .boolean

/-- The instance type of a class or interface. -/
def object (name : String) : Ty := ⟨.object name, false⟩

def array (element : Ty) : Ty := ⟨.array element.shape element.isMeta, false⟩

/-- The element type, when the type is an array. -/
def element? (ty : Ty) : Option Ty :=
  match ty.shape with
  | .array element elementIsMeta => some ⟨element, elementIsMeta⟩
  | _ => none

/-- The type of the class object. -/
def toMeta (ty : Ty) : Ty := { ty with isMeta := true }

/-- The instance type that belongs to a class object. -/
def unmeta (ty : Ty) : Ty := { ty with isMeta := false }

def isVoid (ty : Ty) : Bool := ty.shape == .void

def isUnreachable (ty : Ty) : Bool := ty.shape == .unreachable

/-- The primitive type, unless the type is a class object. -/
def primitive? (ty : Ty) : Option Primitive :=
  match ty.shape, ty.isMeta with
  | .primitive basic, false => some basic
  | _, _ => none

/-- Reference types are those that accept `null`. -/
def isReference (ty : Ty) : Bool :=
  match ty.shape, ty.isMeta with
  | .object _, false | .array _ _, false | .null, false => true
  | _, _ => false

/-- The full name of a class or interface, as instance type or class
object. -/
def className? (ty : Ty) : Option String :=
  match ty.shape with
  | .object name => some name
  | _ => none

/-- The type that a builtin keyword names. -/
def ofKeyword? (text : String) : Option Ty :=
  if text == "void" then some .void
  else (Primitive.ofKeyword? text).map .primitive

/-- The written form of a type. -/
def text (ty : Ty) : String :=
  ty.shape.text ++ if ty.isMeta then " meta" else ""

/-- Types written one after another. -/
def listText (types : List Ty) : String :=
  ", ".intercalate (types.map text)

@[simp] theorem toMeta_toMeta (ty : Ty) : ty.toMeta.toMeta = ty.toMeta := rfl

@[simp] theorem unmeta_toMeta (ty : Ty) : ty.toMeta.unmeta = ty.unmeta := rfl

@[simp] theorem element?_array (element : Ty) :
    (array element).element? = some element := rfl

end Ty

end DeferredTyping
