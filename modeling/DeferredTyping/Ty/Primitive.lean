/-!
# Primitive types

The eight primitive types of the Java virtual machine, their keywords, and
which of them may stand in for which.
-/

namespace DeferredTyping

/-- A primitive type. -/
inductive Primitive where
  | boolean
  | byte
  | char
  | short
  | int
  | long
  | float
  | double
deriving DecidableEq, Repr, Inhabited

namespace Primitive

/-- Every primitive type, in the order in which reports list them. -/
def all : List Primitive :=
  [.boolean, .byte, .char, .short, .int, .long, .float, .double]

/-- The keyword of a primitive type. -/
def keyword : Primitive → String
  | .boolean => "boolean"
  | .byte => "byte"
  | .char => "char"
  | .short => "short"
  | .int => "int"
  | .long => "long"
  | .float => "float"
  | .double => "double"

/-- The primitive type with this keyword.  Keywords are case sensitive. -/
def ofKeyword? (text : String) : Option Primitive :=
  all.find? fun candidate => candidate.keyword == text

/-- All primitive types but `boolean` are numbers. -/
def isNumeric (primitive : Primitive) : Bool :=
  primitive != .boolean

/-- The place of a signed number type in the order of widening.  `char` has
no place: it is unsigned and only ever a source of widening. -/
def rank? : Primitive → Option Nat
  | .byte => some 0
  | .short => some 1
  | .int => some 2
  | .long => some 3
  | .float => some 4
  | .double => some 5
  | .boolean | .char => none

/-- A value of the first type may be used where the second is expected. -/
def widensTo (source target : Primitive) : Bool :=
  source == target ||
    match source, source.rank?, target.rank? with
    | .char, _, some limit => 2 ≤ limit
    | _, some low, some high => low < high
    | _, _, _ => false

/-- The type of a binary arithmetic operation: the widest of `double`,
`float` and `long` among the operands, and `int` when neither is one of
these. -/
def promote (left right : Primitive) : Primitive :=
  ([.double, .float, .long].find? fun wide => left == wide || right == wide).getD .int

end Primitive

end DeferredTyping
