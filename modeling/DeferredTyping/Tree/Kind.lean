/-!
# Kinds of nodes

What a node of the tree is, over a type `α` of child references.  A finished
tree holds node ids in its slots; a tree still to be built holds its
subtrees there.  `Kind.children` lists the child slots in source order and
`Kind.mapChildrenM` visits the same slots in the same order.
-/

namespace DeferredTyping

/-- The number of a node.  Zero is never handed out. -/
abbrev NodeId := Nat

/-- A place in a source text. -/
structure Location where
  offset : Nat := 0
  line : Nat := 0
  column : Nat := 0
  source : String := ""
deriving DecidableEq, Repr, Inhabited

/-- The written form of a place, `line:column`. -/
def Location.text (location : Location) : String :=
  toString location.line ++ ":" ++ toString location.column

/-- A finite decimal number, `mantissa / 10 ^ scale`. -/
structure Decimal where
  mantissa : Int
  scale : Nat
deriving DecidableEq, Repr, Inhabited

/-- How a method is reached: on an instance, on the class, or by making a
new instance. -/
inductive MethodKind where
  | member
  | static
  | constructor
deriving DecidableEq, Repr, Inhabited

/-- The name of a kind of method in reports. -/
def MethodKind.label : MethodKind → String
  | .member => "Instance"
  | .static => "Static"
  | .constructor => "Constructor"

/-- The type names written for a method.  Nothing here is resolved. -/
structure DeclaredSignature where
  parameters : List (String × String) := []
  returns : Option String := none
  throws : List String := []
deriving DecidableEq, Repr, Inhabited

namespace DeclaredSignature

/-- Adds a parameter name with its type name. -/
def withParameter (signature : DeclaredSignature) (name typeName : String) :
    DeclaredSignature :=
  { signature with parameters := signature.parameters ++ [(name, typeName)] }

/-- Sets the name of the return type. -/
def withReturn (signature : DeclaredSignature) (typeName : String) :
    DeclaredSignature :=
  { signature with returns := some typeName }

/-- Adds the name of a thrown type. -/
def withThrow (signature : DeclaredSignature) (typeName : String) :
    DeclaredSignature :=
  { signature with throws := signature.throws ++ [typeName] }

/-- The type name of the first parameter of this name. -/
def parameter? (signature : DeclaredSignature) (name : String) : Option String :=
  (signature.parameters.find? fun parameter => parameter.1 == name).map Prod.snd

end DeclaredSignature

/-- A method definition. -/
structure Method (α : Type) where
  name : String
  kind : MethodKind := .member
  declared : DeclaredSignature := {}
  arguments : α
  body : Option α := none
  /-- Arguments of a leading `initialize(...)` call split off the body. -/
  thisArgs : Option (List α) := none
  /-- Arguments of a leading `super(...)` call split off the body. -/
  superArgs : Option (List α) := none
deriving DecidableEq, Repr

/-- The parameters of a method or block. -/
structure ArgumentList (α : Type) where
  required : List α := []
  optional : List α := []
  rest : Option α := none
  block : Option α := none
deriving DecidableEq, Repr, Inhabited

/-- The parameters that take a type: required, then optional, then rest. -/
def ArgumentList.typed {α : Type} (arguments : ArgumentList α) : List α :=
  arguments.required ++ arguments.optional ++ arguments.rest.toList

/-- What a node is. -/
inductive Kind (α : Type) where
  | script (name : String) (body : Option α)
  | classDefinition (name : String) (superclass : Option String)
      (interfaces : List String) (body : Option α)
  | interfaceDeclaration (name : String) (interfaces : List String)
      (body : Option α)
  | methodDefinition (method : Method α)
  | arguments (arguments : ArgumentList α)
  | requiredArgument (name : String)
  | optionalArgument (name : String) (value : α)
  | restArgument (name : String)
  | blockArgument (name : String)
  | block (arguments : α) (body : Option α)
  | body (statements : List α)
  | noop
  | fixnum (value : Int)
  | float (value : Decimal)
  | str (value : String)
  | boolean (value : Bool)
  | null
  | selfRef
  | localRead (name : String)
  | localAssignment (name : String) (value : α)
  /-- An unqualified call on `self`. -/
  | functionalCall (name : String) (parameters : List α) (block : Option α)
  /-- A call on an explicit target. -/
  | call (target : α) (name : String) (parameters : List α) (block : Option α)
  | superCall (parameters : List α)
  | constant (name : String)
  | ifElse (condition : α) (thenBody elseBody : Option α)
  | returning (value : Option α)
  | raise (exception : α)
deriving DecidableEq, Repr

namespace Kind

variable {α : Type}

/-- The name of a kind in reports. -/
def label : Kind α → String
  | .script .. => "Script"
  | .classDefinition .. => "ClassDefinition"
  | .interfaceDeclaration .. => "InterfaceDeclaration"
  | .methodDefinition .. => "MethodDefinition"
  | .arguments .. => "Arguments"
  | .requiredArgument .. => "RequiredArgument"
  | .optionalArgument .. => "OptionalArgument"
  | .restArgument .. => "RestArgument"
  | .blockArgument .. => "BlockArgument"
  | .block .. => "Block"
  | .body .. => "Body"
  | .noop => "Noop"
  | .fixnum .. => "Fixnum"
  | .float .. => "Float"
  | .str .. => "Str"
  | .boolean .. => "Boolean"
  | .null => "Null"
  | .selfRef => "SelfRef"
  | .localRead .. => "Local"
  | .localAssignment .. => "LocalAssignment"
  | .functionalCall .. => "FunctionalCall"
  | .call .. => "Call"
  | .superCall .. => "Super"
  | .constant .. => "Constant"
  | .ifElse .. => "If"
  | .returning .. => "Return"
  | .raise .. => "Raise"

/-- The name a node carries, if its kind has one. -/
def name? : Kind α → Option String
  | .script name _
  | .classDefinition name _ _ _
  | .interfaceDeclaration name _ _
  | .requiredArgument name
  | .optionalArgument name _
  | .restArgument name
  | .blockArgument name
  | .localRead name
  | .localAssignment name _
  | .functionalCall name _ _
  | .call _ name _ _
  | .constant name => some name
  | .methodDefinition method => some method.name
  | _ => none

/-- The method definition a node is. -/
def method? : Kind α → Option (Method α)
  | .methodDefinition method => some method
  | _ => none

/-- The node opens a fresh set of local bindings. -/
def isScope : Kind α → Bool
  | .script .. | .classDefinition .. | .interfaceDeclaration ..
  | .methodDefinition .. | .block .. => true
  | _ => false

/-- A scope that does not see the locals around it.  Only blocks capture. -/
def isolatesLocals : Kind α → Bool
  | .script .. | .classDefinition .. | .interfaceDeclaration ..
  | .methodDefinition .. => true
  | _ => false

/-- The node reads or writes a binding of its enclosing scope. -/
def isScoped : Kind α → Bool
  | .requiredArgument .. | .optionalArgument .. | .restArgument ..
  | .localRead .. | .localAssignment .. => true
  | _ => false

/-- The node is a parameter of a method or block. -/
def isArgument : Kind α → Bool
  | .requiredArgument .. | .optionalArgument .. | .restArgument ..
  | .blockArgument .. => true
  | _ => false

/-- Block arguments are structural: they never take a type. -/
def isBlockArgument : Kind α → Bool
  | .blockArgument .. => true
  | _ => false

/-- The child slots in source order.  The arguments of a delegation that was
split off a constructor are not among them. -/
def children : Kind α → List α
  | .script _ content
  | .classDefinition _ _ _ content
  | .interfaceDeclaration _ _ content => content.toList
  | .methodDefinition method => method.arguments :: method.body.toList
  | .arguments list =>
      list.required ++ list.optional ++ list.rest.toList ++ list.block.toList
  | .optionalArgument _ value => [value]
  | .block parameters content => parameters :: content.toList
  | .body statements => statements
  | .localAssignment _ value => [value]
  | .functionalCall _ parameters closure => parameters ++ closure.toList
  | .call target _ parameters closure =>
      target :: (parameters ++ closure.toList)
  | .superCall parameters => parameters
  | .ifElse condition thenBody elseBody =>
      condition :: (thenBody.toList ++ elseBody.toList)
  | .returning value => value.toList
  | .raise exception => [exception]
  | .requiredArgument _ | .restArgument _ | .blockArgument _ | .noop
  | .fixnum _ | .float _ | .str _ | .boolean _ | .null | .selfRef
  | .localRead _ | .constant _ => []

/-- Visits the child slots in source order and refills each with the result
of its visit. -/
def mapChildrenM {m : Type → Type} [Monad m] (visit : α → m α) :
    Kind α → m (Kind α)
  | .script name content => do
      return .script name (← content.mapM visit)
  | .classDefinition name superclass interfaces content => do
      return .classDefinition name superclass interfaces (← content.mapM visit)
  | .interfaceDeclaration name interfaces content => do
      return .interfaceDeclaration name interfaces (← content.mapM visit)
  | .methodDefinition method => do
      let arguments ← visit method.arguments
      let body ← method.body.mapM visit
      return .methodDefinition { method with arguments, body }
  | .arguments list => do
      let required ← list.required.mapM visit
      let optional ← list.optional.mapM visit
      let rest ← list.rest.mapM visit
      let block ← list.block.mapM visit
      return .arguments { required, optional, rest, block }
  | .optionalArgument name value => do
      return .optionalArgument name (← visit value)
  | .block parameters content => do
      let parameters ← visit parameters
      return .block parameters (← content.mapM visit)
  | .body statements => do
      return .body (← statements.mapM visit)
  | .localAssignment name value => do
      return .localAssignment name (← visit value)
  | .functionalCall name parameters closure => do
      let parameters ← parameters.mapM visit
      return .functionalCall name parameters (← closure.mapM visit)
  | .call target name parameters closure => do
      let target ← visit target
      let parameters ← parameters.mapM visit
      return .call target name parameters (← closure.mapM visit)
  | .superCall parameters => do
      return .superCall (← parameters.mapM visit)
  | .ifElse condition thenBody elseBody => do
      let condition ← visit condition
      let thenBody ← thenBody.mapM visit
      return .ifElse condition thenBody (← elseBody.mapM visit)
  | .returning value => do
      return .returning (← value.mapM visit)
  | .raise exception => do
      return .raise (← visit exception)
  | .requiredArgument name => pure (.requiredArgument name)
  | .restArgument name => pure (.restArgument name)
  | .blockArgument name => pure (.blockArgument name)
  | .noop => pure .noop
  | .fixnum value => pure (.fixnum value)
  | .float value => pure (.float value)
  | .str value => pure (.str value)
  | .boolean value => pure (.boolean value)
  | .null => pure .null
  | .selfRef => pure .selfRef
  | .localRead name => pure (.localRead name)
  | .constant name => pure (.constant name)

/-- A short description for diagnostics: what the node is and its name. -/
def describe (kind : Kind α) : String :=
  match subject kind with
  | some (noun, name) => noun ++ " `" ++ name ++ "`"
  | none => kind.label
where
  /-- The noun and the name that a description is made of. -/
  subject : Kind α → Option (String × String)
    | .methodDefinition method =>
        match method.kind with
        | .constructor => some ("constructor", method.name)
        | .static => some ("static method", method.name)
        | .member => some ("method", method.name)
    | .requiredArgument name => some ("argument", name)
    | .optionalArgument name _ => some ("optional argument", name)
    | .restArgument name => some ("rest argument", name)
    | .blockArgument name => some ("block argument", name)
    | .localRead name => some ("local", name)
    | .localAssignment name _ => some ("assignment to", name)
    | .functionalCall name _ _ => some ("call to", name)
    | .call _ name _ _ => some ("call to", name)
    | .constant name => some ("constant", name)
    | .classDefinition name _ _ _ => some ("class", name)
    | .interfaceDeclaration name _ _ => some ("interface", name)
    | .script name _ => some ("script", name)
    | _ => none

end Kind

namespace Method

variable {α : Type}

def isStatic (method : Method α) : Bool := method.kind == .static

def isConstructor (method : Method α) : Bool := method.kind == .constructor

end Method

end DeferredTyping
