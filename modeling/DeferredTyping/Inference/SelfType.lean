import DeferredTyping.Inference.Error
import DeferredTyping.Tree.Walk

/-!
# Where a node stands

The type of `self`, the class a method is defined in and the scope whose
bindings a node uses are read off the tree alone.
-/

namespace DeferredTyping

/-- The class of a script's top-level code. -/
def scriptType (scriptClass name : String) : Ty :=
  .object (if name.isEmpty then scriptClass else name)

/-- The type of `self` along a lineage: the first class, interface or script
decides.  Below a static method it is the class object, and in a script it
always is. -/
def selfTypeFrom? (scriptClass : String) : (isStatic : Bool) → List Node → Option Ty
  | _, [] => none
  | isStatic, node :: outer =>
      let instanceOrClass (name : String) : Ty :=
        if isStatic then (Ty.object name).toMeta else .object name
      match node.kind with
      | .methodDefinition method =>
          selfTypeFrom? scriptClass (isStatic || method.isStatic) outer
      | .classDefinition name _ _ _ => some (instanceOrClass name)
      | .interfaceDeclaration name _ _ => some (instanceOrClass name)
      | .script name _ => some (scriptType scriptClass name).toMeta
      | _ => selfTypeFrom? scriptClass isStatic outer

namespace Arena

/-- The node of this id; a missing one is a breakage. -/
def require (arena : Arena) (id : NodeId) : Except Breakage Node :=
  (arena.node id).mapError .tree

/-- The type of `self` at a node. -/
def selfType (arena : Arena) (scriptClass : String) (id : NodeId) :
    Except Breakage Ty := do
  let _ ← arena.require id
  match selfTypeFrom? scriptClass false (arena.lineage id) with
  | some ty => return ty
  | none => throw (.outsideClass id)

/-- The class that a method definition stands in, whether it is static or
not. -/
def lexicalClass (arena : Arena) (scriptClass : String) (method : NodeId) :
    Except Breakage Ty :=
  match arena.parent? method with
  | some parent => arena.selfType scriptClass parent
  | none => .error (.methodWithoutParent method)

/-- The scope whose bindings a local, an assignment or a parameter uses. -/
def scopeOf (arena : Arena) (id : NodeId) : Except Breakage NodeId := do
  let node ← arena.require id
  unless node.kind.isScoped do
    throw (.bindsNoLocals id node.kind.label)
  match arena.enclosingScope? id with
  | some scope => return scope
  | none => throw (.noEnclosingScope id)

/-- A method is abstract when its nearest enclosing scope is an interface. -/
def isAbstract (arena : Arena) (method : NodeId) : Bool :=
  match (arena.parent? method).bind arena.enclosingScope? |>.bind arena.find? with
  | some scope =>
      match scope.kind with
      | .interfaceDeclaration .. => true
      | _ => false
  | none => false

/-- The parameters at a node, which has to be a list of parameters. -/
def argumentsOf (arena : Arena) (id : NodeId) :
    Except Breakage (ArgumentList NodeId) := do
  match (← arena.require id).kind with
  | .arguments list => return list
  | other => throw (.notArguments id other.label)

/-- The names of the parameters that take a type. -/
def argumentNames (arena : Arena) (arguments : ArgumentList NodeId) :
    Except Breakage (List String) :=
  arguments.typed.mapM fun id => do
    match (← arena.require id).kind.name? with
    | some name => return name
    | none => throw (.namelessArgument id)

/-- The method definition that a parameter belongs to; none for a parameter
of a block. -/
def owningMethod? (arena : Arena) (argument : NodeId) :
    Except Breakage (Option (NodeId × Method NodeId)) := do
  let node ← arena.require argument
  unless node.kind.isArgument do
    throw (.notAnArgument argument node.kind.label)
  match (arena.parent? argument).bind arena.parent? with
  | none => return none
  | some owner =>
      return (← arena.require owner).kind.method?.map fun method => (owner, method)

end Arena

end DeferredTyping
