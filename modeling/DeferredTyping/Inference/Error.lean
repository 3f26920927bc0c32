import DeferredTyping.Tree.Error
import DeferredTyping.Ty.Basic

/-!
# Why inference fails

A type error is the fault of the typed program; a breakage is a tree that no
front end builds.  Every cause has one written form.
-/

namespace DeferredTyping

/-- Where two types had to agree. -/
inductive MismatchContext where
  | methodReturn (methodName : String)
  | branches
  | defaultValue (argumentName : String)
deriving DecidableEq, Repr

def MismatchContext.text : MismatchContext → String
  | .methodReturn name => "in return type of method `" ++ name ++ "`"
  | .branches => "between branches of `if`"
  | .defaultValue name => "in default value of argument `" ++ name ++ "`"

/-- A node that still had no type when inference gave up. -/
structure UnresolvedNode where
  id : NodeId
  description : String
  location : Location
deriving DecidableEq, Repr

def UnresolvedNode.text (node : UnresolvedNode) : String :=
  node.description ++ " at " ++ node.location.text
    ++ " (id: " ++ toString node.id ++ ")"

/-- The ways in which a tree can be broken. -/
inductive Breakage where
  /-- An operation on the tree was refused. -/
  | tree (cause : TreeError)
  /-- A type was asked for a block argument. -/
  | blockArgument (id : NodeId)
  /-- A scope was asked for a node that binds no locals. -/
  | bindsNoLocals (id : NodeId) (kind : String)
  | noEnclosingScope (id : NodeId)
  | outsideClass (id : NodeId)
  | methodWithoutParent (id : NodeId)
  | callWithoutParent (id : NodeId)
  | notArguments (id : NodeId) (kind : String)
  | namelessArgument (id : NodeId)
  | notAnArgument (id : NodeId) (kind : String)
  /-- A method has another number of types than of parameters. -/
  | parameterCount (method : String) (types positional : Nat)
deriving DecidableEq, Repr

def Breakage.message : Breakage → String
  | .tree cause => cause.message
  | .blockArgument id =>
      "block argument " ++ toString id ++ " is structural and has no type"
  | .bindsNoLocals id kind => kind ++ " " ++ toString id ++ " does not bind locals"
  | .noEnclosingScope id => "node " ++ toString id ++ " has no enclosing scope"
  | .outsideClass id => "node " ++ toString id ++ " is not inside a script or class"
  | .methodWithoutParent id => "method " ++ toString id ++ " has no parent"
  | .callWithoutParent id =>
      "call " ++ toString id ++ " has no parent to expand into"
  | .notArguments id kind =>
      "expected Arguments at node " ++ toString id ++ ", found " ++ kind
  | .namelessArgument id => "argument " ++ toString id ++ " has no name"
  | .notAnArgument id kind =>
      "node " ++ toString id ++ " is a " ++ kind ++ ", not an argument"
  | .parameterCount method types positional =>
      "method `" ++ method ++ "` has " ++ toString types
        ++ " parameter types for " ++ toString positional
        ++ " positional arguments"

/-- The causes for which inference fails. -/
inductive TypeError where
  | mismatch (expected found : Ty) (context : MismatchContext)
      (location : Location)
  | unknownType (name : String) (location : Location)
  | conflictingLocal (name : String) (existing found : Ty) (location : Location)
  | conflictingMethod (definingClass : Ty) (name : String) (existing found : Ty)
      (location : Location)
  | ambiguousMethod (definingClass : Ty) (name : String) (arguments : List Ty)
      (location : Location)
  /-- A last pass made no progress; every node still pending is listed. -/
  | cannotInfer (unresolved : List UnresolvedNode)
  | passLimitExceeded (limit : Nat)
  | broken (cause : Breakage)
deriving DecidableEq, Repr

namespace TypeError

/-- The place that an error points at. -/
def location? : TypeError → Option Location
  | .mismatch _ _ _ location
  | .unknownType _ location
  | .conflictingLocal _ _ _ location
  | .conflictingMethod _ _ _ _ location
  | .ambiguousMethod _ _ _ location => some location
  | .cannotInfer unresolved => unresolved.head?.map UnresolvedNode.location
  | .passLimitExceeded _ | .broken _ => none

/-- The text of an error. -/
def message : TypeError → String
  | .mismatch expected found context location =>
      location.text ++ ": type mismatch " ++ context.text ++ ": expected `"
        ++ expected.text ++ "`, found `" ++ found.text ++ "`"
  | .unknownType name location =>
      location.text ++ ": unknown type `" ++ name ++ "`"
  | .conflictingLocal name existing found location =>
      location.text ++ ": local `" ++ name ++ "` already has type `"
        ++ existing.text ++ "`, cannot bind `" ++ found.text ++ "`"
  | .conflictingMethod definingClass name existing found location =>
      location.text ++ ": method `" ++ definingClass.text ++ "." ++ name
        ++ "` already returns `" ++ existing.text ++ "`, cannot also return `"
        ++ found.text ++ "`"
  | .ambiguousMethod definingClass name arguments location =>
      location.text ++ ": ambiguous call to `" ++ definingClass.text ++ "." ++ name
        ++ "` with arguments (" ++ Ty.listText arguments ++ ")"
  | .cannotInfer unresolved =>
      "could not infer types for "
        ++ ", ".intercalate (unresolved.map UnresolvedNode.text)
  | .passLimitExceeded limit =>
      "inference did not reach a fixpoint within " ++ toString limit ++ " passes"
  | .broken cause => "internal typer error: " ++ cause.message

end TypeError

end DeferredTyping
