import DeferredTyping.Method.Table
import DeferredTyping.Scopes
import DeferredTyping.Signature
import DeferredTyping.Tree.Edit

/-!
# What is known of a tree

The facts are what inference leaves behind for later stages: the tree
itself, with expansions spliced in, and everything learned about it.  A fact
is written once; inference only ever adds entries.
-/

namespace DeferredTyping

/-- A tree and what is known of it. -/
structure Facts where
  arena : Arena
  nodeTypes : Table NodeId Ty := {}
  /-- The types of a list of parameters: required, optional, rest. -/
  argumentTypes : Table NodeId (List Ty) := {}
  scopes : Scopes := {}
  signatures : SignatureTable := {}
  methods : MethodTable := {}
  /-- The class that a method definition stands in, bound on first use. -/
  definingClasses : Table NodeId Ty := {}
  /-- The constructor that a delegating constructor hands over to. -/
  delegateTargets : Table NodeId MethodType := {}
  /-- The node that took the place of an expanded call. -/
  expansions : Table NodeId NodeId := {}
deriving DecidableEq, Repr

/-- A delegation as later stages see it. -/
structure DelegationReport where
  call : Delegation
  /-- The types of those arguments that have one. -/
  argumentTypes : List Ty
  /-- The constructor that runs, when it could be identified. -/
  target : Option MethodType
deriving DecidableEq, Repr

namespace Facts

/-- The type of a node.  Block arguments never get one; a list of parameters
is `void`, and the types of its parameters are kept apart. -/
def nodeType? (facts : Facts) (id : NodeId) : Option Ty :=
  facts.nodeTypes.get? id

/-- Gives a node its type, once and for all. -/
def setNodeType (facts : Facts) (id : NodeId) (ty : Ty) : Facts :=
  { facts with nodeTypes := facts.nodeTypes.insertIfNew id ty }

/-- The types of a list of parameters. -/
def argumentTypes? (facts : Facts) (id : NodeId) : Option (List Ty) :=
  facts.argumentTypes.get? id

/-- Gives a list of parameters its types, once and for all. -/
def setArgumentTypes (facts : Facts) (id : NodeId) (types : List Ty) : Facts :=
  { facts with argumentTypes := facts.argumentTypes.insertIfNew id types }

/-- The parameter types of a method definition. -/
def methodArgumentTypes? (facts : Facts) (id : NodeId) : Option (List Ty) :=
  (facts.arena.method? id).bind fun method => facts.argumentTypes? method.arguments

/-- The signature of a method definition. -/
def signature? (facts : Facts) (id : NodeId) : Option Signature :=
  facts.signatures.get? id

/-- The class that a method definition belongs to, the class object for a
static one. -/
def definingClass? (facts : Facts) (id : NodeId) : Option Ty :=
  (facts.definingClasses.get? id).map fun lexical =>
    match facts.arena.method? id with
    | some method => if method.isStatic then lexical.toMeta else lexical
    | none => lexical

/-- The type of a local as seen from a scope. -/
def localType? (facts : Facts) (scope : NodeId) (name : String) : Option Ty :=
  facts.scopes.lookup? facts.arena scope name

/-- The node that took the place of a call. -/
def expansionOf? (facts : Facts) (call : NodeId) : Option NodeId :=
  facts.expansions.get? call

/-- The delegation that was split off a constructor. -/
def delegation? (facts : Facts) (id : NodeId) : Option DelegationReport := do
  let method ← facts.arena.method? id
  let call ← Delegation.ofMethod? method
  return {
    call
    argumentTypes := call.arguments.filterMap facts.nodeType?
    target := facts.delegateTargets.get? id }

/-- A node that ought to have a type and has none. -/
def isUntyped (facts : Facts) (node : Node) : Bool :=
  !node.kind.isBlockArgument && !facts.nodeTypes.contains node.id

/-- The nodes without a type that can be reached from the roots.  Block
arguments are structural and left out. -/
def untypedNodes (facts : Facts) : List Node :=
  facts.arena.roots.flatMap fun root => facts.arena.walk root.id facts.isUntyped

/-- The classes of all method definitions that have one, each once, in the
order of the definitions. -/
def definingClassList (facts : Facts) : List Ty :=
  (facts.arena.methods.filterMap fun entry => facts.definingClass? entry.1).eraseDups

/-- The learned methods of all classes that define methods in the tree. -/
def knownMethods (facts : Facts) : List MethodType :=
  facts.definingClassList.flatMap facts.methods.methodsOf

end Facts

end DeferredTyping
