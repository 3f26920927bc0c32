import DeferredTyping.Tree.Arena

/-!
# Edits of a built tree

Two edits are made after a tree was built: one child slot takes another
node, and the delegation call at the head of a constructor is split off its
body.  An edit that is refused leaves the arena as it was.
-/

namespace DeferredTyping

/-- One visit of a search for the first slot that holds `old`: that slot
takes `new`, the ones before and after keep what they hold.  The state says
whether the slot was met. -/
def swapFirst (old new : NodeId) (slot : NodeId) : StateM Bool NodeId := do
  if !(← get) && slot == old then
    set true
    return new
  else
    return slot

/-- Puts `new` into the first child slot that holds `old`. -/
def Kind.replaceFirst? (kind : Kind NodeId) (old new : NodeId) :
    Option (Kind NodeId) :=
  match (kind.mapChildrenM (swapFirst old new)).run false with
  | (replaced, true) => some replaced
  | (_, false) => none

/-- The call by which a constructor hands over to another one before its body
runs. -/
inductive Delegation where
  /-- `initialize(...)`: another constructor of the same class. -/
  | this (arguments : List NodeId)
  /-- `super(...)`: a constructor of the superclass. -/
  | super (arguments : List NodeId)
deriving DecidableEq, Repr

namespace Delegation

/-- The arguments of the call. -/
def arguments : Delegation → List NodeId
  | .this arguments | .super arguments => arguments

/-- Reads a statement as a delegation call. -/
def ofKind? : Kind NodeId → Option Delegation
  | .functionalCall name parameters _ =>
      if name == "initialize" then some (.this parameters) else none
  | .superCall parameters => some (.super parameters)
  | _ => none

/-- Records the arguments of a delegation in the method definition. -/
def record (call : Delegation) (method : Method NodeId) :
    Method NodeId :=
  match call with
  | .this arguments => { method with thisArgs := some arguments }
  | .super arguments => { method with superArgs := some arguments }

/-- The delegation that a method definition records. -/
def ofMethod? (method : Method NodeId) : Option Delegation :=
  match method.thisArgs, method.superArgs with
  | some arguments, _ => some (.this arguments)
  | none, some arguments => some (.super arguments)
  | none, none => none

end Delegation

namespace Arena

/-- Puts `new` into the child slot of `parent` that holds `old`.  The new
node has to carry this parent already: nodes are never re-parented. -/
def replaceChild (arena : Arena) (parent old new : NodeId) :
    Except TreeError Arena := do
  let newNode ← arena.node new
  unless newNode.parent == some parent do
    throw (.parentMismatch new parent newNode.parent)
  let parentNode ← arena.node parent
  match parentNode.kind.replaceFirst? old new with
  | some replaced => return arena.setKind parent replaced
  | none => throw (.notAChild parent old)

/-- The node that holds the leading statement of a constructor, and that
statement: the first statement of a body that is a list, or else the body
itself. -/
def leadingStatement? (arena : Arena) (constructor body : NodeId) :
    Except TreeError (Option (NodeId × NodeId)) := do
  match (← arena.node body).kind with
  | .body [] => return none
  | .body (first :: _) => return some (body, first)
  | _ => return some (constructor, body)

/-- Replaces a leading delegation call by a node that does nothing and
records its arguments in the constructor. -/
def detach (arena : Arena) (constructor : Node) (holder first : NodeId)
    (call : Delegation) : Except TreeError Arena := do
  let (id, arena) := arena.reserve
  let arena ← arena.add {
    id, parent := some holder, location := constructor.location, kind := .noop }
  let arena ← arena.replaceChild holder first id
  match arena.method? constructor.id with
  | some method =>
      return arena.setKind constructor.id (.methodDefinition (call.record method))
  | none => return arena

/-- Splits a leading `initialize(...)` or `super(...)` call off the body of a
constructor.  A constructor that has given up its delegation already, that
has no body or whose body starts with anything else is left alone. -/
def extractDelegation (arena : Arena) (id : NodeId) : Except TreeError Arena := do
  let constructor ← arena.node id
  match constructor.kind with
  | .methodDefinition method =>
      unless method.isConstructor do
        throw (.notAConstructor id)
      if method.thisArgs.isSome || method.superArgs.isSome then
        return arena
      let some body := method.body | return arena
      let some (holder, first) ← arena.leadingStatement? id body | return arena
      match Delegation.ofKind? (← arena.node first).kind with
      | some call => arena.detach constructor holder first call
      | none => return arena
  | _ => throw (.notAConstructor id)

end Arena

end DeferredTyping
