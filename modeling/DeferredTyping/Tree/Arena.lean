import DeferredTyping.Table
import DeferredTyping.Tree.Error

/-!
# The node table

An arena owns the nodes of one or more trees.  A node knows its id, its
parent and its children; parent link and child slot are two records of the
same edge, and no operation here compares them.  Ids are handed out in
ascending order and never twice.
-/

namespace DeferredTyping

/-- A node of a tree. -/
structure Node where
  id : NodeId
  parent : Option NodeId
  location : Location
  kind : Kind NodeId
deriving DecidableEq, Repr

/-- The child slots of a node in source order. -/
def Node.children (node : Node) : List NodeId := node.kind.children

/-- Nodes by id, and the id that is handed out next. -/
structure Arena where
  nodes : Table NodeId Node := {}
  nextId : NodeId := 1
deriving DecidableEq, Repr, Inhabited

namespace Arena

/-- The arena without nodes.  Its first id is one. -/
def empty : Arena := {}

/-- Hands out a fresh id. -/
def reserve (arena : Arena) : NodeId × Arena :=
  (arena.nextId, { arena with nextId := arena.nextId + 1 })

def size (arena : Arena) : Nat := arena.nodes.size

def isEmpty (arena : Arena) : Bool := arena.size == 0

/-- The node of this id. -/
def find? (arena : Arena) (id : NodeId) : Option Node := arena.nodes.get? id

/-- The node of this id; a missing one is refused. -/
def node (arena : Arena) (id : NodeId) : Except TreeError Node :=
  match arena.find? id with
  | some node => .ok node
  | none => .error (.nodeNotFound id)

/-- Adds a node under the id that it carries.  Ids handed out later are
larger than it. -/
def add (arena : Arena) (node : Node) : Except TreeError Arena :=
  if node.id = 0 then .error .zeroId
  else if arena.nodes.contains node.id then .error (.idTaken node.id)
  else .ok {
    nodes := arena.nodes.insert node.id node
    nextId := max arena.nextId (node.id + 1) }

/-- Replaces what the node of this id is; a missing node stays missing. -/
def setKind (arena : Arena) (id : NodeId) (kind : Kind NodeId) : Arena :=
  match arena.find? id with
  | some node => { arena with nodes := arena.nodes.insert id { node with kind } }
  | none => arena

/-- The parent of a node; none for a root and for a missing node. -/
def parent? (arena : Arena) (id : NodeId) : Option NodeId :=
  (arena.find? id).bind Node.parent

/-- The child slots of a node; none for a missing node. -/
def children (arena : Arena) (id : NodeId) : List NodeId :=
  ((arena.find? id).map Node.children).getD []

/-- The method definition that a node is. -/
def method? (arena : Arena) (id : NodeId) : Option (Method NodeId) :=
  (arena.find? id).bind fun node => node.kind.method?

/-- The accepted nodes in ascending order of their ids. -/
def select (arena : Arena) (accepts : Node → Bool) : List Node :=
  arena.nodes.values.filter accepts

/-- The nodes without a parent. -/
def roots (arena : Arena) : List Node :=
  arena.select fun node => node.parent.isNone

/-- The method definitions with their ids. -/
def methods (arena : Arena) : List (NodeId × Method NodeId) :=
  arena.nodes.values.filterMap fun node =>
    node.kind.method?.map fun method => (node.id, method)

end Arena

end DeferredTyping
