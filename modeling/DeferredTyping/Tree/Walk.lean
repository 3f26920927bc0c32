import DeferredTyping.Tree.Arena

/-!
# Walks over a tree

Upwards: the lineage of a node is the node and its ancestors, and the
enclosing scope is the first scope of the lineage.  Downwards: `preorder`
is the recursive order of a subtree and `walk` the same order computed with
a stack of pending ids.

Parent links and child slots are assumed to form no cycle, so a path holds
each node at most once and the number of nodes bounds its length.
-/

namespace DeferredTyping.Arena

/-- The nodes met by following parent links, at most `steps` of them. -/
def lineageWithin (arena : Arena) : Nat → Option NodeId → List Node
  | 0, _ => []
  | _ + 1, none => []
  | steps + 1, some id =>
      match arena.find? id with
      | none => []
      | some node => node :: arena.lineageWithin steps node.parent

/-- A node followed by its ancestors, nearest first. -/
def lineage (arena : Arena) (id : NodeId) : List Node :=
  arena.lineageWithin arena.size (some id)

/-- The ancestors of a node, nearest first. -/
def ancestors (arena : Arena) (id : NodeId) : List Node :=
  (arena.lineage id).drop 1

/-- The nearest scope at or above a node. -/
def enclosingScope? (arena : Arena) (id : NodeId) : Option NodeId :=
  ((arena.lineage id).find? fun node => node.kind.isScope).map Node.id

/-- The subtree of a node in pre-order, down to `depth` levels.  A child that
does not exist is skipped; one that is in two slots is listed twice. -/
def preorderWithin (arena : Arena) : Nat → NodeId → List Node
  | 0, _ => []
  | depth + 1, id =>
      match arena.find? id with
      | none => []
      | some node => node :: node.children.flatMap (arena.preorderWithin depth)

/-- The subtree of a node in pre-order. -/
def preorder (arena : Arena) (id : NodeId) : List Node :=
  arena.preorderWithin arena.size id

/-- How many ids the walk of a subtree takes off its stack: one for every
slot that it comes through and one for the start. -/
def visitsWithin (arena : Arena) : Nat → NodeId → Nat
  | 0, _ => 1
  | depth + 1, id =>
      1 + ((arena.children id).map (arena.visitsWithin depth)).sum

/-- Takes ids off a stack, keeps the accepted nodes and pushes the children
of every node, accepted or not. -/
def walkFrom (arena : Arena) (accepts : Node → Bool) :
    Nat → List NodeId → List Node
  | 0, _ => []
  | _ + 1, [] => []
  | steps + 1, id :: stack =>
      match arena.find? id with
      | none => arena.walkFrom accepts steps stack
      | some node =>
          let later := arena.walkFrom accepts steps (node.children ++ stack)
          if accepts node then node :: later else later

/-- The accepted nodes of a subtree in pre-order. -/
def walk (arena : Arena) (id : NodeId) (accepts : Node → Bool) : List Node :=
  arena.walkFrom accepts (arena.visitsWithin arena.size id) [id]

end DeferredTyping.Arena
