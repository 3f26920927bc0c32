import DeferredTyping.Tree.Kind

/-!
# Why a tree operation is refused

Looking a node up, adding one, replacing a child and splitting off a
delegation can each be refused; every cause has one written form.
-/

namespace DeferredTyping

/-- The causes for which an operation on a tree is refused. -/
inductive TreeError where
  /-- No node has this id. -/
  | nodeNotFound (id : NodeId)
  /-- The node to replace is in no child slot of the parent. -/
  | notAChild (parent child : NodeId)
  /-- A replacement has to be built for the parent it is placed under. -/
  | parentMismatch (node expected : NodeId) (actual : Option NodeId)
  /-- Only a constructor has a delegation to split off. -/
  | notAConstructor (id : NodeId)
  /-- Zero is no node id. -/
  | zeroId
  /-- A node with this id is there already. -/
  | idTaken (id : NodeId)
deriving DecidableEq, Repr

namespace TreeError

/-- A parent link as diagnostics write it. -/
def parentText : Option NodeId → String
  | none => "None"
  | some id => "Some(" ++ toString id ++ ")"

/-- The text of a refusal. -/
def message : TreeError → String
  | .nodeNotFound id =>
      "node " ++ toString id ++ " does not exist in the arena"
  | .notAChild parent child =>
      "node " ++ toString child ++ " is not a child of node " ++ toString parent
  | .parentMismatch node expected actual =>
      "node " ++ toString node ++ " was built for parent " ++ parentText actual
        ++ ", cannot place it under " ++ toString expected
  | .notAConstructor id =>
      "node " ++ toString id ++ " is not a constructor definition"
  | .zeroId => "Node ID must be non-zero"
  | .idTaken id =>
      "Node with ID " ++ toString id ++ " already exists in the arena"

end TreeError

end DeferredTyping
