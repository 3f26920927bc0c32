import Mathlib.Algebra.GroupWithZero.Nat
import DeferredTyping.Proofs.Trees

/-!
# The walk with a stack

The walk takes ids off a stack and puts the children of each in its place.  It is stated as a
loop that goes on until the stack is empty, whatever that takes.  As long as no path from an id
is longer than the depth to which its visits are counted, the loop comes to its end, having
listed what the recursive order lists, and goes on with the rest of the stack in between.  In
an arena without cycles along child slots no path is longer than there are nodes.
-/

namespace DeferredTyping.Arena

variable {arena : Arena} {accepts : Node → Bool}

section Loop

/-- The loop of the walk: having taken so many ids off the stack it is empty, and these are
the nodes that were kept. -/
inductive Walks (arena : Arena) (accepts : Node → Bool) :
    Nat → List NodeId → List Node → Prop where
  | done : Walks arena accepts 0 [] []
  | dangling {steps : Nat} {id : NodeId} {stack : List NodeId} {kept : List Node} :
      arena.find? id = none → Walks arena accepts steps stack kept →
      Walks arena accepts (steps + 1) (id :: stack) kept
  | visit {steps : Nat} {id : NodeId} {stack : List NodeId} {node : Node} {kept : List Node} :
      arena.find? id = some node → Walks arena accepts steps (node.children ++ stack) kept →
      Walks arena accepts (steps + 1) (id :: stack) ([node].filter accepts ++ kept)

variable {steps : Nat} {stack : List NodeId} {kept : List Node}

/-- With the steps that the loop takes, or more of them, the walk keeps what the loop keeps. -/
theorem Walks.walkFrom_eq (walks : arena.Walks accepts steps stack kept) (extra : Nat) :
    arena.walkFrom accepts (steps + extra) stack = kept := by
  induction walks with
  | done => cases extra <;> rfl
  | dangling missing _ ih =>
      rw [Nat.add_right_comm, walkFrom, missing]
      exact ih
  | @visit steps id stack node kept present _ ih =>
      rw [Nat.add_right_comm, walkFrom, present]
      simp only [ih, List.filter_cons, List.filter_nil]
      split <;> rfl

end Loop

section Bottoms

/-- Whatever is reached from the id through child slots is reached in fewer steps than the
depth, and so all paths have come to an end there. -/
def Bottoms (arena : Arena) : Nat → NodeId → Prop
  | 0, id => arena.find? id = none
  | depth + 1, id => ∀ child ∈ arena.children id, arena.Bottoms depth child

/-- Where no node leads to itself through child slots, every path from an id ends within the
nodes that are not on the trail to it. -/
theorem bottoms_of_trail (acyclic : ∀ id, ¬ Relation.TransGen arena.HasChild id id) (depth : Nat)
    {id : NodeId} {path : List NodeId} (trail : arena.Trail arena.HasChild path id)
    (enough : arena.size ≤ path.length + depth) :
    arena.Bottoms depth id := by
  induction depth generalizing id path with
  | zero =>
      cases present : arena.find? id with
      | none => exact present
      | some node =>
          have fits := trail.length_lt (acyclic id) present
          omega
  | succ depth ih =>
      intro child member
      cases present : arena.find? id with
      | none =>
          rw [children_of_find?_eq_none present] at member
          cases member
      | some node =>
          rw [children_of_find? present] at member
          apply ih (trail.cons (acyclic id) present ⟨node, present, member⟩)
          rw [List.length_cons]
          omega

theorem bottoms_of_acyclic (acyclic : ∀ id, ¬ Relation.TransGen arena.HasChild id id)
    (id : NodeId) : arena.Bottoms arena.size id :=
  bottoms_of_trail acyclic _ .nil (Nat.le_add_left _ _)

end Bottoms

section Order

/-- What is in front of a stack is walked before the stack. -/
private theorem Walks.append {depth : Nat}
    (each : ∀ {id steps stack kept}, arena.Bottoms depth id →
      arena.Walks accepts steps stack kept →
        arena.Walks accepts (arena.visitsWithin depth id + steps) (id :: stack)
          ((arena.preorderWithin depth id).filter accepts ++ kept))
    {ids : List NodeId} (bottoms : ∀ id ∈ ids, arena.Bottoms depth id)
    {steps : Nat} {stack : List NodeId} {kept : List Node}
    (rest : arena.Walks accepts steps stack kept) :
    arena.Walks accepts ((ids.map (arena.visitsWithin depth)).sum + steps) (ids ++ stack)
      ((ids.flatMap (arena.preorderWithin depth)).filter accepts ++ kept) := by
  induction ids with
  | nil => simpa using rest
  | cons id ids ih =>
      obtain ⟨first, others⟩ := List.forall_mem_cons.mp bottoms
      rw [List.map_cons, List.sum_cons, Nat.add_assoc, List.flatMap_cons, List.filter_append,
        List.append_assoc, List.cons_append]
      exact each first (ih others)

/-- The loop lists the recursive order of a subtree, filtered, and what the rest of the stack
comes to. -/
theorem Walks.cons_of_bottoms {depth : Nat} {id : NodeId} (bottoms : arena.Bottoms depth id)
    {steps : Nat} {stack : List NodeId} {kept : List Node}
    (rest : arena.Walks accepts steps stack kept) :
    arena.Walks accepts (arena.visitsWithin depth id + steps) (id :: stack)
      ((arena.preorderWithin depth id).filter accepts ++ kept) := by
  induction depth generalizing id steps stack kept with
  | zero =>
      have visits : arena.visitsWithin 0 id = 1 := rfl
      rw [visits, Nat.add_comm]
      exact .dangling bottoms rest
  | succ depth ih =>
      have visits : arena.visitsWithin (depth + 1) id =
          1 + ((arena.children id).map (arena.visitsWithin depth)).sum := rfl
      rw [visits, Nat.add_assoc, Nat.add_comm 1, preorderWithin]
      cases present : arena.find? id with
      | none =>
          rw [children_of_find?_eq_none present]
          simpa using Walks.dangling present rest
      | some node =>
          have below : arena.Walks accepts _ (arena.children id ++ stack) _ :=
            .append (fun bottoms rest => ih bottoms rest) bottoms rest
          rw [children_of_find? present] at below ⊢
          have whole := Walks.visit present below
          rwa [← List.append_assoc, ← List.filter_append, List.singleton_append] at whole

/-- The loop ends with the recursive order of what it was started from. -/
theorem walks_of_bottoms {id : NodeId} (bottoms : arena.Bottoms arena.size id) :
    arena.Walks accepts (arena.visitsWithin arena.size id) [id]
      ((arena.preorder id).filter accepts) := by
  simpa [preorder] using Walks.cons_of_bottoms bottoms .done

theorem walk_of_bottoms {id : NodeId} (bottoms : arena.Bottoms arena.size id) :
    arena.walk id accepts = (arena.preorder id).filter accepts :=
  (walks_of_bottoms bottoms).walkFrom_eq 0

/-- An order that is unrolled further than any path goes lists what the recursive order lists
that is cut off where all paths have come to an end. -/
theorem eq_preorderWithin_of_bottoms (order : Nat → NodeId → List Node)
    (unrolls : ∀ depth id, order (depth + 1) id =
      match arena.find? id with
      | none => []
      | some node => node :: node.children.flatMap (order depth))
    {depth : Nat} {id : NodeId} (bottoms : arena.Bottoms depth id) (more : Nat) :
    order (depth + more + 1) id = arena.preorderWithin depth id := by
  induction depth generalizing id with
  | zero =>
      have missing : arena.find? id = none := bottoms
      rw [unrolls, missing, preorderWithin]
  | succ depth ih =>
      rw [unrolls, preorderWithin]
      cases present : arena.find? id with
      | none => rfl
      | some node =>
          have below : ∀ child ∈ node.children,
              order (depth + more + 1) child = arena.preorderWithin depth child :=
            fun child member => ih (bottoms child (children_of_find? present ▸ member))
          rw [Nat.add_right_comm] at below
          exact congrArg (node :: ·) (List.flatMap_congr below)

/-- An order that lists nothing for an id without a node, and else the node and then the orders
of its children from left to right. -/
def ListsPreorder (arena : Arena) (order : NodeId → List Node) : Prop :=
  ∀ id, order id =
    match arena.find? id with
    | none => []
    | some node => node :: node.children.flatMap order

/-- Where no node leads to itself through child slots, there is one such order. -/
theorem listsPreorder_iff (acyclic : ∀ id, ¬ Relation.TransGen arena.HasChild id id)
    {order : NodeId → List Node} : arena.ListsPreorder order ↔ order = arena.preorder := by
  constructor
  · intro lists
    funext id
    exact eq_preorderWithin_of_bottoms (fun _ => order) (fun _ => lists)
      (bottoms_of_acyclic acyclic id) 0
  · rintro rfl id
    have deeper := eq_preorderWithin_of_bottoms arena.preorderWithin (fun _ _ => rfl)
      (bottoms_of_acyclic acyclic id) 0
    exact deeper.symm

/-- In every arena without cycles along child slots the loop of the walk comes to an end,
whatever it is started from and whatever it keeps, and the walk is the recursive pre-order, from
which the nodes that are not accepted are left out: a node that is in two slots is listed
twice, a slot without a node is skipped, and below a node that is not accepted the walk goes
on.  No other order satisfies the recursion. -/
theorem walk_is_recursive_preorder (acyclic : ∀ id, ¬ Relation.TransGen arena.HasChild id id)
    (id : NodeId) (accepts : Node → Bool) :
    (∃ steps, arena.Walks accepts steps [id] (arena.walk id accepts)) ∧
      arena.walk id accepts = (arena.preorder id).filter accepts ∧
      ∀ order, arena.ListsPreorder order ↔ order = arena.preorder := by
  have bottoms := bottoms_of_acyclic acyclic id
  have filtered : arena.walk id accepts = (arena.preorder id).filter accepts :=
    walk_of_bottoms bottoms
  exact ⟨⟨_, filtered ▸ walks_of_bottoms bottoms⟩, filtered, fun _ => listsPreorder_iff acyclic⟩

/-- An assignment that stands in two statements of a body, beside a number and a slot
without a node. -/
def sharedAssignment : Arena where
  nodes := ⟨[
    (1, { id := 1, parent := none, location := {}, kind := .body [2, 3, 9, 2] }),
    (2, { id := 2, parent := some 1, location := {}, kind := .localAssignment "x" 4 }),
    (3, { id := 3, parent := some 1, location := {}, kind := .fixnum 3 }),
    (4, { id := 4, parent := some 2, location := {}, kind := .fixnum 4 })]⟩
  nextId := 10

theorem walk_is_recursive_preorder_of_sharedAssignment :
    (∀ id, ¬ Relation.TransGen sharedAssignment.HasChild id id) ∧
      (sharedAssignment.preorder 1).map Node.id = [1, 2, 4, 3, 2, 4] ∧
      ((sharedAssignment.preorder 1).filter fun node => node.id != 2).map Node.id = [1, 4, 3, 4] ∧
      ∃ steps, sharedAssignment.Walks (fun node => node.id != 2) steps [1]
        ((sharedAssignment.preorder 1).filter fun node => node.id != 2) := by
  have acyclic : ∀ id, ¬ Relation.TransGen sharedAssignment.HasChild id id :=
    no_cycle_of_ascending (by decide)
  obtain ⟨ends, filtered, _⟩ := walk_is_recursive_preorder acyclic 1 fun node => node.id != 2
  exact ⟨acyclic, by decide, by decide, filtered ▸ ends⟩

end Order

end DeferredTyping.Arena
