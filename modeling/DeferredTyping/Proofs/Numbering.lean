import DeferredTyping.Proofs.Edits
import DeferredTyping.Proofs.Extraction

/-!
# Numbers of nodes

Zero is the number of no node, and every number that was given to a node is below the one that
is handed out next.  An edit keeps this, whichever it is, so a number that is handed out is
free and a node can be added under it.
-/

namespace DeferredTyping.Arena

variable {arena after : Arena}

theorem id_ne_zero_of_add {node : Node} (added : arena.add node = .ok after) : node.id ≠ 0 := by
  unfold Arena.add at added
  split at added
  · cases added
  · assumption

theorem nextId_add {node : Node} (added : arena.add node = .ok after) :
    after.nextId = max arena.nextId (node.id + 1) := by
  unfold Arena.add at added
  split at added
  · cases added
  · split at added
    · cases added
    · cases added
      rfl

/-- Splitting off leaves the arena as it is when there is nothing to split off, and else it
hands out an id, adds a node under it, puts the node in its slot and records the call. -/
theorem steps_of_extractDelegation {id : NodeId}
    (extracted : arena.extractDelegation id = .ok after) :
    (arena.opening? id = .ok none ∧ after = arena) ∨
      ∃ opening grown edited, arena.opening? id = .ok (some opening) ∧
        arena.reserve.2.add (opening.noop arena.nextId) = .ok grown ∧
        grown.replaceChild opening.holder opening.first arena.nextId = .ok edited ∧
        after = edited.recordCall opening.constructor.id opening.call := by
  rw [extractDelegation_eq] at extracted
  obtain ⟨opening?, read, split⟩ := exists_of_bind_eq_ok extracted
  cases opening? with
  | none =>
      cases split
      exact .inl ⟨read, rfl⟩
  | some opening =>
      dsimp only at split
      rw [detach_eq] at split
      obtain ⟨grown, added, swapped⟩ := exists_of_bind_eq_ok split
      obtain ⟨edited, replaced, recorded⟩ := exists_of_bind_eq_ok swapped
      cases recorded
      exact .inr ⟨opening, grown, edited, read, added, replaced, rfl⟩

/-- Every node is stored once under its own id, zero is no id, and the id that is handed out
next is larger than the ids of all nodes. -/
structure Numbered (arena : Arena) : Prop where
  keyed : arena.Keyed
  zero : arena.find? 0 = none
  positive : arena.nextId ≠ 0
  below : ∀ {id node}, arena.find? id = some node → id < arena.nextId

namespace Numbered

theorem empty : empty.Numbered where
  keyed := ⟨List.Pairwise.nil, nofun⟩
  zero := rfl
  positive := nofun
  below := nofun

theorem unused (numbered : arena.Numbered) {id : NodeId} (reached : arena.nextId ≤ id) :
    arena.find? id = none := by
  by_contra present
  obtain ⟨node, found⟩ := Option.ne_none_iff_exists'.mp present
  exact absurd (numbered.below found) (Nat.not_lt.mpr reached)

theorem reserve (numbered : arena.Numbered) : arena.reserve.2.Numbered where
  keyed := ⟨numbered.keyed.ascending, numbered.keyed.ids⟩
  zero := numbered.zero
  positive := Nat.succ_ne_zero _
  below present := Nat.lt_succ_of_lt (numbered.below present)

/-- A node that is added under a free id, which may have been handed out before or not. -/
theorem add (numbered : arena.Numbered) {node : Node} (added : arena.add node = .ok after) :
    after.Numbered := by
  obtain ⟨_, _, others⟩ := find?_add added
  have next := nextId_add added
  refine ⟨numbered.keyed.add added, ?_, ?_, ?_⟩
  · rw [others (id_ne_zero_of_add added).symm]
    exact numbered.zero
  · rw [next]
    exact Nat.ne_of_gt (Nat.lt_of_lt_of_le (Nat.succ_pos _) (Nat.le_max_right _ _))
  · intro id found present
    rw [next]
    by_cases here : id = node.id
    · rw [here]
      exact Nat.lt_of_lt_of_le (Nat.lt_succ_self _) (Nat.le_max_right _ _)
    · exact Nat.lt_of_lt_of_le (numbered.below (others here ▸ present)) (Nat.le_max_left _ _)

theorem setKind (numbered : arena.Numbered) (id : NodeId) (kind : Kind NodeId) :
    (arena.setKind id kind).Numbered := by
  cases present : arena.find? id with
  | none =>
      have same : arena.setKind id kind = arena := by rw [Arena.setKind, present]
      rwa [same]
  | some node =>
      have next := nextId_setKind arena id kind
      refine ⟨numbered.keyed.setKind id kind, ?_, next ▸ numbered.positive, ?_⟩
      · have other : (0 : NodeId) ≠ id := by
          rintro rfl
          cases numbered.zero.symm.trans present
        rw [find?_setKind_of_ne arena kind other]
        exact numbered.zero
      · intro other found stored
        rw [next]
        by_cases here : other = id
        · exact here ▸ numbered.below present
        · exact numbered.below (find?_setKind_of_ne arena kind here ▸ stored)

theorem replaceChild (numbered : arena.Numbered) {parent old new : NodeId}
    (replaced : arena.replaceChild parent old new = .ok after) : after.Numbered := by
  obtain ⟨_, _, kind, _, _, _, _, rfl⟩ := replaceChild_replaces replaced
  exact numbered.setKind parent kind

theorem recordCall (numbered : arena.Numbered) (id : NodeId) (call : Delegation) :
    (arena.recordCall id call).Numbered := by
  unfold Arena.recordCall
  split
  · exact numbered.setKind id _
  · exact numbered

theorem extractDelegation (numbered : arena.Numbered) {id : NodeId}
    (extracted : arena.extractDelegation id = .ok after) : after.Numbered := by
  rcases steps_of_extractDelegation extracted with
    ⟨_, rfl⟩ | ⟨opening, grown, edited, _, added, replaced, rfl⟩
  · exact numbered
  · exact ((numbered.reserve.add added).replaceChild replaced).recordCall _ _

theorem edit (numbered : arena.Numbered) (edit : arena.Edit after) : after.Numbered := by
  cases edit with
  | reserve => exact numbered.reserve
  | add added => exact numbered.add added
  | replaceChild replaced => exact numbered.replaceChild replaced
  | extractDelegation extracted => exact numbered.extractDelegation extracted

theorem edited (numbered : arena.Numbered) (edited : arena.Edited after) : after.Numbered := by
  induction edited with
  | refl => exact numbered
  | tail _ last ih => exact ih.edit last

/-- A node can be added under an id that was handed out before and was not used since. -/
theorem add_handedOut (numbered : arena.Numbered) (node : Node) (positive : node.id ≠ 0)
    (handedOut : node.id < arena.nextId) (unused : arena.find? node.id = none) :
    ∃ after, arena.add node = .ok after ∧ after.nextId = arena.nextId ∧ after.Numbered := by
  have added := add_of_unused positive unused
  exact ⟨_, added, Nat.max_eq_left handedOut, numbered.add added⟩

end Numbered

end DeferredTyping.Arena
