import DeferredTyping.Tree.Kind

/-!
# Deferred nodes

The worklist is a queue of node ids together with the set of its members,
so that a node deferred twice between two passes is queued once.
-/

namespace DeferredTyping

/-- The nodes to be inferred again, in the order of the next pass. -/
structure Worklist where
  queue : List NodeId := []
  members : List NodeId := []
deriving DecidableEq, Repr, Inhabited

namespace Worklist

/-- Queues a node unless it is queued already. -/
def push (worklist : Worklist) (id : NodeId) : Worklist :=
  if worklist.members.contains id then worklist
  else { queue := worklist.queue ++ [id], members := id :: worklist.members }

/-- The set holds what the queue holds. -/
def Consistent (worklist : Worklist) : Prop :=
  ∀ id, id ∈ worklist.members ↔ id ∈ worklist.queue

theorem queue_prefix_push (worklist : Worklist) (id : NodeId) :
    worklist.queue <+: (worklist.push id).queue := by
  unfold push
  split
  · exact List.prefix_rfl
  · exact List.prefix_append _ _

/-- Queueing a node adds nothing but that node. -/
theorem mem_queue_of_mem_push {worklist : Worklist} {id other : NodeId}
    (member : other ∈ (worklist.push id).queue) :
    other ∈ worklist.queue ∨ other = id := by
  unfold push at member
  split at member
  · exact .inl member
  · simpa using member

theorem Consistent.push {worklist : Worklist} (consistent : worklist.Consistent)
    (id : NodeId) : (worklist.push id).Consistent := by
  unfold Worklist.push
  split
  · exact consistent
  · intro other
    simp [consistent other, or_comm]

theorem Consistent.mem_push {worklist : Worklist}
    (consistent : worklist.Consistent) (id : NodeId) :
    id ∈ (worklist.push id).queue := by
  apply (consistent.push id id).mp
  unfold Worklist.push
  split
  · rename_i present
    simpa using present
  · exact List.mem_cons_self

theorem Consistent.queue_push {worklist : Worklist}
    (consistent : worklist.Consistent) (id : NodeId) :
    (worklist.push id).queue =
      if id ∈ worklist.queue then worklist.queue else worklist.queue ++ [id] := by
  unfold Worklist.push
  simp only [List.contains_iff_mem, consistent id]
  split
  · rfl
  · rfl

/-- The queue holds each node once, and the set holds what the queue holds. -/
structure Sound (worklist : Worklist) : Prop where
  consistent : worklist.Consistent
  distinct : worklist.queue.Nodup

theorem Sound.empty : Sound {} := ⟨fun _ => Iff.rfl, List.nodup_nil⟩

theorem Sound.push {worklist : Worklist} (sound : worklist.Sound) (id : NodeId) :
    (worklist.push id).Sound where
  consistent := sound.consistent.push id
  distinct := by
    rw [sound.consistent.queue_push]
    split
    · exact sound.distinct
    · rename_i fresh
      refine List.nodup_append.mpr ⟨sound.distinct, List.pairwise_singleton _ id, ?_⟩
      rintro other queued _ last rfl
      exact fresh (List.mem_singleton.mp last ▸ queued)

/-- The second worklist is the first one with nodes pushed onto it. -/
inductive Grows (worklist : Worklist) : Worklist → Prop where
  | refl : Grows worklist worklist
  | push {grown : Worklist} (grows : Grows worklist grown) (id : NodeId) :
      Grows worklist (grown.push id)

namespace Grows

variable {first second third : Worklist}

theorem trans (early : first.Grows second) (late : second.Grows third) : first.Grows third := by
  induction late with
  | refl => exact early
  | push _ id ih => exact ih.push id

theorem queue (grows : first.Grows second) : first.queue <+: second.queue := by
  induction grows with
  | refl => exact List.prefix_rfl
  | push _ id ih => exact ih.trans (queue_prefix_push _ id)

theorem consistent (grows : first.Grows second) (consistent : first.Consistent) :
    second.Consistent := by
  induction grows with
  | refl => exact consistent
  | push _ id ih => exact ih.push id

theorem sound (grows : first.Grows second) (sound : first.Sound) : second.Sound := by
  induction grows with
  | refl => exact sound
  | push _ id ih => exact ih.push id

end Grows

def isEmpty (worklist : Worklist) : Bool := worklist.queue.isEmpty

/-- The queued ids in ascending order, each once. -/
def ascending (worklist : Worklist) : List NodeId :=
  worklist.queue.foldl (fun ids id => insertAscending id ids) []
where
  /-- Puts an id in its place unless it is there. -/
  insertAscending (id : NodeId) : List NodeId → List NodeId
    | [] => [id]
    | other :: rest =>
        if id = other then other :: rest
        else if id < other then id :: other :: rest
        else other :: insertAscending id rest

theorem mem_insertAscending {id other : NodeId} {ids : List NodeId} :
    other ∈ ascending.insertAscending id ids ↔ other = id ∨ other ∈ ids := by
  induction ids with
  | nil => simp [ascending.insertAscending]
  | cons first rest ih =>
      rw [ascending.insertAscending]
      split
      · simp_all
      · split
        · simp
        · simp only [List.mem_cons, ih]
          exact or_left_comm

theorem pairwise_insertAscending (id : NodeId) {ids : List NodeId}
    (ordered : ids.Pairwise (· < ·)) :
    (ascending.insertAscending id ids).Pairwise (· < ·) := by
  induction ids with
  | nil => exact List.pairwise_singleton _ _
  | cons first rest ih =>
      obtain ⟨least, others⟩ := List.pairwise_cons.mp ordered
      rw [ascending.insertAscending]
      split
      · exact ordered
      · split
        · rename_i smaller
          refine List.pairwise_cons.mpr ⟨?_, ordered⟩
          intro other member
          rcases List.mem_cons.mp member with rfl | later
          · exact smaller
          · exact Nat.lt_trans smaller (least other later)
        · rename_i different larger
          refine List.pairwise_cons.mpr ⟨?_, ih others⟩
          intro other member
          rcases mem_insertAscending.mp member with rfl | later
          · exact Nat.lt_of_le_of_ne (Nat.le_of_not_lt larger) (Ne.symm different)
          · exact least other later

private theorem ascending_step {queue ids : List NodeId}
    (ordered : ids.Pairwise (· < ·)) :
    (queue.foldl (fun ids id => ascending.insertAscending id ids) ids).Pairwise (· < ·) ∧
      ∀ id, id ∈ queue.foldl (fun ids id => ascending.insertAscending id ids) ids ↔
        id ∈ ids ∨ id ∈ queue := by
  induction queue generalizing ids with
  | nil => simpa using ordered
  | cons first rest ih =>
      obtain ⟨sorted, members⟩ := ih (pairwise_insertAscending first ordered)
      refine ⟨sorted, fun id => ?_⟩
      rw [List.foldl_cons, members, mem_insertAscending, List.mem_cons, or_assoc,
        or_left_comm]

theorem pairwise_ascending (worklist : Worklist) :
    worklist.ascending.Pairwise (· < ·) :=
  (ascending_step List.Pairwise.nil).1

@[simp] theorem mem_ascending {worklist : Worklist} {id : NodeId} :
    id ∈ worklist.ascending ↔ id ∈ worklist.queue := by
  rw [ascending, (ascending_step List.Pairwise.nil).2]
  simp

end Worklist

end DeferredTyping
