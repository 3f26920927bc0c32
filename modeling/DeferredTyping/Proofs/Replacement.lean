import DeferredTyping.Proofs.Extraction
import DeferredTyping.Proofs.Outlines

/-!
# Replacing a child

The search for a slot visits the child slots in the order of the children, whatever kind the
node is: the first slot that holds the old node takes the new one, and the outline of the
kind stays.  So a replacement is refused unless the new node was made for the parent and the
old one is a child of it, and what is not refused changes one slot of one node.
-/

namespace DeferredTyping

/-- The search refills the first slot that holds the old node, and tells whether there is one. -/
theorem run_swapAll (old new : NodeId) (slots : List NodeId) :
    (slots.mapM (swapFirst old new)).run false =
      (slots.replace old new, decide (old ∈ slots)) := by
  induction slots with
  | nil => rfl
  | cons slot rest ih =>
      by_cases same : slot = old
      · subst same
        simpa using run_swapAll_here slot new rest
      · have missed : (swapFirst old new slot).run false = (slot, false) := by
          simp only [swapFirst, beq_eq_false_iff_ne.mpr same]
          rfl
        have kept : (slot :: rest).replace old new = slot :: rest.replace old new := by
          rw [List.replace_cons, beq_eq_false_iff_ne.mpr (Ne.symm same)]
        rw [List.mapM_cons, StateT.run_bind, missed, kept]
        refine (congrArg (fun found : List NodeId × Bool => (slot :: found.1, found.2)) ih).trans ?_
        simp [Ne.symm same]

theorem Refilled.map_const {β : Type} {old new : NodeId} {held refilled : List NodeId}
    (refill : Refilled old new held refilled) (value : β) :
    refilled.map (fun _ => value) = held.map fun _ => value := by
  rw [List.map_const', List.map_const', refill.length_eq]

/-- An optional slot stays filled or empty. -/
theorem Refilled.option_map_const {β : Type} {old new : NodeId} {held refilled : Option NodeId}
    (refill : Refilled old new held.toList refilled.toList) (value : β) :
    refilled.map (fun _ => value) = held.map fun _ => value := by
  have length := refill.length_eq
  cases held <;> cases refilled <;> simp_all

namespace Kind

/-- Searching the slots of a kind keeps its outline. -/
theorem ensures_outline (old new : NodeId) (kind : Kind NodeId) :
    Ensures (fun refilled => refilled.outline id = kind.outline id)
      (kind.mapChildrenM (swapFirst old new)) := by
  cases kind with
  | script _ content | classDefinition _ _ _ content | interfaceDeclaration _ _ content
  | returning content =>
      exact (Ensures.swapOption old new content).bind fun _ held =>
        .pure (by simp only [outline, held.option_map_const])
  | methodDefinition method =>
      exact (Ensures.swapFirst old new method.arguments).bind fun _ _ =>
        (Ensures.swapOption old new method.body).bind fun _ held =>
          .pure (by simp only [outline, held.option_map_const])
  | arguments list =>
      exact (Ensures.swapAll old new list.required).bind fun _ required =>
        (Ensures.swapAll old new list.optional).bind fun _ optional =>
        (Ensures.swapOption old new list.rest).bind fun _ rest =>
        (Ensures.swapOption old new list.block).bind fun _ block =>
          .pure (by simp only [outline, required.map_const, optional.map_const,
            rest.option_map_const, block.option_map_const])
  | optionalArgument _ value | localAssignment _ value | raise value =>
      exact (Ensures.swapFirst old new value).bind fun _ _ => .pure rfl
  | block parameters content =>
      exact (Ensures.swapFirst old new parameters).bind fun _ _ =>
        (Ensures.swapOption old new content).bind fun _ held =>
          .pure (by simp only [outline, held.option_map_const])
  | body slots | superCall slots =>
      exact (Ensures.swapAll old new slots).bind fun _ held =>
        .pure (by simp only [outline, held.map_const])
  | functionalCall _ parameters closure =>
      exact (Ensures.swapAll old new parameters).bind fun _ given =>
        (Ensures.swapOption old new closure).bind fun _ held =>
          .pure (by simp only [outline, given.map_const, held.option_map_const])
  | call target _ parameters closure =>
      exact (Ensures.swapFirst old new target).bind fun _ _ =>
        (Ensures.swapAll old new parameters).bind fun _ given =>
        (Ensures.swapOption old new closure).bind fun _ held =>
          .pure (by simp only [outline, given.map_const, held.option_map_const])
  | ifElse condition thenBody elseBody =>
      exact (Ensures.swapFirst old new condition).bind fun _ _ =>
        (Ensures.swapOption old new thenBody).bind fun _ second =>
        (Ensures.swapOption old new elseBody).bind fun _ third =>
          .pure (by simp only [outline, second.option_map_const, third.option_map_const])
  | requiredArgument _ | restArgument _ | blockArgument _ | noop | fixnum _ | float _ | str _
  | boolean _ | null | selfRef | localRead _ | constant _ => exact .pure rfl

/-- What the search over the slots of a kind finds: it refills the first child slot that holds
the old node, nothing else of the kind changes, and it tells whether there is such a slot. -/
theorem run_mapChildrenM (kind : Kind NodeId) (old new : NodeId) :
    ∃ refilled, (kind.mapChildrenM (swapFirst old new)).run false =
        (refilled, decide (old ∈ kind.children)) ∧
      refilled.children = kind.children.replace old new ∧
      refilled.outline id = kind.outline id := by
  have slots := congrArg (fun step => StateT.run step false)
    (kind.children_mapChildrenM (swapFirst old new))
  have outline := kind.ensures_outline old new false
  rcases run : (kind.mapChildrenM (swapFirst old new)).run false with ⟨refilled, met⟩
  rw [run] at outline
  simp only [StateT.run_map, run, run_swapAll] at slots
  obtain ⟨children, rfl⟩ := Prod.mk.inj slots
  exact ⟨refilled, rfl, children, outline⟩

theorem replaceFirst?_eq_none_iff {kind : Kind NodeId} {old new : NodeId} :
    kind.replaceFirst? old new = none ↔ old ∉ kind.children := by
  obtain ⟨refilled, run, _⟩ := kind.run_mapChildrenM old new
  by_cases held : old ∈ kind.children <;> simp [replaceFirst?, run, held]

/-- The kind that a replacement gives is told by its children and its outline. -/
theorem replaceFirst?_eq_some_iff {kind replaced : Kind NodeId} {old new : NodeId} :
    kind.replaceFirst? old new = some replaced ↔
      old ∈ kind.children ∧ replaced.children = kind.children.replace old new ∧
        replaced.outline id = kind.outline id := by
  obtain ⟨refilled, run, children, outline⟩ := kind.run_mapChildrenM old new
  by_cases held : old ∈ kind.children
  · have found : kind.replaceFirst? old new = some refilled := by
      simp [replaceFirst?, run, held]
    rw [found, Option.some.injEq]
    constructor
    · rintro rfl
      exact ⟨held, children, outline⟩
    · rintro ⟨_, sameChildren, sameOutline⟩
      exact eq_of_outline (outline.trans sameOutline.symm) (children.trans sameChildren.symm)
  · rw [replaceFirst?_eq_none_iff.mpr held]
    constructor
    · intro none
      cases none
    · rintro ⟨present, _⟩
      exact absurd present held

end Kind

/-- A key that is known keeps its place. -/
theorem Table.size_insert_of_known {ν : Type} {table : Table NodeId ν}
    (ascending : table.Ascending) {key : NodeId} {old : ν} (known : table.get? key = some old)
    (value : ν) : (table.insert key value).size = table.size := by
  obtain ⟨entries⟩ := table
  have ordered : entries.Pairwise fun left right => left.1 < right.1 :=
    List.pairwise_map.mp ascending
  have member := mem_entries_of_get?_eq_some known
  clear ascending known
  simp only [insert, size]
  induction entries with
  | nil => cases member
  | cons entry rest ih =>
      obtain ⟨candidate, stored⟩ := entry
      obtain ⟨first, others⟩ := List.pairwise_cons.mp ordered
      by_cases same : candidate = key
      · simp [place, same]
      · have later : (key, old) ∈ rest := by
          rcases List.mem_cons.mp member with here | later
          · exact absurd (congrArg Prod.fst here).symm same
          · exact later
        have order : ¬ key < candidate := Nat.lt_asymm (first _ later)
        simp [place, same, order, ih others later]

namespace Arena

variable {arena after : Arena} {parent old new : NodeId}

/-- One child slot of the parent took another node: the first one that held the old node.
Everything else of the parent is as it was, and so is the rest of the arena.  Nodes are counted
in a table that is in order, as a table is that insertions lead to. -/
structure SwapsSlot (before : Arena) (parent old new : NodeId) (after : Arena) : Prop where
  children : after.children parent = (before.children parent).replace old new
  outline : ∃ node kind, before.find? parent = some node ∧
    after.find? parent = some { node with kind } ∧ kind.outline id = node.kind.outline id
  others : ∀ {other}, other ≠ parent → after.find? other = before.find? other
  size : before.nodes.Ascending → after.size = before.size
  nextId : after.nextId = before.nextId

theorem size_setKind (ascending : arena.nodes.Ascending) (id : NodeId) (kind : Kind NodeId) :
    (arena.setKind id kind).size = arena.size := by
  unfold setKind
  cases present : arena.find? id with
  | none => rfl
  | some node => exact Table.size_insert_of_known ascending present _

theorem swapsSlot_replaceChild (replaced : arena.replaceChild parent old new = .ok after) :
    arena.SwapsSlot parent old new after := by
  obtain ⟨_, node, kind, _, _, held, refilled, rfl⟩ := replaceChild_replaces replaced
  obtain ⟨_, children, outline⟩ := Kind.replaceFirst?_eq_some_iff.mp refilled
  have stored := find?_setKind_self kind held
  exact {
    children := by
      rw [children_of_find? stored, children_of_find? held]
      exact children
    outline := ⟨node, kind, held, stored, outline⟩
    others := fun different => find?_setKind_of_ne arena kind different
    size := fun ascending => size_setKind ascending parent kind
    nextId := nextId_setKind arena parent kind }

/-- The node that a replacement carries into the arena was made for the parent. -/
theorem parent?_eq_some_iff {id : NodeId} :
    arena.parent? id = some parent ↔
      ∃ node, arena.find? id = some node ∧ node.parent = some parent :=
  Option.bind_eq_some_iff

theorem node_of_find?_eq_none {id : NodeId} (absent : arena.find? id = none) :
    arena.node id = .error (.nodeNotFound id) := by
  rw [Arena.node, absent]

theorem replaceChild_of_absent (absent : arena.find? new = none) :
    arena.replaceChild parent old new = .error (.nodeNotFound new) := by
  rw [replaceChild, node_of_find?_eq_none absent]
  rfl

theorem replaceChild_of_mismatch {newNode : Node} (present : arena.find? new = some newNode)
    (mismatch : newNode.parent ≠ some parent) :
    arena.replaceChild parent old new = .error (.parentMismatch new parent newNode.parent) := by
  have other : (newNode.parent == some parent) = false := beq_eq_false_iff_ne.mpr mismatch
  simp only [replaceChild, node_of_find? present, bind, Except.bind, other]
  rfl

/-- Where the new node was made for the parent, what is left to ask is the parent. -/
theorem replaceChild_of_parent? (made : arena.parent? new = some parent) :
    arena.replaceChild parent old new = (do
      let node ← arena.node parent
      match node.kind.replaceFirst? old new with
      | some replaced => return arena.setKind parent replaced
      | none => throw (.notAChild parent old)) := by
  obtain ⟨newNode, present, carried⟩ := parent?_eq_some_iff.mp made
  simp only [replaceChild, node_of_find? present, carried, bind, Except.bind, BEq.rfl]
  rfl

theorem replaceChild_of_absent_parent (made : arena.parent? new = some parent)
    (absent : arena.find? parent = none) :
    arena.replaceChild parent old new = .error (.nodeNotFound parent) := by
  rw [replaceChild_of_parent? made, node_of_find?_eq_none absent]
  rfl

theorem replaceChild_of_not_mem {node : Node} (made : arena.parent? new = some parent)
    (held : arena.find? parent = some node) (missing : old ∉ arena.children parent) :
    arena.replaceChild parent old new = .error (.notAChild parent old) := by
  rw [children_of_find? held] at missing
  rw [replaceChild_of_parent? made, node_of_find? held]
  simp only [bind, Except.bind, Kind.replaceFirst?_eq_none_iff.mpr missing]
  rfl

theorem replaceChild_of_mem {node : Node} (made : arena.parent? new = some parent)
    (held : arena.find? parent = some node) (slot : old ∈ arena.children parent) :
    ∃ after, arena.replaceChild parent old new = .ok after := by
  rw [children_of_find? held] at slot
  obtain ⟨kind, refilled⟩ : ∃ kind, node.kind.replaceFirst? old new = some kind :=
    Option.ne_none_iff_exists'.mp fun none => Kind.replaceFirst?_eq_none_iff.mp none slot
  rw [replaceChild_of_parent? made, node_of_find? held]
  simp only [bind, Except.bind, refilled]
  exact ⟨_, rfl⟩

theorem replaceChild_ok_iff :
    (∃ after, arena.replaceChild parent old new = .ok after) ↔
      arena.parent? new = some parent ∧ (∃ node, arena.find? parent = some node) ∧
        old ∈ arena.children parent := by
  constructor
  · rintro ⟨after, replaced⟩
    obtain ⟨newNode, node, kind, present, carried, held, refilled, _⟩ :=
      replaceChild_replaces replaced
    obtain ⟨slot, _⟩ := Kind.replaceFirst?_eq_some_iff.mp refilled
    refine ⟨parent?_eq_some_iff.mpr ⟨newNode, present, carried⟩, ⟨node, held⟩, ?_⟩
    rw [children_of_find? held]
    exact slot
  · rintro ⟨made, ⟨node, held⟩, slot⟩
    exact replaceChild_of_mem made held slot

/-- A replacement edits one child slot and nothing else.  It is accepted exactly when the new
node was made for the parent, the parent is there and the old node is a child of it.  Otherwise
it is refused for the first of these that fails, and a refused edit leaves the arena under
construction as it was. -/
theorem replacement_takes_one_slot (arena : Arena) (parent old new : NodeId) :
    ((∃ after, arena.replaceChild parent old new = .ok after) ↔
      arena.parent? new = some parent ∧ (∃ node, arena.find? parent = some node) ∧
        old ∈ arena.children parent) ∧
    (∀ after, arena.replaceChild parent old new = .ok after →
      arena.SwapsSlot parent old new after) ∧
    (arena.find? new = none →
      arena.replaceChild parent old new = .error (.nodeNotFound new)) ∧
    (∀ newNode, arena.find? new = some newNode → newNode.parent ≠ some parent →
      arena.replaceChild parent old new =
        .error (.parentMismatch new parent newNode.parent)) ∧
    (arena.parent? new = some parent → arena.find? parent = none →
      arena.replaceChild parent old new = .error (.nodeNotFound parent)) ∧
    (∀ node, arena.parent? new = some parent → arena.find? parent = some node →
      old ∉ arena.children parent →
      arena.replaceChild parent old new = .error (.notAChild parent old)) ∧
    (∀ builder : Builder, builder.arena = arena →
      ∀ cause, arena.replaceChild parent old new = .error cause →
        Build.exec (Build.edit fun arena => arena.replaceChild parent old new) builder =
          (.error cause, builder)) := by
  refine ⟨replaceChild_ok_iff, fun _ => swapsSlot_replaceChild, replaceChild_of_absent,
    fun _ => replaceChild_of_mismatch, replaceChild_of_absent_parent,
    fun _ => replaceChild_of_not_mem, ?_⟩
  rintro builder rfl cause refused
  rw [Build.exec_edit, refused]

/-- A list of parameters in which one node is in two slots, beside a node that was made to take
a slot of the list. -/
private def twiceHeld : Arena where
  nodes := ⟨[
    (1, { id := 1, parent := none, location := {},
          kind := .arguments { required := [2], optional := [3], rest := some 3 } }),
    (2, { id := 2, parent := some 1, location := {}, kind := .requiredArgument "first" }),
    (3, { id := 3, parent := some 1, location := {}, kind := .restArgument "others" }),
    (4, { id := 4, parent := some 1, location := {}, kind := .restArgument "last" })]⟩
  nextId := 5

theorem replacement_takes_one_slot_of_twiceHeld :
    (∃ after, twiceHeld.replaceChild 1 3 4 = .ok after ∧ after.children 1 = [2, 4, 3] ∧
      after.size = 4 ∧ after.find? 3 = twiceHeld.find? 3) ∧
    twiceHeld.replaceChild 1 3 9 = .error (.nodeNotFound 9) ∧
    twiceHeld.replaceChild 2 3 4 = .error (.parentMismatch 4 2 (some 1)) ∧
    twiceHeld.replaceChild 1 7 4 = .error (.notAChild 1 7) := by
  obtain ⟨accepted, edits, _⟩ := replacement_takes_one_slot twiceHeld 1 3 4
  obtain ⟨after, replaced⟩ := accepted.mpr ⟨by decide, ⟨_, rfl⟩, by decide⟩
  have swaps := edits after replaced
  refine ⟨⟨after, replaced, swaps.children, swaps.size (by decide), swaps.others (by decide)⟩,
    (replacement_takes_one_slot twiceHeld 1 3 9).2.2.1 rfl,
    (replacement_takes_one_slot twiceHeld 2 3 4).2.2.2.1 _ rfl (by decide),
    (replacement_takes_one_slot twiceHeld 1 7 4).2.2.2.2.2.1 _ (by decide) rfl (by decide)⟩

end Arena

end DeferredTyping
