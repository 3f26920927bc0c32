import Mathlib.Data.List.Forall2
import Mathlib.Data.List.Perm.Subperm
import Mathlib.Logic.Relation
import DeferredTyping.Facts
import DeferredTyping.Inference.SelfType

/-!
# Trees and their edits

A node depends on the nodes that its rule visits.  Every node is stored under
the id that it carries, and the table holds its ids in ascending order; adding
a node and replacing a child keep that.  When a child is replaced, the node
that holds it depends on nothing else that it did not depend on before.  A
walk meets what is reached through child slots.
-/

namespace DeferredTyping

/-- The nodes that the rule of a node visits: its child slots, the block slot
of a parameter list aside, and the arguments of a delegation that was split
off. -/
def Kind.dependencies {α : Type} : Kind α → List α
  | .methodDefinition method =>
      method.thisArgs.getD [] ++ method.superArgs.getD [] ++
        method.arguments :: method.body.toList
  | .arguments list => list.typed
  | kind => kind.children

/-- The rule of one node visits the other: through a child slot, the block
slot of a parameter list aside, or as an argument of a delegation that was
split off a constructor. -/
def Arena.DependsOn (arena : Arena) (id child : NodeId) : Prop :=
  ∃ node, arena.find? id = some node ∧ child ∈ node.kind.dependencies

/-- The second node is the first one or can be reached from it. -/
abbrev Arena.Below (arena : Arena) : NodeId → NodeId → Prop :=
  Relation.ReflTransGen arena.DependsOn

/-- No node is reached from itself. -/
def Arena.Acyclic (arena : Arena) : Prop :=
  ∀ id, ¬ Relation.TransGen arena.DependsOn id id

private theorem lt_of_transGen
    {edge : NodeId → NodeId → Prop}
    (ascending : ∀ {id child}, edge id child → id < child)
    {id other : NodeId}
    (path : Relation.TransGen edge id other) :
    id < other := by
  induction path with
  | single first => exact ascending first
  | tail _ last ih => exact Nat.lt_trans ih (ascending last)

/-- A tree in which every node is numbered before those it depends on has no
cycle. -/
theorem Arena.acyclic_of_ascending
    {arena : Arena}
    (ascending : ∀ entry ∈ arena.nodes.entries,
      ∀ child ∈ entry.2.kind.dependencies, entry.1 < child) :
    arena.Acyclic := by
  intro id cycle
  apply Nat.lt_irrefl id
  refine lt_of_transGen ?_ cycle
  rintro top child ⟨node, present, member⟩
  exact ascending _ (Table.mem_entries_of_get?_eq_some present) _ member

/-- The second node is in a child slot of the first. -/
def Arena.HasChild (arena : Arena) (id child : NodeId) : Prop :=
  ∃ node, arena.find? id = some node ∧ child ∈ node.children

theorem Arena.children_of_find? {arena : Arena} {id : NodeId} {node : Node}
    (present : arena.find? id = some node) : arena.children id = node.children := by
  rw [children, present]
  rfl

theorem Arena.children_of_find?_eq_none {arena : Arena} {id : NodeId}
    (absent : arena.find? id = none) : arena.children id = [] := by
  rw [children, absent]
  rfl

/-- The second node is in the block slot of a parameter list. -/
def Arena.HasBlockSlot (arena : Arena) (id block : NodeId) : Prop :=
  ∃ node list, arena.find? id = some node ∧ node.kind = .arguments list ∧
    list.block = some block

theorem Arena.no_cycle_of_ascending
    {arena : Arena}
    (ascending : ∀ entry ∈ arena.nodes.entries,
      ∀ child ∈ entry.2.children, entry.1 < child) :
    ∀ id, ¬ Relation.TransGen arena.HasChild id id := by
  intro id cycle
  apply Nat.lt_irrefl id
  refine lt_of_transGen ?_ cycle
  rintro top child ⟨node, present, member⟩
  exact ascending _ (Table.mem_entries_of_get?_eq_some present) _ member

/-- Stored nodes, each of them once, are no more than the arena has. -/
theorem Arena.length_le_of_stored {arena : Arena} {ids : List NodeId} (distinct : ids.Nodup)
    (stored : ∀ id ∈ ids, id ∈ arena.nodes.keys) : ids.length ≤ arena.size := by
  have size : arena.nodes.keys.length = arena.size := List.length_map _
  exact size ▸ (List.subperm_of_subset distinct stored).length_le

/-- Stored nodes, each of them once, from all of which the edges lead to the id. -/
structure Arena.Trail (arena : Arena) (Edge : NodeId → NodeId → Prop)
    (path : List NodeId) (id : NodeId) : Prop where
  distinct : path.Nodup
  stored : ∀ above ∈ path, above ∈ arena.nodes.keys
  leads : ∀ above ∈ path, Relation.TransGen Edge above id

namespace Arena.Trail

variable {arena : Arena} {Edge : NodeId → NodeId → Prop} {path : List NodeId}
  {id child : NodeId} {node : Node}

theorem nil : arena.Trail Edge [] id :=
  ⟨List.nodup_nil, nofun, nofun⟩

theorem length_le (trail : arena.Trail Edge path id) : path.length ≤ arena.size :=
  length_le_of_stored trail.distinct trail.stored

/-- A node that does not lead to itself is not on a trail to it. -/
theorem nodup_cons (trail : arena.Trail Edge path id) (acyclic : ¬ Relation.TransGen Edge id id) :
    (id :: path).Nodup :=
  List.nodup_cons.mpr ⟨fun again => acyclic (trail.leads id again), trail.distinct⟩

theorem stored_cons (trail : arena.Trail Edge path id) (present : arena.find? id = some node) :
    ∀ above ∈ id :: path, above ∈ arena.nodes.keys :=
  List.forall_mem_cons.mpr ⟨Table.mem_keys_of_get?_eq_some present, trail.stored⟩

/-- A trail goes on with every edge. -/
theorem cons (trail : arena.Trail Edge path id) (acyclic : ¬ Relation.TransGen Edge id id)
    (present : arena.find? id = some node) (edge : Edge id child) :
    arena.Trail Edge (id :: path) child where
  distinct := trail.nodup_cons acyclic
  stored := trail.stored_cons present
  leads := List.forall_mem_cons.mpr
    ⟨.single edge, fun above earlier => (trail.leads above earlier).tail edge⟩

theorem length_lt (trail : arena.Trail Edge path id) (acyclic : ¬ Relation.TransGen Edge id id)
    (present : arena.find? id = some node) : path.length < arena.size :=
  length_le_of_stored (trail.nodup_cons acyclic) (trail.stored_cons present)

end Arena.Trail

/-- No rule visits the block slot of a parameter list; every other child slot
is a dependency. -/
theorem Arena.dependsOn_of_hasChild
    {arena : Arena} {id child : NodeId}
    (edge : arena.HasChild id child) :
    arena.DependsOn id child ∨ arena.HasBlockSlot id child := by
  obtain ⟨node, present, member⟩ := edge
  rw [Node.children] at member
  cases kind : node.kind with
  | methodDefinition method =>
      rw [kind] at member
      refine .inl ⟨node, present, ?_⟩
      rw [kind]
      exact List.mem_append_right _ member
  | arguments list =>
      rw [kind] at member
      rcases List.mem_append.mp member with typed | block
      · refine .inl ⟨node, present, ?_⟩
        rw [kind]
        exact typed
      · exact .inr ⟨node, list, present, kind, Option.mem_toList.mp block⟩
  | _ =>
      rw [kind] at member
      refine .inl ⟨node, present, ?_⟩
      rw [kind]
      exact member

section BlockSlots

variable {arena : Arena} {Edge : NodeId → NodeId → Prop}
  (edges : ∀ {id child}, Edge id child → arena.DependsOn id child ∨ arena.HasBlockSlot id child)

include edges

/-- What is reached is reached without block slots, or lies at or below one. -/
theorem Arena.below_or_in_block_slot {top id : NodeId}
    (reached : Relation.ReflTransGen Edge top id) :
    arena.Below top id ∨ ∃ holder block, arena.HasBlockSlot holder block ∧
      Relation.ReflTransGen Edge block id := by
  induction reached with
  | refl => exact .inl .refl
  | tail _ last ih =>
      rcases ih with below | ⟨holder, block, slot, inside⟩
      · rcases edges last with dependence | slot
        · exact .inl (below.tail dependence)
        · exact .inr ⟨_, _, slot, .refl⟩
      · exact .inr ⟨holder, block, slot, inside.tail last⟩

/-- Nothing but itself is reached from a block argument. -/
theorem Arena.not_blockArgument_of_reached {block id : NodeId} {node : Node}
    (reached : Relation.ReflTransGen Edge block id) (present : arena.find? id = some node)
    (other : node.kind.isBlockArgument = false) :
    ∃ held, arena.find? block = some held ∧ held.kind.isBlockArgument = false := by
  rcases reached.cases_head with rfl | ⟨child, first, _⟩
  · exact ⟨node, present, other⟩
  · rcases edges first with ⟨held, stands, member⟩ | ⟨held, list, stands, kind, _⟩
    · refine ⟨held, stands, ?_⟩
      cases kind : held.kind with
      | blockArgument name =>
          rw [kind] at member
          cases member
      | _ => rfl
    · exact ⟨held, stands, kind ▸ rfl⟩

end BlockSlots

theorem Arena.find?_of_node
    {arena : Arena} {id : NodeId} {node : Node}
    (present : arena.node id = .ok node) :
    arena.find? id = some node := by
  unfold Arena.node at present
  cases found : arena.find? id with
  | none =>
      rw [found] at present
      cases present
  | some other =>
      rw [found] at present
      cases present
      rfl

theorem Arena.find?_of_require
    {arena : Arena} {id : NodeId} {node : Node}
    (present : arena.require id = .ok node) :
    arena.find? id = some node := by
  cases found : arena.node id with
  | error cause =>
      rw [Arena.require, found] at present
      cases present
  | ok other =>
      rw [Arena.require, found] at present
      cases present
      exact Arena.find?_of_node found

theorem Arena.require_of_find?
    {arena : Arena} {id : NodeId} {node : Node}
    (present : arena.find? id = some node) :
    arena.require id = .ok node := by
  rw [Arena.require, Arena.node, present]
  rfl

theorem Arena.argumentsOf_of_find?
    {arena : Arena} {id : NodeId} {node : Node} {list : ArgumentList NodeId}
    (present : arena.find? id = some node)
    (kind : node.kind = .arguments list) :
    arena.argumentsOf id = .ok list := by
  rw [Arena.argumentsOf, Arena.require_of_find? present]
  simp only [bind, Except.bind, kind]
  rfl

theorem Arena.enclosingScope?_of_scopeOf
    {arena : Arena} {id scope : NodeId} (stands : arena.scopeOf id = .ok scope) :
    arena.enclosingScope? id = some scope := by
  unfold scopeOf at stands
  cases required : arena.require id with
  | error cause =>
      rw [required] at stands
      cases stands
  | ok node =>
      cases binds : node.kind.isScoped with
      | false => simp [bind, Except.bind, required, binds] at stands
      | true =>
          cases around : arena.enclosingScope? id with
          | none => simp [bind, Except.bind, required, binds, around] at stands
          | some other =>
              simp only [bind, Except.bind, required, binds, around] at stands
              cases stands
              rfl

theorem Arena.argumentsOf_ok
    {arena : Arena} {id : NodeId} {list : ArgumentList NodeId}
    (found : arena.argumentsOf id = .ok list) :
    ∃ node, arena.find? id = some node ∧ node.kind = .arguments list := by
  unfold argumentsOf at found
  cases required : arena.require id with
  | error cause =>
      rw [required] at found
      cases found
  | ok node =>
      refine ⟨node, find?_of_require required, ?_⟩
      cases kind : node.kind with
      | arguments other =>
          simp only [bind, Except.bind, required, kind] at found
          cases found
          rfl
      | _ =>
          simp only [bind, Except.bind, required, kind] at found
          cases found

/-- A method owns the parameters of its list of parameters. -/
theorem Arena.owningMethod?_ok
    {arena : Arena} {argument owner : NodeId} {method : Method NodeId}
    (owns : arena.owningMethod? argument = .ok (some (owner, method))) :
    (arena.parent? argument).bind arena.parent? = some owner ∧
      arena.method? owner = some method := by
  unfold owningMethod? at owns
  cases required : arena.require argument with
  | error cause =>
      rw [required] at owns
      cases owns
  | ok node =>
      rw [required] at owns
      cases isArgument : node.kind.isArgument with
      | false => simp [bind, Except.bind, isArgument] at owns
      | true =>
          cases outer : (arena.parent? argument).bind arena.parent? with
          | none =>
              simp only [bind, Except.bind, isArgument, outer] at owns
              cases owns
          | some parent =>
              cases held : arena.require parent with
              | error cause => simp [bind, Except.bind, isArgument, outer, held] at owns
              | ok holder =>
                  simp only [bind, Except.bind, isArgument, outer, held] at owns
                  cases isMethod : holder.kind.method? with
                  | none =>
                      rw [isMethod] at owns
                      cases owns
                  | some defined =>
                      rw [isMethod] at owns
                      cases owns
                      rw [method?, find?_of_require held]
                      exact ⟨rfl, isMethod⟩

/-- The keys are in ascending order, each once. -/
def Table.Ascending {ν : Type} (table : Table NodeId ν) : Prop :=
  table.keys.Pairwise (· < ·)

instance {ν : Type} (table : Table NodeId ν) : Decidable table.Ascending :=
  inferInstanceAs (Decidable (table.keys.Pairwise (· < ·)))

namespace Table

variable {ν : Type}

theorem mem_place
    {key : NodeId} {value : ν} {entries : List (NodeId × ν)} {entry : NodeId × ν}
    (member : entry ∈ place key value entries) :
    entry = (key, value) ∨ entry ∈ entries := by
  induction entries with
  | nil =>
      rw [place, List.mem_singleton] at member
      exact .inl member
  | cons other rest ih =>
      obtain ⟨candidate, old⟩ := other
      rw [place] at member
      split at member
      · rcases List.mem_cons.mp member with same | later
        · exact .inl same
        · exact .inr (List.mem_cons_of_mem _ later)
      · split at member
        · rcases List.mem_cons.mp member with same | later
          · exact .inl same
          · exact .inr later
        · rcases List.mem_cons.mp member with same | later
          · exact .inr (same ▸ List.mem_cons_self)
          · exact (ih later).imp_right (List.mem_cons_of_mem _)

theorem pairwise_place
    {key : NodeId} {value : ν} {entries : List (NodeId × ν)}
    (ascending : entries.Pairwise fun left right => left.1 < right.1) :
    (place key value entries).Pairwise fun left right => left.1 < right.1 := by
  induction entries with
  | nil => exact List.pairwise_singleton _ _
  | cons other rest ih =>
      obtain ⟨candidate, old⟩ := other
      obtain ⟨first, others⟩ := List.pairwise_cons.mp ascending
      rw [place]
      split
      · rename_i same
        exact List.pairwise_cons.mpr ⟨same ▸ first, others⟩
      · split
        · rename_i smaller
          refine List.pairwise_cons.mpr ⟨?_, ascending⟩
          intro entry member
          rcases List.mem_cons.mp member with rfl | later
          · exact smaller
          · exact Nat.lt_trans smaller (first entry later)
        · rename_i different larger
          refine List.pairwise_cons.mpr ⟨?_, ih others⟩
          intro entry member
          rcases mem_place member with rfl | later
          · exact Nat.lt_of_le_of_ne (Nat.le_of_not_lt larger) different
          · exact first entry later

theorem Ascending.insert
    {table : Table NodeId ν}
    (ascending : table.Ascending)
    (key : NodeId) (value : ν) :
    (table.insert key value).Ascending :=
  List.pairwise_map.mpr (pairwise_place (List.pairwise_map.mp ascending))

/-- Every entry is found under its key. -/
theorem Ascending.get?_of_mem
    {table : Table NodeId ν}
    (ascending : table.Ascending)
    {key : NodeId} {value : ν}
    (member : (key, value) ∈ table.entries) :
    table.get? key = some value := by
  obtain ⟨entries⟩ := table
  have ordered : entries.Pairwise fun left right => left.1 < right.1 :=
    List.pairwise_map.mp ascending
  clear ascending
  simp only [get?]
  induction entries with
  | nil => cases member
  | cons entry rest ih =>
      obtain ⟨candidate, stored⟩ := entry
      obtain ⟨first, others⟩ := List.pairwise_cons.mp ordered
      rcases List.mem_cons.mp member with same | later
      · cases same
        rw [lookup, if_pos rfl]
      · have different : candidate ≠ key := Nat.ne_of_lt (first _ later)
        rw [lookup, if_neg different]
        exact ih later others

end Table

namespace Arena

theorem mem_values_of_find?
    {arena : Arena} {id : NodeId} {node : Node} (present : arena.find? id = some node) :
    node ∈ arena.nodes.values :=
  List.mem_map.mpr ⟨_, Table.mem_entries_of_get?_eq_some present, rfl⟩

/-- Every node is stored once, under the id that it carries. -/
structure Keyed (arena : Arena) : Prop where
  ascending : arena.nodes.Ascending
  ids : ∀ entry ∈ arena.nodes.entries, entry.2.id = entry.1

theorem add_ok
    {arena after : Arena} {node : Node}
    (added : arena.add node = .ok after) :
    arena.nodes.get? node.id = none ∧
      after.nodes = arena.nodes.insert node.id node := by
  unfold Arena.add at added
  split at added
  · cases added
  · split at added
    · cases added
    · rename_i free
      cases added
      exact ⟨by simpa [Table.contains] using free, rfl⟩

namespace Keyed

theorem id_eq
    {arena : Arena} (keyed : arena.Keyed) {id : NodeId} {node : Node}
    (present : arena.find? id = some node) :
    node.id = id :=
  keyed.ids _ (Table.mem_entries_of_get?_eq_some present)

theorem find?_of_mem
    {arena : Arena} (keyed : arena.Keyed) {node : Node}
    (member : node ∈ arena.nodes.values) :
    arena.find? node.id = some node := by
  obtain ⟨⟨id, stored⟩, entry, rfl⟩ := List.mem_map.mp member
  rw [keyed.ids _ entry]
  exact keyed.ascending.get?_of_mem entry

theorem mem_methods_iff
    {arena : Arena} (keyed : arena.Keyed) {id : NodeId} {method : Method NodeId} :
    (id, method) ∈ arena.methods ↔ arena.method? id = some method := by
  constructor
  · intro member
    obtain ⟨node, stored, defines⟩ := List.mem_filterMap.mp member
    obtain ⟨other, isMethod, same⟩ := Option.map_eq_some_iff.mp defines
    cases same
    rw [method?, keyed.find?_of_mem stored]
    exact isMethod
  · intro defines
    obtain ⟨node, present, isMethod⟩ := Option.bind_eq_some_iff.mp defines
    refine List.mem_filterMap.mpr ⟨node, mem_values_of_find? present, ?_⟩
    rw [isMethod, keyed.id_eq present]
    rfl

theorem insert
    {arena : Arena} (keyed : arena.Keyed) {id nextId : NodeId} {node : Node}
    (carried : node.id = id) :
    Keyed { nodes := arena.nodes.insert id node, nextId } where
  ascending := keyed.ascending.insert id node
  ids entry member := by
    rcases Table.mem_place member with rfl | earlier
    · exact carried
    · exact keyed.ids entry earlier

theorem add
    {arena after : Arena} (keyed : arena.Keyed) {node : Node}
    (added : arena.add node = .ok after) :
    after.Keyed := by
  have inserted : Keyed { after with nodes := arena.nodes.insert node.id node } :=
    keyed.insert rfl
  rwa [← (add_ok added).2] at inserted

theorem setKind
    {arena : Arena} (keyed : arena.Keyed) (id : NodeId) (kind : Kind NodeId) :
    (arena.setKind id kind).Keyed := by
  unfold Arena.setKind
  cases present : arena.find? id with
  | none => exact keyed
  | some node =>
      have carried : node.id = id := keyed.id_eq present
      exact keyed.insert carried

end Keyed

theorem find?_setKind_self
    {arena : Arena} {id : NodeId} {node : Node} (kind : Kind NodeId)
    (present : arena.find? id = some node) :
    (arena.setKind id kind).find? id = some { node with kind } := by
  unfold Arena.setKind
  rw [present]
  exact Table.get?_insert_self _ _ _

theorem find?_setKind_of_ne
    (arena : Arena) {id other : NodeId} (kind : Kind NodeId)
    (different : other ≠ id) :
    (arena.setKind id kind).find? other = arena.find? other := by
  unfold Arena.setKind
  split
  · exact Table.get?_insert_of_ne _ different _
  · rfl

end Arena

/-- Slot by slot, the second list holds what the first one holds, or the new
node in place of the old one. -/
def Refilled (old new : NodeId) : List NodeId → List NodeId → Prop :=
  List.Forall₂ fun slot refill => refill = slot ∨ slot = old ∧ refill = new

namespace Refilled

variable {old new : NodeId}

theorem refl (held : List NodeId) : Refilled old new held held :=
  List.forall₂_same.mpr fun _ _ => .inl rfl

theorem append
    {held refilled others later : List NodeId}
    (first : Refilled old new held refilled)
    (second : Refilled old new others later) :
    Refilled old new (held ++ others) (refilled ++ later) :=
  List.rel_append first second

theorem mem
    {held refilled : List NodeId} {child : NodeId}
    (refill : Refilled old new held refilled)
    (member : child ∈ refilled) :
    child ∈ held ∨ child = new := by
  induction refill with
  | nil => cases member
  | cons slot _ ih =>
      rcases List.mem_cons.mp member with rfl | later
      · rcases slot with rfl | ⟨_, fresh⟩
        · exact .inl List.mem_cons_self
        · exact .inr fresh
      · exact (ih later).imp_left (List.mem_cons_of_mem _)

theorem mem_or_moved
    {held refilled : List NodeId} {child : NodeId}
    (refill : Refilled old new held refilled)
    (member : child ∈ held) :
    child ∈ refilled ∨ child = old ∧ new ∈ refilled := by
  induction refill with
  | nil => cases member
  | cons slot _ ih =>
      rcases List.mem_cons.mp member with rfl | later
      · rcases slot with rfl | ⟨same, rfl⟩
        · exact .inl List.mem_cons_self
        · exact .inr ⟨same, List.mem_cons_self⟩
      · exact (ih later).imp (List.mem_cons_of_mem _)
          fun ⟨same, moved⟩ => ⟨same, List.mem_cons_of_mem _ moved⟩

end Refilled

/-- Whatever the state of the search, its result has the property. -/
def Ensures {α : Type} (property : α → Prop) (step : StateM Bool α) : Prop :=
  ∀ met, property (step.run met).1

namespace Ensures

variable {α β : Type}

protected theorem pure
    {property : α → Prop} {value : α}
    (holds : property value) :
    Ensures property (pure value) :=
  fun _ => holds

protected theorem bind
    {property : α → Prop} {goal : β → Prop}
    {step : StateM Bool α} {next : α → StateM Bool β}
    (first : Ensures property step)
    (second : ∀ value, property value → Ensures goal (next value)) :
    Ensures goal (step >>= next) :=
  fun met => second _ (first met) _

variable (old new : NodeId)

theorem swapFirst (slot : NodeId) :
    Ensures (fun refill => refill = slot ∨ slot = old ∧ refill = new)
      (swapFirst old new slot) := by
  intro met
  cases met with
  | true => exact .inl rfl
  | false =>
      by_cases same : slot = old
      · right
        refine ⟨same, ?_⟩
        simp only [DeferredTyping.swapFirst, same, BEq.rfl]
        rfl
      · left
        simp only [DeferredTyping.swapFirst, beq_eq_false_iff_ne.mpr same]
        rfl

theorem swapAll (slots : List NodeId) :
    Ensures (Refilled old new slots) (slots.mapM (DeferredTyping.swapFirst old new)) := by
  induction slots with
  | nil => exact .pure .nil
  | cons slot rest ih =>
      rw [List.mapM_cons]
      exact (swapFirst old new slot).bind fun first held =>
        ih.bind fun others later => .pure (.cons held later)

theorem swapOption (slot : Option NodeId) :
    Ensures (fun refill => Refilled old new slot.toList refill.toList)
      (slot.mapM (DeferredTyping.swapFirst old new)) := by
  cases slot with
  | none => exact .pure .nil
  | some slot =>
      exact (swapFirst old new slot).bind fun first held => .pure (.cons held .nil)

end Ensures

/-- The node is a list of parameters. -/
def Kind.isArguments {α : Type} : Kind α → Bool
  | .arguments _ => true
  | _ => false

theorem Kind.isArguments_eq_true_iff
    {α : Type} {kind : Kind α} :
    kind.isArguments = true ↔ ∃ list, kind = .arguments list := by
  constructor
  · intro isList
    cases kind with
    | arguments list => exact ⟨list, rfl⟩
    | _ => cases isList
  · rintro ⟨list, rfl⟩
    rfl

theorem Kind.method?_eq_some_iff
    {α : Type} {kind : Kind α} {method : Method α} :
    kind.method? = some method ↔ kind = .methodDefinition method := by
  constructor
  · intro defines
    cases kind with
    | methodDefinition other =>
        cases defines
        rfl
    | _ => cases defines
  · rintro rfl
    rfl

/-- What a node depends on after one of its child slots was refilled.  It
stays a method definition or a list of parameters when it is one. -/
structure Kind.RefilledTo (old new : NodeId) (kind refilled : Kind NodeId) : Prop where
  isMethod : refilled.method?.isSome = kind.method?.isSome
  isArguments : refilled.isArguments = kind.isArguments
  dependencies : Refilled old new kind.dependencies refilled.dependencies

theorem Kind.refilledTo_mapChildrenM
    (old new : NodeId) (kind : Kind NodeId) :
    Ensures (kind.RefilledTo old new) (kind.mapChildrenM (swapFirst old new)) := by
  cases kind with
  | script name content =>
      exact (Ensures.swapOption old new content).bind fun _ held => .pure ⟨rfl, rfl, held⟩
  | classDefinition name superclass interfaces content =>
      exact (Ensures.swapOption old new content).bind fun _ held => .pure ⟨rfl, rfl, held⟩
  | interfaceDeclaration name interfaces content =>
      exact (Ensures.swapOption old new content).bind fun _ held => .pure ⟨rfl, rfl, held⟩
  | methodDefinition method =>
      exact (Ensures.swapFirst old new method.arguments).bind fun _ listed =>
        (Ensures.swapOption old new method.body).bind fun _ held =>
          .pure ⟨rfl, rfl, (Refilled.refl _).append (.cons listed held)⟩
  | arguments list =>
      exact (Ensures.swapAll old new list.required).bind fun _ required =>
        (Ensures.swapAll old new list.optional).bind fun _ optional =>
        (Ensures.swapOption old new list.rest).bind fun _ rest =>
        (Ensures.swapOption old new list.block).bind fun _ _ =>
          .pure ⟨rfl, rfl, (required.append optional).append rest⟩
  | optionalArgument name value =>
      exact (Ensures.swapFirst old new value).bind fun _ held =>
        .pure ⟨rfl, rfl, .cons held .nil⟩
  | block parameters content =>
      exact (Ensures.swapFirst old new parameters).bind fun _ listed =>
        (Ensures.swapOption old new content).bind fun _ held =>
          .pure ⟨rfl, rfl, .cons listed held⟩
  | body statements =>
      exact (Ensures.swapAll old new statements).bind fun _ held => .pure ⟨rfl, rfl, held⟩
  | localAssignment name value =>
      exact (Ensures.swapFirst old new value).bind fun _ held =>
        .pure ⟨rfl, rfl, .cons held .nil⟩
  | functionalCall name parameters closure =>
      exact (Ensures.swapAll old new parameters).bind fun _ given =>
        (Ensures.swapOption old new closure).bind fun _ held =>
          .pure ⟨rfl, rfl, given.append held⟩
  | call target name parameters closure =>
      exact (Ensures.swapFirst old new target).bind fun _ first =>
        (Ensures.swapAll old new parameters).bind fun _ given =>
        (Ensures.swapOption old new closure).bind fun _ held =>
          .pure ⟨rfl, rfl, .cons first (given.append held)⟩
  | superCall parameters =>
      exact (Ensures.swapAll old new parameters).bind fun _ held => .pure ⟨rfl, rfl, held⟩
  | ifElse condition thenBody elseBody =>
      exact (Ensures.swapFirst old new condition).bind fun _ first =>
        (Ensures.swapOption old new thenBody).bind fun _ second =>
        (Ensures.swapOption old new elseBody).bind fun _ third =>
          .pure ⟨rfl, rfl, .cons first (second.append third)⟩
  | returning value =>
      exact (Ensures.swapOption old new value).bind fun _ held => .pure ⟨rfl, rfl, held⟩
  | raise exception =>
      exact (Ensures.swapFirst old new exception).bind fun _ held =>
        .pure ⟨rfl, rfl, .cons held .nil⟩
  | requiredArgument _ | restArgument _ | blockArgument _ | noop | fixnum _
  | float _ | str _ | boolean _ | null | selfRef | localRead _ | constant _ =>
      exact .pure ⟨rfl, rfl, Refilled.refl _⟩

theorem Kind.refilledTo_of_replaceFirst?
    {kind replaced : Kind NodeId} {old new : NodeId}
    (found : kind.replaceFirst? old new = some replaced) :
    kind.RefilledTo old new replaced := by
  have refilled := kind.refilledTo_mapChildrenM old new false
  unfold Kind.replaceFirst? at found
  split at found
  · rename_i met
    cases found
    rwa [met] at refilled
  · cases found

theorem exists_of_bind_eq_ok
    {ε α β : Type} {first : Except ε α} {next : α → Except ε β} {value : β}
    (success : (first >>= next) = .ok value) :
    ∃ middle, first = .ok middle ∧ next middle = .ok value := by
  cases first with
  | error cause => cases success
  | ok middle => exact ⟨middle, rfl, success⟩

theorem stopped_of_bind_eq_error
    {ε α β : Type} {first : Except ε α} {next : α → Except ε β} {cause : ε}
    (refused : (first >>= next) = .error cause) :
    first = .error cause ∨ ∃ middle, first = .ok middle ∧ next middle = .error cause := by
  cases first with
  | error other => exact .inl (congrArg Except.error (Except.error.inj refused))
  | ok middle => exact .inr ⟨middle, rfl, refused⟩

namespace Arena

/-- A replacement carries the parent already, and takes the place of a child in the node
that holds it. -/
theorem replaceChild_replaces
    {arena after : Arena} {parent old new : NodeId}
    (replaced : arena.replaceChild parent old new = .ok after) :
    ∃ newNode node kind, arena.find? new = some newNode ∧ newNode.parent = some parent ∧
      arena.find? parent = some node ∧ node.kind.replaceFirst? old new = some kind ∧
      after = arena.setKind parent kind := by
  obtain ⟨newNode, present, placed⟩ := exists_of_bind_eq_ok replaced
  dsimp only at placed
  split at placed
  · rename_i carried
    obtain ⟨node, held, found⟩ := exists_of_bind_eq_ok placed
    split at found
    · rename_i kind refilled
      cases found
      exact ⟨newNode, node, kind, find?_of_node present, by simpa using carried,
        find?_of_node held, refilled, rfl⟩
    · cases found
  · cases placed

/-- A child is replaced in the node that holds it, and nowhere else. -/
theorem replaceChild_ok
    {arena after : Arena} {parent old new : NodeId}
    (replaced : arena.replaceChild parent old new = .ok after) :
    ∃ node kind, arena.find? parent = some node ∧
      node.kind.RefilledTo old new kind ∧ after = arena.setKind parent kind := by
  obtain ⟨_, node, kind, _, _, held, refilled, ended⟩ := replaceChild_replaces replaced
  exact ⟨node, kind, held, Kind.refilledTo_of_replaceFirst? refilled, ended⟩

/-- Nodes were added and none was changed; the new ones have a parent. -/
structure Grows (before after : Arena) : Prop where
  kept : ∀ {id node}, before.find? id = some node → after.find? id = some node
  parented : ∀ {id node}, after.find? id = some node → before.find? id = none →
    node.parent ≠ none
  keyed : before.Keyed → after.Keyed

namespace Grows

theorem refl (arena : Arena) : arena.Grows arena where
  kept present := present
  parented present absent := by
    rw [absent] at present
    cases present
  keyed keyed := keyed

/-- A node that is added with a parent. -/
theorem add
    {arena after : Arena} {node : Node}
    (added : arena.add node = .ok after)
    (parented : node.parent ≠ none) :
    arena.Grows after := by
  obtain ⟨absent, stored⟩ := add_ok added
  refine ⟨?_, ?_, fun keyed => keyed.add added⟩
  · intro id other present
    rw [find?, stored]
    exact Table.get?_insert_of_known absent present
  · intro id other present unknown
    rw [find?, stored] at present
    rcases Table.get?_insert_eq_some present with ⟨_, rfl⟩ | ⟨_, before⟩
    · exact parented
    · cases unknown.symm.trans before

end Grows

/-- A walk meets nodes that are reached from its stack. -/
theorem reached_of_mem_walkFrom
    {arena : Arena} {accepts : Node → Bool} {steps : Nat} {stack : List NodeId}
    {node : Node}
    (member : node ∈ arena.walkFrom accepts steps stack) :
    ∃ start ∈ stack, ∃ id, Relation.ReflTransGen arena.HasChild start id ∧
      arena.find? id = some node ∧ accepts node = true := by
  induction steps generalizing stack with
  | zero => cases member
  | succ steps ih =>
      cases stack with
      | nil => cases member
      | cons top stack =>
          rw [walkFrom] at member
          cases present : arena.find? top with
          | none =>
              rw [present] at member
              obtain ⟨start, below, reached⟩ := ih member
              exact ⟨start, List.mem_cons_of_mem _ below, reached⟩
          | some found =>
              have later : node ∈ arena.walkFrom accepts steps (found.children ++ stack) →
                  ∃ start ∈ top :: stack, ∃ id,
                    Relation.ReflTransGen arena.HasChild start id ∧
                    arena.find? id = some node ∧ accepts node = true := by
                intro member
                obtain ⟨start, below, id, reached, rest⟩ := ih member
                rcases List.mem_append.mp below with child | waiting
                · exact ⟨top, List.mem_cons_self, id,
                    .head ⟨found, present, child⟩ reached, rest⟩
                · exact ⟨start, List.mem_cons_of_mem _ waiting, id, reached, rest⟩
              rw [present] at member
              dsimp only at member
              split at member
              · rename_i accepted
                rcases List.mem_cons.mp member with rfl | other
                · exact ⟨top, List.mem_cons_self, top, .refl, present, accepted⟩
                · exact later other
              · exact later member

theorem reached_of_mem_walk
    {arena : Arena} {accepts : Node → Bool} {start : NodeId} {node : Node}
    (member : node ∈ arena.walk start accepts) :
    ∃ id, Relation.ReflTransGen arena.HasChild start id ∧
      arena.find? id = some node ∧ accepts node = true := by
  obtain ⟨top, only, reached⟩ := reached_of_mem_walkFrom member
  rw [List.mem_singleton] at only
  exact only ▸ reached

end Arena

end DeferredTyping
