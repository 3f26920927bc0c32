import Mathlib.Data.List.Nodup
import DeferredTyping.Proofs.Trees
import DeferredTyping.Tree.Edit

/-!
# Parent links and child slots

An arena is well linked when its two records of an edge agree: what a child slot holds
is a node that names the holder as its parent, and no node is held twice.  Edits keep
this although none of them compares the two records, and they never change the parent
of a node that is there.

A replacement goes into the first slot that holds the old node; as that node is held
once, it is in no slot afterwards.
-/

namespace DeferredTyping

/-- The first place of one element is taken by another one. -/
inductive ReplacesFirst {α : Type} (old new : α) : List α → List α → Prop where
  | here (rest : List α) : ReplacesFirst old new (old :: rest) (new :: rest)
  | there {head : α} {rest replaced : List α} (different : head ≠ old)
      (later : ReplacesFirst old new rest replaced) :
      ReplacesFirst old new (head :: rest) (head :: replaced)

namespace ReplacesFirst

variable {α : Type} {old new : α} {held replaced : List α}

theorem mem_old (replaces : ReplacesFirst old new held replaced) : old ∈ held := by
  induction replaces with
  | here _ => exact List.mem_cons_self
  | there _ _ ih => exact List.mem_cons_of_mem _ ih

theorem mem_replaced
    (replaces : ReplacesFirst old new held replaced) {other : α}
    (member : other ∈ replaced) :
    other = new ∨ other ∈ held := by
  induction replaces with
  | here rest => exact (List.mem_cons.mp member).imp_right (List.mem_cons_of_mem _)
  | there _ _ ih =>
      rcases List.mem_cons.mp member with rfl | later
      · exact .inr List.mem_cons_self
      · exact (ih later).imp_right (List.mem_cons_of_mem _)

/-- Everything stays in its place, but for the old element that gives way to the new one. -/
theorem forall₂
    (replaces : ReplacesFirst old new held replaced) {relation : α → α → Prop}
    (refl : ∀ other, relation other other) (moved : relation old new) :
    List.Forall₂ relation held replaced := by
  induction replaces with
  | here rest => exact .cons moved (List.forall₂_same.mpr fun other _ => refl other)
  | there _ _ ih => exact .cons (refl _) ih

/-- Where nothing is held twice, nothing is afterwards, and the old element is gone. -/
theorem nodup
    (replaces : ReplacesFirst old new held replaced) (distinct : held.Nodup)
    (absent : new ∉ held) :
    replaced.Nodup ∧ old ∉ replaced := by
  induction replaces with
  | here rest =>
      obtain ⟨first, others⟩ := List.nodup_cons.mp distinct
      exact ⟨List.nodup_cons.mpr ⟨List.not_mem_of_not_mem_cons absent, others⟩,
        List.not_mem_cons_of_ne_of_not_mem (List.ne_of_not_mem_cons absent).symm first⟩
  | there different later ih =>
      obtain ⟨first, others⟩ := List.nodup_cons.mp distinct
      obtain ⟨once, gone⟩ := ih others (List.not_mem_of_not_mem_cons absent)
      refine ⟨List.nodup_cons.mpr ⟨?_, once⟩,
        List.not_mem_cons_of_ne_of_not_mem different.symm gone⟩
      intro member
      rcases later.mem_replaced member with same | earlier
      · exact List.ne_of_not_mem_cons absent same.symm
      · exact first earlier

end ReplacesFirst

/-- A search that has met its slot leaves the other slots alone. -/
theorem run_swapAll_true (old new : NodeId) (slots : List NodeId) :
    (slots.mapM (swapFirst old new)).run true = (slots, true) := by
  induction slots with
  | nil => rfl
  | cons slot rest ih =>
      rw [List.mapM_cons]
      exact congrArg (fun found => (slot :: found.1, found.2)) ih

/-- The first slot is taken when it holds the old node. -/
theorem run_swapAll_here (old new : NodeId) (rest : List NodeId) :
    ((old :: rest).mapM (swapFirst old new)).run false = (new :: rest, true) := by
  have met : (swapFirst old new old).run false = (new, true) := by
    simp only [swapFirst, BEq.rfl]
    rfl
  rw [List.mapM_cons, StateT.run_bind, met]
  exact congrArg (fun found => (new :: found.1, found.2)) (run_swapAll_true old new rest)

/-- A search over slots takes the first one that holds the old node, or none does. -/
theorem run_swapAll_false (old new : NodeId) (slots : List NodeId) :
    (∃ replaced, ReplacesFirst old new slots replaced ∧
      (slots.mapM (swapFirst old new)).run false = (replaced, true)) ∨
    (slots.mapM (swapFirst old new)).run false = (slots, false) := by
  induction slots with
  | nil => exact .inr rfl
  | cons slot rest ih =>
      by_cases same : slot = old
      · subst same
        exact .inl ⟨new :: rest, .here rest, run_swapAll_here slot new rest⟩
      · have missed : (swapFirst old new slot).run false = (slot, false) := by
          simp only [swapFirst, beq_eq_false_iff_ne.mpr same]
          rfl
        rw [List.mapM_cons, StateT.run_bind, missed]
        rcases ih with ⟨replaced, replaces, run⟩ | run
        · exact .inl ⟨slot :: replaced, .there same replaces,
            congrArg (fun found : List NodeId × Bool => (slot :: found.1, found.2)) run⟩
        · exact .inr <|
            congrArg (fun found : List NodeId × Bool => (slot :: found.1, found.2)) run

/-- Refilling the child slots of a node is refilling the list of its children. -/
theorem Kind.children_mapChildrenM {m : Type → Type} [Monad m] [LawfulMonad m] {α : Type}
    (visit : α → m α) (kind : Kind α) :
    Kind.children <$> kind.mapChildrenM visit = kind.children.mapM visit := by
  have slot : ∀ content : Option α,
      content.toList.mapM visit = Option.toList <$> content.mapM visit := by
    rintro (_ | content) <;> simp
  cases kind <;> simp [children, mapChildrenM, List.mapM_append, slot]

theorem Kind.replacesFirst_of_replaceFirst? {kind replaced : Kind NodeId} {old new : NodeId}
    (found : kind.replaceFirst? old new = some replaced) :
    ReplacesFirst old new kind.children replaced.children := by
  have run : (kind.mapChildrenM (swapFirst old new)).run false = (replaced, true) := by
    unfold replaceFirst? at found
    split at found
    · rename_i met
      cases found
      exact met
    · cases found
  have slots := congrArg (fun step => StateT.run step false)
    (kind.children_mapChildrenM (swapFirst old new))
  rw [StateT.run_map, run] at slots
  rcases run_swapAll_false old new kind.children with ⟨other, replaces, swapped⟩ | swapped
  · rw [swapped] at slots
    obtain rfl : replaced.children = other := congrArg Prod.fst slots
    exact replaces
  · rw [swapped] at slots
    cases congrArg Prod.snd slots
namespace Arena

variable {arena after : Arena}

/-- What a child slot holds is a node with the holder as its parent, and no id is in two
child slots. -/
structure WellLinked (arena : Arena) : Prop where
  linked : ∀ {parent child}, child ∈ arena.children parent →
    ∃ node, arena.find? child = some node ∧ node.parent = some parent
  once : ∀ {first second child} {left right : Nat}, (arena.children first)[left]? = some child →
    (arena.children second)[right]? = some child → first = second ∧ left = right

/-- The nodes that were there still are, and what the view shows of them is the same. -/
def Keeps {γ : Type} (view : Node → γ) (before after : Arena) : Prop :=
  ∀ ⦃id node⦄, before.find? id = some node →
    ∃ later, after.find? id = some later ∧ view later = view node

theorem find?_add
    {node : Node} (added : arena.add node = .ok after) :
    arena.find? node.id = none ∧ after.find? node.id = some node ∧
      ∀ {id}, id ≠ node.id → after.find? id = arena.find? id := by
  obtain ⟨absent, stored⟩ := add_ok added
  refine ⟨absent, ?_, ?_⟩
  · rw [find?, stored]
    exact Table.get?_insert_self _ _ _
  · intro id different
    rw [find?, stored]
    exact Table.get?_insert_of_ne _ different _

namespace Keeps

variable {γ : Type} {view : Node → γ}

theorem refl (view : Node → γ) (arena : Arena) : Keeps view arena arena :=
  fun _ _ present => ⟨_, present, rfl⟩

theorem trans
    {first second third : Arena}
    (early : Keeps view first second) (late : Keeps view second third) :
    Keeps view first third := by
  intro id node present
  obtain ⟨between, kept, same⟩ := early present
  obtain ⟨later, last, still⟩ := late kept
  exact ⟨later, last, still.trans same⟩

theorem add (view : Node → γ) {node : Node} (added : arena.add node = .ok after) :
    Keeps view arena after := by
  obtain ⟨absent, _, others⟩ := find?_add added
  intro id other present
  have different : id ≠ node.id := by
    rintro rfl
    rw [absent] at present
    cases present
  exact ⟨other, (others different).trans present, rfl⟩

theorem setKind {id : NodeId} {kind : Kind NodeId}
    (same : ∀ {node}, arena.find? id = some node → view { node with kind } = view node) :
    Keeps view arena (arena.setKind id kind) := by
  intro other node present
  by_cases here : other = id
  · subst here
    exact ⟨{ node with kind }, find?_setKind_self kind present, same present⟩
  · exact ⟨node, (find?_setKind_of_ne arena kind here).trans present, rfl⟩

end Keeps

/-- The nodes that were there still are, with the same parents. -/
def KeepsParents (before after : Arena) : Prop :=
  ∀ ⦃id node⦄, before.find? id = some node →
    ∃ later, after.find? id = some later ∧ later.parent = node.parent

theorem KeepsParents.refl (arena : Arena) : arena.KeepsParents arena :=
  Keeps.refl Node.parent arena

theorem KeepsParents.trans
    {first second third : Arena}
    (early : first.KeepsParents second) (late : second.KeepsParents third) :
    first.KeepsParents third :=
  Keeps.trans early late

theorem unheld_of_entries
    {child : NodeId} (entries : ∀ entry ∈ arena.nodes.entries, child ∉ entry.2.children)
    (holder : NodeId) :
    child ∉ arena.children holder := by
  cases present : arena.find? holder with
  | none =>
      rw [children_of_find?_eq_none present]
      exact List.not_mem_nil
  | some node =>
      rw [children_of_find? present]
      exact entries _ (Table.mem_entries_of_get?_eq_some present)

namespace WellLinked

theorem parent_eq
    (linked : arena.WellLinked) {first second child : NodeId}
    (held : child ∈ arena.children first) (also : child ∈ arena.children second) :
    first = second := by
  obtain ⟨node, present, carried⟩ := linked.linked held
  obtain ⟨other, still, named⟩ := linked.linked also
  obtain rfl := Option.some.inj (present.symm.trans still)
  exact Option.some.inj (carried.symm.trans named)

theorem nodup (linked : arena.WellLinked) (parent : NodeId) :
    (arena.children parent).Nodup := by
  rw [List.nodup_iff_getElem?_ne_getElem?]
  intro left right order inside same
  have bound : left < (arena.children parent).length := Nat.lt_trans order inside
  have held : (arena.children parent)[left]? = some (arena.children parent)[left] :=
    List.getElem?_eq_getElem bound
  exact Nat.ne_of_lt order (linked.once held (same ▸ held)).2

/-- It is enough that no node holds another one twice: the parent link tells the holder. -/
theorem of_nodup
    (linked : ∀ {parent child}, child ∈ arena.children parent →
      ∃ node, arena.find? child = some node ∧ node.parent = some parent)
    (distinct : ∀ parent, (arena.children parent).Nodup) :
    arena.WellLinked where
  linked := linked
  once {first second child left right} held also := by
    obtain ⟨node, present, carried⟩ := linked (List.mem_of_getElem? held)
    obtain ⟨other, still, named⟩ := linked (List.mem_of_getElem? also)
    obtain rfl := Option.some.inj (present.symm.trans still)
    obtain rfl := Option.some.inj (carried.symm.trans named)
    refine ⟨rfl, ?_⟩
    obtain ⟨inside, _⟩ := List.getElem?_eq_some_iff.mp held
    exact (List.getElem?_inj inside (distinct first)).mp (held.trans also.symm)

theorem of_entries
    (entries : ∀ entry ∈ arena.nodes.entries, entry.2.children.Nodup ∧
      ∀ child ∈ entry.2.children, arena.parent? child = some entry.1) :
    arena.WellLinked := by
  refine .of_nodup ?_ ?_
  · intro parent child held
    cases present : arena.find? parent with
    | none =>
        rw [children_of_find?_eq_none present] at held
        cases held
    | some node =>
        rw [children_of_find? present] at held
        exact Option.bind_eq_some_iff.mp <|
          (entries _ (Table.mem_entries_of_get?_eq_some present)).2 child held
  · intro parent
    cases present : arena.find? parent with
    | none => exact children_of_find?_eq_none present ▸ List.nodup_nil
    | some node =>
        rw [children_of_find? present]
        exact (entries _ (Table.mem_entries_of_get?_eq_some present)).1

theorem empty : Arena.empty.WellLinked :=
  .of_nodup (fun held => nomatch held) fun _ => List.nodup_nil

end WellLinked

theorem keepsParents_add {node : Node} (added : arena.add node = .ok after) :
    arena.KeepsParents after :=
  Keeps.add Node.parent added

/-- A node may be added above nodes that name it as their parent already. -/
theorem WellLinked.add
    (linked : arena.WellLinked) {node : Node} (added : arena.add node = .ok after)
    (distinct : node.children.Nodup)
    (named : ∀ child ∈ node.children, ∃ other, arena.find? child = some other ∧
      other.parent = some node.id) :
    after.WellLinked := by
  obtain ⟨_, stored, others⟩ := find?_add added
  have kept := keepsParents_add added
  refine .of_nodup ?_ ?_
  · intro parent child held
    have present : ∃ other, arena.find? child = some other ∧ other.parent = some parent := by
      by_cases same : parent = node.id
      · subst same
        rw [children_of_find? stored] at held
        exact named child held
      · rw [children, others same] at held
        exact linked.linked held
    obtain ⟨other, found, carried⟩ := present
    obtain ⟨later, still, same⟩ := kept found
    exact ⟨later, still, same.trans carried⟩
  · intro parent
    by_cases same : parent = node.id
    · subst same
      rw [children_of_find? stored]
      exact distinct
    · rw [children, others same]
      exact linked.nodup parent

/-- A node that is added is in no slot, unless in its own. -/
theorem WellLinked.not_mem_children_add
    (linked : arena.WellLinked) {node : Node} (added : arena.add node = .ok after)
    (apart : node.id ∉ node.children) (parent : NodeId) :
    node.id ∉ after.children parent := by
  obtain ⟨absent, stored, others⟩ := find?_add added
  intro held
  by_cases same : parent = node.id
  · subst same
    rw [children_of_find? stored] at held
    exact apart held
  · rw [children, others same] at held
    obtain ⟨other, present, _⟩ := linked.linked held
    rw [absent] at present
    cases present

theorem keepsParents_setKind (arena : Arena) (id : NodeId) (kind : Kind NodeId) :
    arena.KeepsParents (arena.setKind id kind) := by
  refine Keeps.setKind ?_
  exact fun _ => rfl

theorem children_setKind_of_ne (arena : Arena) {id other : NodeId} (kind : Kind NodeId)
    (different : other ≠ id) :
    (arena.setKind id kind).children other = arena.children other := by
  rw [children, find?_setKind_of_ne arena kind different, children]

/-- Another kind of node with the same children. -/
theorem WellLinked.setKind
    (linked : arena.WellLinked) {id : NodeId} {node : Node} {kind : Kind NodeId}
    (present : arena.find? id = some node) (same : kind.children = node.children) :
    (arena.setKind id kind).WellLinked := by
  have children : ∀ parent, (arena.setKind id kind).children parent =
      arena.children parent := by
    intro parent
    by_cases here : parent = id
    · subst here
      rw [children_of_find? (find?_setKind_self kind present), children_of_find? present]
      exact same
    · exact children_setKind_of_ne arena kind here
  refine .of_nodup ?_ fun parent => children parent ▸ linked.nodup parent
  intro parent child held
  rw [children] at held
  obtain ⟨other, found, carried⟩ := linked.linked held
  obtain ⟨later, still, kept⟩ := keepsParents_setKind arena id kind found
  exact ⟨later, still, kept.trans carried⟩

theorem keepsParents_replaceChild
    {parent old new : NodeId} (replaced : arena.replaceChild parent old new = .ok after) :
    arena.KeepsParents after := by
  obtain ⟨_, _, kind, _, _, _, _, rfl⟩ := replaceChild_replaces replaced
  exact keepsParents_setKind arena parent kind

/-- Replacing a child takes one slot of the parent and no slot of another node. -/
theorem replacesFirst_replaceChild
    {parent old new : NodeId} (replaced : arena.replaceChild parent old new = .ok after) :
    ReplacesFirst old new (arena.children parent) (after.children parent) ∧
      ∀ {holder}, holder ≠ parent → after.children holder = arena.children holder := by
  obtain ⟨_, node, kind, _, _, held, refilled, rfl⟩ := replaceChild_replaces replaced
  refine ⟨?_, fun different => children_setKind_of_ne arena kind different⟩
  rw [children_of_find? held, children_of_find? (find?_setKind_self kind held)]
  exact Kind.replacesFirst_of_replaceFirst? refilled

/-- A node that sits in no slot may replace a child, which then sits in none. -/
theorem WellLinked.replaceChild
    (linked : arena.WellLinked) {parent old new : NodeId}
    (unheld : ∀ holder, new ∉ arena.children holder)
    (replaced : arena.replaceChild parent old new = .ok after) :
    after.WellLinked ∧ ∀ holder, old ∉ after.children holder := by
  have kept := keepsParents_replaceChild replaced
  obtain ⟨replaces, others⟩ := replacesFirst_replaceChild replaced
  obtain ⟨newNode, _, _, present, carried, _⟩ := replaceChild_replaces replaced
  obtain ⟨once, gone⟩ := replaces.nodup (linked.nodup parent) (unheld parent)
  refine ⟨.of_nodup ?_ ?_, ?_⟩
  · intro holder child member
    have found : ∃ other, arena.find? child = some other ∧ other.parent = some holder := by
      by_cases same : holder = parent
      · subst same
        rcases replaces.mem_replaced member with rfl | earlier
        · exact ⟨newNode, present, carried⟩
        · exact linked.linked earlier
      · rw [others same] at member
        exact linked.linked member
    obtain ⟨other, earlier, named⟩ := found
    obtain ⟨later, still, same⟩ := kept earlier
    exact ⟨later, still, same.trans named⟩
  · intro holder
    by_cases same : holder = parent
    · subst same
      exact once
    · rw [others same]
      exact linked.nodup holder
  · intro holder member
    by_cases same : holder = parent
    · subst same
      exact gone member
    · rw [others same] at member
      exact same (linked.parent_eq member replaces.mem_old)

/-- An edit that is safe in every arena: parents stay, and so do good links. -/
structure StaysLinked (before after : Arena) : Prop where
  parents : before.KeepsParents after
  linked : before.WellLinked → after.WellLinked

namespace StaysLinked

theorem refl (arena : Arena) : arena.StaysLinked arena where
  parents := .refl arena
  linked linked := linked

theorem trans
    {first second third : Arena}
    (early : first.StaysLinked second) (late : second.StaysLinked third) :
    first.StaysLinked third where
  parents := early.parents.trans late.parents
  linked linked := late.linked (early.linked linked)

/-- Arenas with the same nodes are linked alike. -/
theorem of_find?_eq (same : ∀ id, after.find? id = arena.find? id) :
    arena.StaysLinked after := by
  have children : ∀ parent, after.children parent = arena.children parent := by
    intro parent
    rw [children, same, Arena.children]
  refine ⟨fun id node present => ⟨node, (same id).trans present, rfl⟩, fun linked => ?_⟩
  refine .of_nodup ?_ fun parent => children parent ▸ linked.nodup parent
  intro parent child held
  rw [same]
  exact linked.linked (children parent ▸ held)

end StaysLinked

/-- Recording a delegation keeps the children of a method definition. -/
theorem children_record (call : Delegation) (method : Method NodeId) :
    (Kind.methodDefinition (call.record method)).children =
      (Kind.methodDefinition method).children := by
  cases call <;> rfl

/-- The node that takes the place of a delegation is new, and its method keeps its
children. -/
theorem staysLinked_detach
    {constructor : Node} {holder first : NodeId} {call : Delegation}
    (detached : arena.detach constructor holder first call = .ok after) :
    arena.StaysLinked after := by
  have reserved : arena.StaysLinked arena.reserve.2 := .of_find?_eq fun _ => rfl
  obtain ⟨grown, added, replaced⟩ := exists_of_bind_eq_ok detached
  obtain ⟨edited, swapped, recorded⟩ := exists_of_bind_eq_ok replaced
  have early : arena.StaysLinked edited := by
    refine reserved.trans
      ⟨(keepsParents_add added).trans (keepsParents_replaceChild swapped), ?_⟩
    intro before
    have linked := before.add added List.nodup_nil fun _ child => nomatch child
    exact (linked.replaceChild (before.not_mem_children_add added nofun) swapped).1
  cases defines : edited.method? constructor.id with
  | none =>
      rw [defines] at recorded
      cases recorded
      exact early
  | some method =>
      rw [defines] at recorded
      cases recorded
      obtain ⟨node, present, isMethod⟩ := Option.bind_eq_some_iff.mp defines
      refine early.trans ⟨keepsParents_setKind _ _ _, fun before => before.setKind present ?_⟩
      rw [children_record, Node.children, Kind.method?_eq_some_iff.mp isMethod]

/-- Splitting off a delegation leaves the arena alone or detaches one. -/
theorem staysLinked_extractDelegation
    {id : NodeId} (extracted : arena.extractDelegation id = .ok after) :
    arena.StaysLinked after := by
  have unchanged : ∀ {other : Arena}, (Except.ok arena : Except TreeError Arena) = .ok other →
      arena.StaysLinked other := by
    rintro _ ⟨⟩
    exact .refl arena
  obtain ⟨constructor, present, splits⟩ := exists_of_bind_eq_ok extracted
  split at splits
  · rename_i method kind
    by_cases constructs : method.isConstructor
    · rw [if_pos constructs] at splits
      split at splits
      · exact unchanged splits
      · split at splits
        · obtain ⟨leading, leads, found⟩ := exists_of_bind_eq_ok splits
          split at found
          · obtain ⟨statement, stands, calls⟩ := exists_of_bind_eq_ok found
            split at calls
            · exact staysLinked_detach calls
            · exact unchanged calls
          · exact unchanged found
        · exact unchanged splits
    · rw [if_neg constructs] at splits
      cases splits
  · cases splits

end Arena

end DeferredTyping
