import DeferredTyping.Proofs.Visibility

/-!
# A part of an arena

An arena may hold trees that have nothing to do with each other.  When no link leads
from one side of a division to the other, each side is an arena of its own: what is
read off the tree at a node is the same in the part as in the whole.  Lineages are
bounded by the number of nodes, which is smaller in the part; where no node is its own
ancestor, the bound is never reached in either.
-/

namespace DeferredTyping

theorem mapM_congr
    {m : Type → Type} [Monad m] [LawfulMonad m] {α β : Type} {list : List α}
    {function other : α → m β} (same : ∀ item ∈ list, function item = other item) :
    list.mapM function = list.mapM other := by
  induction list with
  | nil => rfl
  | cons item rest ih =>
      rw [List.mapM_cons, List.mapM_cons, same item List.mem_cons_self,
        ih fun later member => same later (List.mem_cons_of_mem item member)]

namespace Table

variable {κ ν : Type} [DecidableEq κ]

theorem lookup_filter (accepts : κ → Bool) (key : κ) (entries : List (κ × ν)) :
    lookup key (entries.filter fun entry => accepts entry.1) =
      if accepts key then lookup key entries else none := by
  induction entries with
  | nil => simp [lookup]
  | cons entry rest ih =>
      obtain ⟨candidate, value⟩ := entry
      rw [List.filter_cons, lookup]
      by_cases same : candidate = key
      · subst same
        cases accepted : accepts candidate with
        | true => simp [lookup]
        | false => simpa [accepted] using ih
      · rw [if_neg same]
        split
        · rw [lookup, if_neg same, ih]
        · exact ih

end Table

namespace Arena

/-- The nodes of an arena whose ids are accepted. -/
def only (arena : Arena) (inside : NodeId → Bool) : Arena :=
  { arena with nodes := ⟨arena.nodes.entries.filter fun entry => inside entry.1⟩ }

/-- The second node is the parent of the first. -/
def HasParent (arena : Arena) (id parent : NodeId) : Prop :=
  arena.parent? id = some parent

/-- No node is its own ancestor. -/
def Climbs (arena : Arena) : Prop :=
  ∀ id, ¬ Relation.TransGen arena.HasParent id id

/-- A tree in which every node is numbered behind its parent has no cycle. -/
theorem climbs_of_descending {arena : Arena}
    (descending : ∀ entry ∈ arena.nodes.entries, ∀ parent ∈ entry.2.parent, parent < entry.1) :
    arena.Climbs := by
  intro id cycle
  have edge : ∀ id parent, arena.HasParent id parent → parent < id := by
    intro id parent above
    obtain ⟨node, present, parent⟩ := Option.bind_eq_some_iff.mp above
    exact descending _ (Table.mem_entries_of_get?_eq_some present) _ parent
  have path : Relation.TransGen (fun id parent => parent < id) id id :=
    Relation.TransGen.mono edge _ _ cycle
  rw [Relation.transGen_eq_self (r := fun id parent : NodeId => parent < id)] at path
  exact Nat.lt_irrefl id path

/-- No link leads from one side to the other, neither to a parent nor to a node that a
rule visits. -/
structure Separates (arena : Arena) (inside : NodeId → Bool) : Prop where
  parent : ∀ {id parent}, arena.HasParent id parent → inside parent = inside id
  depends : ∀ {id child}, arena.DependsOn id child → inside child = inside id

theorem separates_of_entries {arena : Arena} {inside : NodeId → Bool}
    (parents : ∀ entry ∈ arena.nodes.entries, ∀ parent ∈ entry.2.parent,
      inside parent = inside entry.1)
    (children : ∀ entry ∈ arena.nodes.entries, ∀ child ∈ entry.2.kind.dependencies,
      inside child = inside entry.1) :
    arena.Separates inside where
  parent above := by
    obtain ⟨node, present, parent⟩ := Option.bind_eq_some_iff.mp above
    exact parents _ (Table.mem_entries_of_get?_eq_some present) _ parent
  depends dependence := by
    obtain ⟨node, present, child⟩ := dependence
    exact children _ (Table.mem_entries_of_get?_eq_some present) _ child

section Lineage

variable {arena : Arena}

/-- Along a path of nodes that are each other's children the parents never come back,
so the path and the lineage above it are no longer than the arena. -/
theorem length_lineageWithin_le
    (climbs : arena.Climbs) (steps : Nat) {id : NodeId} {path : List NodeId}
    (trail : arena.Trail arena.HasParent path id) :
    path.length + (arena.lineageWithin steps (some id)).length ≤ arena.size := by
  induction steps generalizing id path with
  | zero => exact trail.length_le
  | succ steps ih =>
      rw [lineageWithin]
      cases present : arena.find? id with
      | none => exact trail.length_le
      | some node =>
          cases above : node.parent with
          | none =>
              have empty : arena.lineageWithin steps none = [] := by cases steps <;> rfl
              simp only [above, empty, List.length_cons, List.length_nil]
              exact trail.length_lt (climbs id) present
          | some parent =>
              have edge : arena.HasParent id parent := by
                rw [HasParent, parent?, present]
                exact above
              have shorter := ih (trail.cons (climbs id) present edge)
              rw [List.length_cons] at shorter
              simp only [above, List.length_cons]
              omega

theorem lineageWithin_succ_of_length_lt
    (arena : Arena) {steps : Nat} {start : Option NodeId}
    (short : (arena.lineageWithin steps start).length < steps) :
    arena.lineageWithin (steps + 1) start = arena.lineageWithin steps start := by
  induction steps generalizing start with
  | zero => cases short
  | succ steps ih =>
      cases start with
      | none => rfl
      | some id =>
          rw [lineageWithin] at short ⊢
          rw [lineageWithin]
          cases present : arena.find? id with
          | none => rfl
          | some node =>
              rw [present] at short
              exact congrArg (node :: ·) (ih (Nat.lt_of_succ_lt_succ short))

/-- As many steps as there are nodes lead to the root. -/
theorem lineageWithin_eq_lineage
    (climbs : arena.Climbs) {steps : Nat} (enough : arena.size ≤ steps) (id : NodeId) :
    arena.lineageWithin steps (some id) = arena.lineage id := by
  have bounded : ∀ steps, (arena.lineageWithin steps (some id)).length ≤ arena.size := by
    intro steps
    simpa using length_lineageWithin_le climbs steps (.nil : arena.Trail _ [] id)
  induction enough with
  | refl => rfl
  | @step steps enough ih =>
      rw [Nat.succ_eq_add_one, ← ih]
      by_cases short : (arena.lineageWithin steps (some id)).length < steps
      · exact arena.lineageWithin_succ_of_length_lt short
      · have longer := bounded (steps + 1)
        have front := arena.lineageWithin_prefix (Nat.le_add_right steps 1) (some id)
        have size : arena.size ≤ steps := enough
        exact (front.eq_of_length_le (by omega)).symm

end Lineage

section Part

variable {arena : Arena} {inside : NodeId → Bool}

theorem find?_only (id : NodeId) :
    (arena.only inside).find? id = if inside id then arena.find? id else none :=
  Table.lookup_filter inside id arena.nodes.entries

theorem find?_only_of_inside {id : NodeId} (within : inside id = true) :
    (arena.only inside).find? id = arena.find? id := by
  rw [find?_only, if_pos within]

theorem find?_of_find?_only
    {id : NodeId} {node : Node} (present : (arena.only inside).find? id = some node) :
    inside id = true ∧ arena.find? id = some node := by
  rw [find?_only] at present
  split at present
  · exact ⟨by assumption, present⟩
  · cases present

theorem size_only_le : (arena.only inside).size ≤ arena.size :=
  List.length_filter_le _ _

theorem Keyed.only (keyed : arena.Keyed) (inside : NodeId → Bool) :
    (arena.only inside).Keyed where
  ascending := List.Pairwise.sublist (List.filter_sublist.map Prod.fst) keyed.ascending
  ids entry member := keyed.ids entry (List.mem_of_mem_filter member)

/-- The nodes of the part are the nodes of the whole with an accepted id, in the same
order. -/
theorem values_only (keyed : arena.Keyed) (inside : NodeId → Bool) :
    (arena.only inside).nodes.values =
      arena.nodes.values.filter fun node => inside node.id := by
  rw [Table.values, Table.values, List.filter_map]
  apply congrArg (List.map Prod.snd)
  apply List.filter_congr
  intro entry member
  simp [keyed.ids entry member]

theorem roots_only (keyed : arena.Keyed) (inside : NodeId → Bool) :
    (arena.only inside).roots = arena.roots.filter fun node => inside node.id := by
  rw [roots, roots, select, select, values_only keyed, List.filter_filter,
    List.filter_filter]
  simp only [Bool.and_comm]

theorem methods_only (keyed : arena.Keyed) (inside : NodeId → Bool) :
    (arena.only inside).methods = arena.methods.filter fun entry => inside entry.1 := by
  rw [methods, methods, values_only keyed, List.filter_filterMap, List.filterMap_filter]
  apply List.filterMap_congr
  intro node _
  cases defines : node.kind.method? with
  | none => simp
  | some method => cases within : inside node.id <;> simp [within, Option.filter]

theorem DependsOn.of_only
    {id child : NodeId} (dependence : (arena.only inside).DependsOn id child) :
    arena.DependsOn id child := by
  obtain ⟨node, present, member⟩ := dependence
  exact ⟨node, (find?_of_find?_only present).2, member⟩

theorem HasParent.of_only
    {id parent : NodeId} (edge : (arena.only inside).HasParent id parent) :
    arena.HasParent id parent := by
  obtain ⟨node, present, above⟩ := Option.bind_eq_some_iff.mp edge
  exact Option.bind_eq_some_iff.mpr ⟨node, (find?_of_find?_only present).2, above⟩

theorem Acyclic.only (acyclic : arena.Acyclic) (inside : NodeId → Bool) :
    (arena.only inside).Acyclic :=
  fun id cycle => acyclic id (Relation.TransGen.mono (fun _ _ => DependsOn.of_only) _ _ cycle)

theorem Climbs.only (climbs : arena.Climbs) (inside : NodeId → Bool) :
    (arena.only inside).Climbs :=
  fun id cycle => climbs id (Relation.TransGen.mono (fun _ _ => HasParent.of_only) _ _ cycle)

theorem parent?_only_of_inside {id : NodeId} (within : inside id = true) :
    (arena.only inside).parent? id = arena.parent? id := by
  rw [parent?, parent?, find?_only_of_inside within]

theorem require_only_of_inside {id : NodeId} (within : inside id = true) :
    (arena.only inside).require id = arena.require id := by
  rw [require, require, node, node, find?_only_of_inside within]

variable (separates : arena.Separates inside)

include separates

theorem Separates.parent_of_find?
    {id parent : NodeId} {node : Node}
    (present : arena.find? id = some node) (above : node.parent = some parent) :
    inside parent = inside id :=
  separates.parent (Option.bind_eq_some_iff.mpr ⟨node, present, above⟩)

theorem Separates.mem_lineageWithin
    (keyed : arena.Keyed) {steps : Nat} {start : Option NodeId} {side : Bool}
    (within : ∀ id, start = some id → inside id = side) {node : Node}
    (member : node ∈ arena.lineageWithin steps start) :
    inside node.id = side ∧ arena.find? node.id = some node := by
  induction steps generalizing start with
  | zero => cases member
  | succ steps ih =>
      cases start with
      | none => cases member
      | some id =>
          rw [lineageWithin] at member
          cases present : arena.find? id with
          | none =>
              rw [present] at member
              cases member
          | some found =>
              rw [present] at member
              have same : found.id = id := keyed.id_eq present
              rcases List.mem_cons.mp member with rfl | above
              · exact ⟨same ▸ within id rfl, same ▸ present⟩
              · refine ih (fun parent above => ?_) above
                rw [separates.parent_of_find? present above]
                exact within id rfl

/-- The nodes above a node are on its side. -/
theorem Separates.mem_lineage
    (keyed : arena.Keyed) {id : NodeId} {node : Node} (member : node ∈ arena.lineage id) :
    inside node.id = inside id ∧ arena.find? node.id = some node :=
  separates.mem_lineageWithin keyed (by rintro _ ⟨⟩; rfl) member

theorem Separates.lineageWithin_only
    (steps : Nat) {start : Option NodeId} (within : ∀ id, start = some id → inside id = true) :
    (arena.only inside).lineageWithin steps start = arena.lineageWithin steps start := by
  induction steps generalizing start with
  | zero => rfl
  | succ steps ih =>
      cases start with
      | none => rfl
      | some id =>
          rw [lineageWithin, lineageWithin, find?_only_of_inside (within id rfl)]
          cases present : arena.find? id with
          | none => rfl
          | some node =>
              refine congrArg (node :: ·) (ih fun parent above => ?_)
              rw [separates.parent_of_find? present above]
              exact within id rfl

variable (climbs : arena.Climbs) {id : NodeId} (within : inside id = true)

include climbs within

theorem Separates.lineage_only : (arena.only inside).lineage id = arena.lineage id := by
  have same : (arena.only inside).lineageWithin arena.size (some id) =
      arena.lineageWithin arena.size (some id) :=
    separates.lineageWithin_only arena.size (by rintro _ ⟨⟩; exact within)
  rw [← lineageWithin_eq_lineage (climbs.only inside) size_only_le, same, lineage]

theorem Separates.enclosingScope?_only :
    (arena.only inside).enclosingScope? id = arena.enclosingScope? id := by
  rw [enclosingScope?, enclosingScope?, separates.lineage_only climbs within]

theorem Separates.visibleScopes_only :
    (arena.only inside).visibleScopes id = arena.visibleScopes id := by
  rw [visibleScopes, visibleScopes, capturedScopes, capturedScopes, ancestors, ancestors,
    find?_only_of_inside within, separates.lineage_only climbs within]

theorem Separates.scopeOf_only : (arena.only inside).scopeOf id = arena.scopeOf id := by
  rw [scopeOf, scopeOf, require_only_of_inside within,
    separates.enclosingScope?_only climbs within]

theorem Separates.selfType_only (scriptClass : String) :
    (arena.only inside).selfType scriptClass id = arena.selfType scriptClass id := by
  rw [selfType, selfType, require_only_of_inside within, separates.lineage_only climbs within]

theorem Separates.lexicalClass_only (scriptClass : String) :
    (arena.only inside).lexicalClass scriptClass id = arena.lexicalClass scriptClass id := by
  rw [lexicalClass, lexicalClass, parent?_only_of_inside within]
  cases above : arena.parent? id with
  | none => rfl
  | some parent =>
      exact separates.selfType_only climbs ((separates.parent above).trans within) scriptClass

omit climbs within in
theorem Separates.enclosingScope?_inside
    (keyed : arena.Keyed) {scope : NodeId} (encloses : arena.enclosingScope? id = some scope) :
    inside scope = inside id ∧ ∃ node, arena.find? scope = some node := by
  obtain ⟨node, found, rfl⟩ := Option.map_eq_some_iff.mp encloses
  obtain ⟨side, present⟩ := separates.mem_lineage keyed (List.mem_of_find?_eq_some found)
  exact ⟨side, node, present⟩

omit climbs within in
/-- The scope that a node uses is on its side. -/
theorem Separates.scopeOf_inside
    (keyed : arena.Keyed) {scope : NodeId} (uses : arena.scopeOf id = .ok scope) :
    inside scope = inside id :=
  (separates.enclosingScope?_inside keyed (enclosingScope?_of_scopeOf uses)).1

omit climbs within in
/-- The scopes that a scope sees are on its side. -/
theorem Separates.visibleScopes_inside
    (keyed : arena.Keyed) {scope : NodeId} (visible : scope ∈ arena.visibleScopes id) :
    inside scope = inside id := by
  rcases List.mem_cons.mp visible with rfl | captured
  · rfl
  · unfold capturedScopes at captured
    split at captured
    · cases captured
    · split at captured
      · cases captured
      · obtain ⟨node, taken, rfl⟩ := List.mem_map.mp captured
        have scope := (takeThrough_prefix_self _ _).subset taken
        have above := List.mem_of_mem_drop (List.mem_of_mem_filter scope)
        exact (separates.mem_lineage keyed above).1

theorem Separates.isAbstract_only (keyed : arena.Keyed) :
    (arena.only inside).isAbstract id = arena.isAbstract id := by
  have same : (((arena.only inside).parent? id).bind (arena.only inside).enclosingScope?).bind
        (arena.only inside).find? =
      ((arena.parent? id).bind arena.enclosingScope?).bind arena.find? := by
    rw [parent?_only_of_inside within]
    cases above : arena.parent? id with
    | none => rfl
    | some parent =>
        have side : inside parent = true := (separates.parent above).trans within
        rw [Option.bind_some, Option.bind_some, separates.enclosingScope?_only climbs side]
        cases encloses : arena.enclosingScope? parent with
        | none => rfl
        | some scope =>
            obtain ⟨same, _⟩ := separates.enclosingScope?_inside keyed encloses
            exact find?_only_of_inside (same.trans side)
  rw [isAbstract, isAbstract, same]

omit climbs separates in
theorem argumentsOf_only_of_inside :
    (arena.only inside).argumentsOf id = arena.argumentsOf id := by
  rw [argumentsOf, argumentsOf, require_only_of_inside within]

omit climbs in
theorem Separates.argumentNames_only
    {list : ArgumentList NodeId} (given : arena.argumentsOf id = .ok list) :
    (arena.only inside).argumentNames list = arena.argumentNames list := by
  obtain ⟨node, present, kind⟩ := argumentsOf_ok given
  apply mapM_congr
  intro argument member
  have dependence : arena.DependsOn id argument := ⟨node, present, kind ▸ member⟩
  rw [require_only_of_inside ((separates.depends dependence).trans within)]

omit climbs within in
/-- The method that a parameter belongs to is on its side. -/
theorem Separates.owningMethod?_inside
    {owner : NodeId} {method : Method NodeId}
    (owns : arena.owningMethod? id = .ok (some (owner, method))) :
    inside owner = inside id := by
  obtain ⟨parent, above, higher⟩ := Option.bind_eq_some_iff.mp (owningMethod?_ok owns).1
  exact (separates.parent higher).trans (separates.parent above)

omit climbs in
theorem Separates.owningMethod?_only :
    (arena.only inside).owningMethod? id = arena.owningMethod? id := by
  have outer : ((arena.only inside).parent? id).bind (arena.only inside).parent? =
      (arena.parent? id).bind arena.parent? := by
    rw [parent?_only_of_inside within]
    cases above : arena.parent? id with
    | none => rfl
    | some parent => exact parent?_only_of_inside ((separates.parent above).trans within)
  unfold owningMethod?
  rw [require_only_of_inside within, outer]
  cases found : (arena.parent? id).bind arena.parent? with
  | none => rfl
  | some owner =>
      obtain ⟨parent, above, higher⟩ := Option.bind_eq_some_iff.mp found
      have side : inside owner = true :=
        (separates.parent higher).trans ((separates.parent above).trans within)
      simp only [require_only_of_inside side]

end Part

end Arena

end DeferredTyping
