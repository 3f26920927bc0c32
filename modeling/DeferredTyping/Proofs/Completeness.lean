import DeferredTyping.Proofs.Coverage
import DeferredTyping.Proofs.Dependence

/-!
# Success means a complete typing

When typing a whole tree ends with a value, the worklist is empty, so a
settled node is a node with a type; the roots are settled, and everything that
a settled node depends on is settled.  Hence every node below a root has a
type, the nodes that macros put there included.  The block slot of a parameter
list is the one slot that no rule visits.
-/

namespace DeferredTyping

variable {σ : Type}

open Infer

/-- Between two visits: every node that was begun is explored, and the tree
has no roots but those it started with. -/
structure Session.Covered (origin : Arena) (rest : List NodeId)
    (session : Session σ) : Prop where
  orderly : session.Orderly
  keyed : session.facts.arena.Keyed
  rooted : ∀ {id node}, session.facts.arena.find? id = some node →
    node.parent = none →
    ∃ original, origin.find? id = some original ∧ original.parent = none
  explored : ∀ {id}, session.Touched rest id → session.Explored rest id

theorem Session.Settled.later {id : NodeId} {session after : Session σ}
    (settled : session.Settled id) (extended : session.Extends after) : after.Settled id := by
  rcases settled with ⟨ty, known⟩ | queued
  · exact .inl ⟨ty, extended.facts.nodeTypes known⟩
  · exact .inr (extended.queue.subset queued)

namespace Session.Covered

variable {origin : Arena} {rest : List NodeId}

theorem explore
    {before after : Session σ}
    (covered : before.Covered origin rest)
    (orderly : after.Orderly)
    (explores : before.Explores rest (fun _ => False) after) :
    after.Covered origin rest where
  orderly := orderly
  keyed := explores.keyed covered.keyed
  rooted {id node} present root := by
    cases earlier : before.facts.arena.find? id with
    | none => exact absurd root (explores.parented present earlier)
    | some original =>
        obtain ⟨later, found, parent, _⟩ := explores.kept earlier
        rw [present] at found
        cases found
        exact covered.rooted earlier (parent ▸ root)
  explored {id} touched := by
    rcases explores.explored touched with none | before | explored
    · exact none.elim
    · exact explores.explored_of_explored (covered.explored before)
    · exact explored

theorem start
    {origin : Arena} (keyed : origin.Keyed) (catalog : Catalog) (state : σ) :
    (Typer.start origin catalog state).Covered origin [] where
  orderly := ⟨fun _ => Iff.rfl, nofun⟩
  keyed := keyed
  rooted present root := ⟨_, present, root⟩
  explored touched := by
    rcases touched with ((⟨ty, typed⟩ | queued) | waiting) | ⟨expansion, expanded⟩
    · cases typed
    · cases queued
    · cases waiting
    · cases expanded

/-- Nothing that visits leave behind is touched. -/
theorem ofSameNodes
    {session : Session σ} {facts : Facts} {catalog : Catalog}
    {declaredConstructors : List Ty} {lastChance : Bool}
    (covered : session.Covered origin rest)
    (same : session.facts.SameNodes facts)
    (extended : session.facts.Extends facts) :
    ({ session with facts, catalog, declaredConstructors, lastChance } :
      Session σ).Covered origin rest := by
  refine covered.explore ?_ ?_
  · exact ⟨covered.orderly.consistent, (covered.orderly.ofFacts same.nodeTypes
      same.argumentTypes).lists⟩
  · apply Session.Explores.ofGrows
    · intro id
      simp only [Settled, Facts.nodeType?, same.nodeTypes]
    · exact same.expansions
    · exact extended.definingClasses
    · dsimp only
      rw [same.arena]
      exact .refl _

/-- A pass comes to the nodes that were queued. -/
theorem passStart
    {session : Session σ}
    (covered : session.Covered origin []) :
    (passStart session).Covered origin session.worklist.queue := by
  have handled : ∀ {id}, (Infer.passStart session).Handled session.worklist.queue id ↔
      session.Handled [] id := by
    intro id
    simp [Handled, Settled, Infer.passStart]
  refine ⟨⟨fun _ => Iff.rfl, covered.orderly.lists⟩, covered.keyed, covered.rooted, ?_⟩
  intro id touched
  obtain ⟨node, present, children, bound⟩ :=
    covered.explored (touched.imp_left handled.mp)
  exact ⟨node, present, fun child member => handled.mpr (children child member), bound⟩

/-- The pass came to all nodes that were queued. -/
theorem passEnd
    {session : Session σ}
    (covered : session.Covered origin rest)
    (settled : ∀ id ∈ rest, session.Settled id) :
    session.Covered origin [] := by
  have handled : ∀ {id}, session.Handled rest id → session.Handled [] id := by
    rintro id (done | waiting)
    · exact .inl done
    · exact .inl (settled id waiting)
  refine ⟨covered.orderly, covered.keyed, covered.rooted, ?_⟩
  intro id touched
  obtain ⟨node, present, children, bound⟩ :=
    covered.explored (touched.imp_left fun handled => handled.imp_right nofun)
  exact ⟨node, present, fun child member => handled (children child member), bound⟩

/-- What a settled node depends on is settled. -/
theorem settled_of_dependsOn
    {session : Session σ}
    (covered : session.Covered origin [])
    {id child : NodeId}
    (settled : session.Settled id)
    (dependence : session.facts.arena.DependsOn id child) :
    session.Settled child := by
  obtain ⟨node, present, member⟩ := dependence
  obtain ⟨found, stands, children, _⟩ := covered.explored (.inl (.inl settled))
  rw [present] at stands
  cases stands
  rcases children child member with done | waiting
  · exact done
  · cases waiting

theorem settled_of_below
    {session : Session σ}
    (covered : session.Covered origin [])
    {top id : NodeId}
    (settled : session.Settled top)
    (below : session.facts.arena.Below top id) :
    session.Settled id := by
  induction below with
  | refl => exact settled
  | tail _ last ih => exact covered.settled_of_dependsOn ih last

/-- Once nothing is queued, everything below a node that was begun has a
type. -/
theorem typed_of_below
    {session : Session σ}
    (covered : session.Covered origin [])
    (empty : session.worklist.queue = [])
    {top id : NodeId}
    (settled : session.Settled top)
    (below : session.facts.arena.Below top id) :
    ∃ ty, session.facts.nodeType? id = some ty := by
  rcases covered.settled_of_below settled below with known | queued
  · exact known
  · rw [empty] at queued
    cases queued

end Session.Covered

/-- A node that is reported as untyped is reached from a root without block
slots, or lies in a block slot that holds something else than a block
argument. -/
theorem Facts.below_root_or_in_block_slot
    {facts : Facts}
    (keyed : facts.arena.Keyed)
    {node : Node}
    (member : node ∈ facts.untypedNodes) :
    (∃ root ∈ facts.arena.roots, facts.arena.Below root.id node.id ∧
      facts.nodeType? node.id = none) ∨
    ∃ holder block held, facts.arena.HasBlockSlot holder block ∧
      facts.arena.find? block = some held ∧ held.kind.isBlockArgument = false ∧
      Relation.ReflTransGen facts.arena.HasChild block node.id := by
  obtain ⟨root, top, walked⟩ := List.mem_flatMap.mp member
  obtain ⟨id, reached, present, untyped⟩ := Arena.reached_of_mem_walk walked
  have same : node.id = id := keyed.id_eq present
  subst same
  simp only [Facts.isUntyped, Bool.and_eq_true, Bool.not_eq_true'] at untyped
  rcases Arena.below_or_in_block_slot Arena.dependsOn_of_hasChild reached with
    below | ⟨holder, block, slot, inside⟩
  · have absent : facts.nodeTypes.get? node.id = none := by
      simpa [Table.contains] using untyped.2
    exact .inl ⟨root, top, below, absent⟩
  · obtain ⟨held, stands, other⟩ := Arena.not_blockArgument_of_reached
      Arena.dependsOn_of_hasChild inside present untyped.1
    exact .inr ⟨holder, block, held, slot, stands, other, inside⟩

theorem Expander.Declines.onlyAdds
    {expander : Expander σ}
    (declines : expander.Declines) :
    expander.OnlyAdds := by
  intro arena id receiver state
  rw [declines]
  exact .refl arena

namespace Typer

variable {typer : Typer σ} {origin : Arena} {rest : List NodeId}

/-- A visit finds a type, or ends by noting an answer. -/
theorem returns_infer
    {id : NodeId} {answer : Option Ty} {before after : Session σ}
    (returned : Returns (typer.infer id) before answer after) :
    (∃ ty, before.facts.nodeType? id = some ty ∧ answer = some ty ∧ after = before) ∨
      ∃ inferred middle, before.Extends middle ∧
        Returns (remember id inferred) middle answer after := by
  rw [Returns, run_infer] at returned
  rcases returns_node returned with found |
    ⟨expansion, inferred, middle, _, _, visited, kept⟩ |
    ⟨found, inferred, middle, _, _, _, ruled, kept⟩
  · exact .inl found
  · exact .inr ⟨inferred, middle, (node_extends _ _ expansion).returned visited, kept⟩
  · exact .inr ⟨inferred, middle,
      (rule_extends _ (node_extends _ _) id found).returned ruled, kept⟩

/-- A node that was visited has a type or is queued. -/
theorem settled_of_returns_infer
    {id : NodeId} {answer : Option Ty} {before after : Session σ}
    (consistent : before.worklist.Consistent)
    (returned : Returns (typer.infer id) before answer after) :
    after.Settled id := by
  rcases returns_infer returned with ⟨ty, known, _, rfl⟩ | ⟨inferred, middle, extended, kept⟩
  · exact .inl ⟨ty, known⟩
  · have settled := Session.settled_remember (extended.worklist.consistent consistent) id inferred
    rwa [kept] at settled

/-- A node that was visited without finding its type is queued. -/
theorem queued_of_returns_infer
    {id : NodeId} {before after : Session σ} (consistent : before.worklist.Consistent)
    (returned : Returns (typer.infer id) before none after) :
    id ∈ after.worklist.queue := by
  rcases returns_infer returned with ⟨_, _, known, _⟩ | ⟨inferred, middle, extended, kept⟩
  · cases known
  · cases inferred with
    | some ty => cases kept
    | none =>
        cases kept
        exact (extended.worklist.consistent consistent).mem_push id

theorem settled_of_returns_each
    {ids : List NodeId} {before after : Session σ}
    (consistent : before.worklist.Consistent)
    (returned : Returns (each typer.infer ids) before () after) :
    ∀ id ∈ ids, after.Settled id := by
  induction ids generalizing before with
  | nil => nofun
  | cons first rest ih =>
      obtain ⟨_, middle, visited, others⟩ := returns_bind.mp returned
      have onward := ((typer.infer_extends first).returned visited).worklist.consistent consistent
      have later : middle.Extends after :=
        ((traversal_extends typer.setting).each fun id _ => typer.infer_extends id).returned others
      exact List.forall_mem_cons.mpr
        ⟨(settled_of_returns_infer consistent visited).later later, ih onward others⟩

theorem infer_covers
    (adds : typer.expander.OnlyAdds)
    (id : NodeId) :
    Covers rest (fun _ => False) [id] (typer.infer id) := by
  intro before answer after orderly returned
  rw [Returns, run_infer] at returned
  exact node_covers adds _ id orderly returned

theorem each_covers
    (adds : typer.expander.OnlyAdds)
    (ids : List NodeId) :
    Covers rest (fun _ => False) ids (each typer.infer ids) := by
  have traversal : Traversal typer.setting fun ids step =>
      Covers rest (fun _ => False) ids step := traversal_covers typer.setting
  exact traversal.each fun id _ => infer_covers adds id

/-- A pass that ends with a value settles what was queued and keeps the rest
as it was. -/
theorem pass_covered
    (adds : typer.expander.OnlyAdds)
    {session after : Session σ} {productive : Bool}
    (covered : session.Covered origin [])
    (passed : (pass typer.infer).run session = (.ok productive, after)) :
    after.Covered origin [] ∧
      ∀ {id}, session.Settled id → after.Settled id := by
  rcases run_pass typer.infer session with ⟨stop, other, _, run⟩ |
    ⟨other, visited, run⟩
  · rw [run] at passed
    cases passed
  · rw [run] at passed
    cases passed
    have begun := covered.passStart
    obtain ⟨orderly, explores, settled⟩ :=
      each_covers adds session.worklist.queue begun.orderly visited
    refine ⟨(begun.explore orderly explores).passEnd settled, ?_⟩
    rintro id (typed | queued)
    · exact explores.settled (.inl typed)
    · exact settled id queued

theorem resolveWithin_covered
    (adds : typer.expander.OnlyAdds)
    (fuel : Nat) :
    ∀ {session after : Session σ}, session.Covered origin [] →
      Returns (typer.resolveWithin fuel) session () after →
      after.Covered origin [] ∧ after.worklist.queue = [] ∧
        ∀ {id}, session.Settled id → after.Settled id := by
  induction fuel with
  | zero =>
      intro session after _ returned
      cases returned
  | succ fuel ih =>
      intro session after covered returned
      rw [Returns] at returned
      have turn := typer.turn fuel session
      generalize (typer.resolveWithin (fuel + 1)).run session = outcome at turn returned
      cases turn with
      | done empty =>
          cases returned
          exact ⟨covered, List.isEmpty_iff.mp empty, fun settled => settled⟩
      | limited _ _ => cases returned
      | stopped _ _ => cases returned
      | stuck _ _ _ => cases returned
      | productive _ passed =>
          obtain ⟨onward, lasts⟩ := pass_covered adds covered passed
          obtain ⟨ended, empty, settled⟩ :=
            ih (onward.ofSameNodes ⟨rfl, rfl, rfl, rfl⟩ (.refl _)) returned
          exact ⟨ended, empty, fun before => settled (lasts before)⟩
      | lastChance _ passed _ =>
          obtain ⟨onward, lasts⟩ := pass_covered adds covered passed
          obtain ⟨ended, empty, settled⟩ :=
            ih (onward.ofSameNodes ⟨rfl, rfl, rfl, rfl⟩ (.refl _)) returned
          exact ⟨ended, empty, fun before => settled (lasts before)⟩

/-- After the roots were visited, every root of the tree is settled. -/
theorem roots_covered
    (adds : typer.expander.OnlyAdds)
    {session registered visited : Session σ}
    (covered : session.Covered origin [])
    (intact : session.facts.arena = origin)
    (registers : typer.registerTypes.run session = (.ok (), registered))
    (visits : (each typer.infer (registered.facts.arena.roots.map Node.id)).run registered =
      (.ok (), visited)) :
    visited.Covered origin [] ∧
      ∀ {id node}, origin.find? id = some node → node.parent = none →
        visited.Settled id := by
  obtain ⟨catalog, declaredConstructors, facts, added, rfl, _⟩ :=
    typer.registerTypes_added registers
  have learned := Facts.Added.learned added
  have begun : ({ session with facts, catalog, declaredConstructors } :
      Session σ).Covered origin [] :=
    covered.ofSameNodes learned.sameNodes learned.extends
  obtain ⟨orderly, explores, settled⟩ := each_covers adds _ begun.orderly visits
  refine ⟨begun.explore orderly explores, ?_⟩
  intro id node present root
  apply settled
  have stored : (id, node) ∈ facts.arena.nodes.entries := by
    rw [learned.sameNodes.arena, intact]
    exact Table.mem_entries_of_get?_eq_some present
  refine List.mem_map.mpr ⟨node, ?_, begun.keyed.ids _ stored⟩
  refine List.mem_filter.mpr ⟨List.mem_map.mpr ⟨_, stored, rfl⟩, ?_⟩
  rw [root]
  rfl

theorem inferTypes_covered
    (adds : typer.expander.OnlyAdds)
    {session after : Session σ}
    (covered : session.Covered origin [])
    (intact : session.facts.arena = origin)
    (success : Returns typer.inferTypes session () after) :
    after.Covered origin [] ∧ after.worklist.queue = [] ∧
      ∀ {id node}, origin.find? id = some node → node.parent = none →
        after.Settled id := by
  rw [Returns] at success
  rcases run_inferTypes typer session with ⟨stop, other, _, run⟩ |
    ⟨registered, registers, ⟨stop, other, _, run⟩ | ⟨visited, visits, run⟩⟩
  · rw [run] at success
    cases success
  · rw [run] at success
    cases success
  · obtain ⟨begun, roots⟩ := roots_covered adds covered intact registers visits
    rw [run, run_resolve] at success
    obtain ⟨ended, empty, lasts⟩ := resolveWithin_covered adds _ begun success
    exact ⟨ended, empty, fun present root => lasts (roots present root)⟩

/-- When everything below a root has a type, a node that is reported as untyped
lies in a block slot. -/
private theorem in_block_slot_of_untyped
    {facts : Facts}
    (keyed : facts.arena.Keyed)
    (typed : ∀ root ∈ facts.arena.roots, ∀ id, facts.arena.Below root.id id →
      ∃ ty, facts.nodeType? id = some ty)
    {node : Node}
    (member : node ∈ facts.untypedNodes) :
    ∃ holder block held, facts.arena.HasBlockSlot holder block ∧
      facts.arena.find? block = some held ∧ held.kind.isBlockArgument = false ∧
      Relation.ReflTransGen facts.arena.HasChild block node.id := by
  rcases Facts.below_root_or_in_block_slot keyed member with
    ⟨root, top, below, unknown⟩ | inside
  · obtain ⟨ty, known⟩ := typed root top node.id below
    rw [unknown] at known
    cases known
  · exact inside

/-- Once every tree is typed, all that a root leads to has a type. -/
theorem typed_of_below_root
    (adds : typer.expander.OnlyAdds)
    (keyed : origin.Keyed)
    {catalog : Catalog} {state : σ} {after : Session σ}
    (success : Returns typer.inferTypes (start origin catalog state) () after) :
    ∀ root ∈ after.facts.arena.roots, ∀ id, after.facts.arena.Below root.id id →
      ∃ ty, after.facts.nodeType? id = some ty := by
  obtain ⟨covered, empty, settled⟩ :=
    inferTypes_covered adds (.start keyed catalog state) rfl success
  intro root member id below
  obtain ⟨stored, parentless⟩ := List.mem_filter.mp member
  obtain ⟨original, present, top⟩ := covered.rooted
    (covered.keyed.find?_of_mem stored) (Option.isNone_iff_eq_none.mp parentless)
  exact covered.typed_of_below empty (settled present top) below

/-- The number that stands for an expanded call. -/
private def answerUnder (id parent : NodeId) : Node where
  id := id
  parent := some parent
  location := {}
  kind := .fixnum 42

/-- A typer whose expander puts a number in the place of every call. -/
def answering : Typer Unit where
  expander.expand arena id _ state :=
    match arena.parent? id with
    | none => (none, arena, state)
    | some parent =>
        match arena.add (answerUnder arena.nextId parent) with
        | .ok after => (some arena.nextId, after, state)
        | .error _ => (none, arena, state)
  expander.growth := 1

/-- A call is declined, or a leaf was added under its parent. -/
theorem answering_answers
    {before after : Arena} {call : NodeId} {receiver : Ty} {state later : Unit}
    {answer : Option NodeId}
    (asked : answering.expander.expand before call receiver state = (answer, after, later)) :
    answer = none ∧ after = before ∨
      ∃ node, before.add node = .ok after ∧ node.children = [] ∧ answer = some node.id ∧
        node.parent = before.parent? call ∧ node.parent ≠ none := by
  simp only [answering] at asked
  split at asked
  · cases asked
    exact .inl ⟨rfl, rfl⟩
  · rename_i parent above
    split at asked
    · rename_i grown added
      cases asked
      exact .inr ⟨_, added, rfl, rfl, above.symm, nofun⟩
    · cases asked
      exact .inl ⟨rfl, rfl⟩

theorem answering_onlyAdds : answering.expander.OnlyAdds := by
  intro arena id receiver state
  rcases asked : answering.expander.expand arena id receiver state with ⟨answer, after, later⟩
  rcases answering_answers asked with ⟨_, rfl⟩ | ⟨node, added, _, _, _, parented⟩
  · exact .refl after
  · exact .add added parented

/-- A script whose only statement calls a method that nothing defines. -/
def unknownCall : Arena where
  nodes := ⟨[
    (1, { id := 1, parent := none, location := {}, kind := .script "" (some 2) }),
    (2, { id := 2, parent := some 1, location := {}, kind := .body [3] }),
    (3, { id := 3, parent := some 2, location := {},
          kind := .functionalCall "answer" [] none })]⟩
  nextId := 4

/-- A number where a parameter list expects its block argument. -/
def numberInBlockSlot : Arena where
  nodes := ⟨[
    (1, { id := 1, parent := none, location := {}, kind := .script "" (some 2) }),
    (2, { id := 2, parent := some 1, location := {}, kind := .body [3] }),
    (3, { id := 3, parent := some 2, location := {},
          kind := .methodDefinition { name := "f", arguments := 4, body := some 6 } }),
    (4, { id := 4, parent := some 3, location := {},
          kind := .arguments { block := some 5 } }),
    (5, { id := 5, parent := some 4, location := {}, kind := .fixnum 5 }),
    (6, { id := 6, parent := some 3, location := {}, kind := .fixnum 1 })]⟩
  nextId := 7

end Typer

end DeferredTyping
