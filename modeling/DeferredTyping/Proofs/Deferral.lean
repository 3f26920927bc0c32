import DeferredTyping.Proofs.Exactness

/-!
# No deferral is lost or doubled

Operations push nodes onto the worklist one at a time, and a pass takes all of them off.  So
the queue holds each deferred node once and the set holds the same nodes, whatever fails on
the way.

A visit that ends with a value has settled whatever its node depends on, and a pass that ends
with a value has settled again whatever it took off the worklist.  Without macros, and as long
as no operation fails, what is settled therefore stays settled from one operation to the next:
a node that was visited once is on the worklist until it has a type, and so is every node
below it.
-/

namespace DeferredTyping

variable {σ : Type}

open Infer

namespace Typer

variable {typer : Typer σ}

theorem upholds_sound {α : Type} {step : Infer σ α} (grows : Relates Session.Extends step) :
    Upholds (fun session => session.worklist.Sound) (fun _ => True) step :=
  fun session sound => ⟨(grows session).worklist.sound sound, fun _ => trivial⟩

/-- Every operation leaves the worklist sound, whether it fails or not. -/
theorem preserves_sound (typer : Typer σ) :
    typer.Preserves (fun session => session.worklist.Sound) fun _ => True where
  drives _ _ _ keeps sound := keeps sound
  givesUp _ := trivial
  visits id := upholds_sound (typer.infer_extends id)
  registers session sound := by
    rcases registers : typer.registerTypes.run session with ⟨answer, after⟩
    obtain ⟨catalog, declaredConstructors, facts, _, rfl, _⟩ := typer.registerTypes_added registers
    exact ⟨sound, fun _ => trivial⟩
  lists id := upholds_sound
    ((traversal_extends typer.setting).arguments typer.infer_extends keepArgumentTypes_extends)
  adds adds := upholds_sound ((traversal_extends typer.setting).own adds.own)

theorem Reachable.sound {tree : Arena} {catalog : Catalog} {state : σ} {session : Session σ}
    (reached : typer.Reachable tree catalog state session) :
    session.worklist.Sound := by
  induction reached with
  | start => exact .empty
  | step _ operation sound => exact (typer.preserves_sound.perform sound operation).1

/-- The sessions that operations lead to from a given one as long as none of them fails. -/
inductive Proceeds (typer : Typer σ) (first : Session σ) : Session σ → Prop where
  | refl : Proceeds typer first first
  | step {session : Session σ} (proceeds : Proceeds typer first session)
      {operation : Operation} (ends : typer.stop? session operation = none) :
      Proceeds typer first (typer.perform session operation)

end Typer

namespace Session

/-- What is settled stays settled. -/
def Stays (before after : Session σ) : Prop :=
  ∀ ⦃id⦄, before.Settled id → after.Settled id

theorem Stays.refl (session : Session σ) : session.Stays session :=
  fun _ settled => settled

theorem Stays.trans {first second third : Session σ}
    (early : first.Stays second) (late : second.Stays third) : first.Stays third :=
  fun _ settled => late (early settled)

theorem Extends.stays {before after : Session σ} (extended : before.Extends after) :
    before.Stays after :=
  fun _ settled => settled.later extended

variable {tree : Arena} {rest : List NodeId}

/-- The node and whatever is below it are settled, or the current pass comes to them later. -/
def Secured (tree : Arena) (rest : List NodeId) (id : NodeId) (session : Session σ) : Prop :=
  ∀ ⦃other⦄, tree.Below id other → session.Handled rest other

theorem Secured.stays {before after : Session σ} {id : NodeId}
    (secured : before.Secured tree rest id) (stays : before.Stays after) :
    after.Secured tree rest id :=
  fun _ below => (secured below).imp_left fun settled => stays settled

/-- A settled node is secured when what it depends on is. -/
theorem Settled.secured {session : Session σ} {id : NodeId} (settled : session.Settled id)
    (children : ∀ child, tree.DependsOn id child → session.Secured tree rest child) :
    session.Secured tree rest id := by
  intro other below
  rcases below.cases_head with rfl | ⟨child, dependence, onward⟩
  · exact .inl settled
  · exact children child dependence onward

/-- A pass comes to what is queued. -/
theorem Secured.passStart {session : Session σ} {id : NodeId}
    (secured : session.Secured tree [] id) :
    (passStart session).Secured tree session.worklist.queue id := by
  intro other below
  rcases secured below with (typed | queued) | none
  · exact .inl (.inl typed)
  · exact .inr queued
  · cases none

/-- The pass came to all nodes that were queued. -/
theorem Secured.passEnd {session : Session σ} {id : NodeId}
    (secured : session.Secured tree rest id) (visited : ∀ other ∈ rest, session.Settled other) :
    session.Secured tree [] id := by
  intro other below
  rcases secured below with settled | waiting
  · exact .inl settled
  · exact .inl (visited other waiting)

/-- Whatever has a type is secured, and so are the parameters of a list whose types are kept.
The worklist itself may hold nodes that nobody visited yet. -/
structure Grounded (tree : Arena) (rest : List NodeId) (session : Session σ) : Prop
    extends Intact tree session where
  consistent : session.worklist.Consistent
  typed : ∀ {id ty}, session.facts.nodeType? id = some ty → session.Secured tree rest id
  listed : ∀ {id types}, session.facts.argumentTypes? id = some types →
    ∀ child, tree.DependsOn id child → session.Secured tree rest child

namespace Grounded

variable {session : Session σ}

theorem start (tree : Arena) (catalog : Catalog) (state : σ) :
    (Typer.start tree catalog state).Grounded tree [] where
  arena := rfl
  unexpanded := rfl
  consistent := fun _ => Iff.rfl
  typed known := by cases known
  listed known := by cases known

/-- No types are learned. -/
theorem ofSame {after : Session σ} (grounded : session.Grounded tree rest)
    (intact : after.Intact tree) (consistent : after.worklist.Consistent)
    (stays : session.Stays after) (nodeTypes : after.facts.nodeTypes = session.facts.nodeTypes)
    (argumentTypes : after.facts.argumentTypes = session.facts.argumentTypes) :
    after.Grounded tree rest where
  toIntact := intact
  consistent := consistent
  typed {id ty} known := by
    rw [Facts.nodeType?, nodeTypes] at known
    exact (grounded.typed known).stays stays
  listed {id types} known child dependence := by
    rw [Facts.argumentTypes?, argumentTypes] at known
    exact (grounded.listed known child dependence).stays stays

theorem withLastChance (grounded : session.Grounded tree rest) (lastChance : Bool) :
    { session with lastChance : Session σ }.Grounded tree rest :=
  grounded.ofSame ⟨grounded.arena, grounded.unexpanded⟩ grounded.consistent (fun _ => id) rfl rfl

/-- Neither the tree nor the types of nodes are learned. -/
theorem learned {facts : Facts} {catalog : Catalog} {declaredConstructors : List Ty}
    (grounded : session.Grounded tree rest) (same : session.facts.SameNodes facts)
    (extended : session.facts.Extends facts) :
    { session with facts, catalog, declaredConstructors : Session σ }.Grounded tree rest ∧
      session.Stays { session with facts, catalog, declaredConstructors : Session σ } := by
  have stays : session.Stays { session with facts, catalog, declaredConstructors : Session σ } :=
    fun _ settled => settled.imp_left fun ⟨ty, known⟩ => ⟨ty, extended.nodeTypes known⟩
  have intact : { session with facts, catalog, declaredConstructors : Session σ }.Intact tree :=
    ⟨same.arena.trans grounded.arena, same.expansions.trans grounded.unexpanded⟩
  exact ⟨grounded.ofSame intact grounded.consistent stays same.nodeTypes same.argumentTypes, stays⟩

theorem push (grounded : session.Grounded tree rest) (id : NodeId) :
    { session with worklist := session.worklist.push id : Session σ }.Grounded tree rest :=
  grounded.ofSame ⟨grounded.arena, grounded.unexpanded⟩ (grounded.consistent.push id)
    (Extends.defer session id).stays rfl rfl

/-- The types of a list are kept once its parameters are secured. -/
theorem setArgumentTypes (grounded : session.Grounded tree rest) {id : NodeId} (types : List Ty)
    (secured : ∀ child, tree.DependsOn id child → session.Secured tree rest child) :
    { session with facts := session.facts.setArgumentTypes id types : Session σ }.Grounded tree
      rest where
  arena := grounded.arena
  unexpanded := grounded.unexpanded
  consistent := grounded.consistent
  typed known := grounded.typed known
  listed {other kept} known := by
    by_cases same : other = id
    · exact same ▸ secured
    · exact grounded.listed ((Table.get?_insertIfNew_of_ne _ same types).symm.trans known)

/-- A node takes its type, or is deferred, once what it depends on is secured. -/
theorem remember (grounded : session.Grounded tree rest) {id : NodeId} (answer : Option Ty)
    (secured : ∀ child, tree.DependsOn id child → session.Secured tree rest child) :
    ((Infer.remember id answer).run session).2.Grounded tree rest ∧
      session.Stays ((Infer.remember id answer).run session).2 ∧
      ((Infer.remember id answer).run session).2.Secured tree rest id := by
  have stays : session.Stays ((Infer.remember id answer).run session).2 :=
    fun _ settled => settled_remember_of_settled settled id answer
  have top : ((Infer.remember id answer).run session).2.Secured tree rest id :=
    (settled_remember grounded.consistent id answer).secured
      fun child dependence => (secured child dependence).stays stays
  refine ⟨?_, stays, top⟩
  cases answer with
  | none => exact grounded.push id
  | some ty =>
      refine ⟨⟨grounded.arena, grounded.unexpanded⟩, grounded.consistent, ?_, ?_⟩
      · intro other found known
        by_cases same : other = id
        · exact same ▸ top
        · exact (grounded.typed
            ((Table.get?_insertIfNew_of_ne _ same ty).symm.trans known)).stays stays
      · intro other types known child dependence
        exact (grounded.listed known child dependence).stays stays

/-- A pass comes to the nodes that were queued. -/
theorem passStart (grounded : session.Grounded tree []) :
    (passStart session).Grounded tree session.worklist.queue where
  arena := grounded.arena
  unexpanded := grounded.unexpanded
  consistent := fun _ => Iff.rfl
  typed known := (grounded.typed known).passStart
  listed known child dependence := (grounded.listed known child dependence).passStart

/-- The pass came to all nodes that were queued. -/
theorem passEnd (grounded : session.Grounded tree rest)
    (visited : ∀ other ∈ rest, session.Settled other) :
    session.Grounded tree [] where
  toIntact := grounded.toIntact
  consistent := grounded.consistent
  typed known := (grounded.typed known).passEnd visited
  listed known child dependence := (grounded.listed known child dependence).passEnd visited

end Grounded

end Session

theorem Arena.mem_typed_of_dependsOn {arena : Arena} {id child : NodeId}
    {list : ArgumentList NodeId} (listed : arena.argumentsOf id = .ok list)
    (dependence : arena.DependsOn id child) :
    child ∈ list.typed := by
  obtain ⟨node, present, member⟩ := dependence
  rw [Arena.argumentsOf, Arena.require_of_find? present] at listed
  cases kind : node.kind with
  | arguments other =>
      simp only [bind, Except.bind, kind] at listed
      cases listed
      rwa [kind] at member
  | _ =>
      simp only [bind, Except.bind, kind] at listed
      cases listed

namespace Infer

variable {tree : Arena} {rest : List NodeId} {setting : Setting σ}

/-- A step that ends with a value keeps types grounded and what is settled settled, and secures
the nodes that it visits. -/
abbrev Grounds (tree : Arena) (rest : List NodeId) {α : Type} (ids : List NodeId)
    (step : Infer σ α) : Prop :=
  Visits (Session.Grounded tree rest) Session.Stays
    (fun id session => session.Secured tree rest id) ids step

theorem traversal_grounds (setting : Setting σ) :
    Traversal setting fun ids step => Grounds tree rest ids step :=
  .ofVisits (fun _ _ _ => Session.Stays.trans) (fun _ _ _ stays secured => secured.stays stays)
    fun grounded learned => grounded.learned learned.sameNodes learned.extends

/-- The parameters of a list are secured, whether they are visited or their types are kept. -/
theorem arguments_grounds (setting : Setting σ) {infer : NodeId → Infer σ (Option Ty)}
    (visits : ∀ child, Grounds tree rest [child] (infer child))
    {id : NodeId} {ids : List NodeId} (depends : ∀ child ∈ ids, tree.DependsOn id child) :
    Grounds tree rest ids (arguments infer id) := by
  intro before types after grounded returned
  have traversal : Traversal setting fun ids step => Grounds tree rest ids step :=
    traversal_grounds setting
  rcases returns_arguments returned with
    ⟨known, kept, _, rfl⟩ | ⟨list, middle, _, listed, visited, kept⟩
  · exact ⟨grounded, .refl _, fun child member =>
      grounded.listed kept child (depends child member)⟩
  · obtain ⟨grounded', stays, reached⟩ :=
      traversal.all (fun child _ => visits child) grounded visited
    have secured : ∀ child, tree.DependsOn id child → middle.Secured tree rest child :=
      fun child dependence =>
        reached child (Arena.mem_typed_of_dependsOn (grounded.arena ▸ listed) dependence)
    cases types with
    | none =>
        cases kept
        exact ⟨grounded', stays, fun child member => secured child (depends child member)⟩
    | some collected =>
        cases kept
        exact ⟨grounded'.setArgumentTypes collected secured, stays,
          fun child member => secured child (depends child member)⟩

/-- A visit secures its node. -/
theorem node_grounds (declines : setting.expander.Declines) (fuel : Nat) :
    ∀ id, Grounds tree rest [id] (node setting fuel id) := by
  induction fuel with
  | zero =>
      intro id before answer after _ returned
      cases returned
  | succ fuel visits =>
      intro id before answer after grounded returned
      suffices ends : after.Grounded tree rest ∧ before.Stays after ∧
          after.Secured tree rest id from
        ⟨ends.1, ends.2.1, by simpa using ends.2.2⟩
      rcases returns_node returned with ⟨ty, known, _, rfl⟩ |
        ⟨expansion, _, _, _, expanded, _, _⟩ |
        ⟨found, inferred, middle, _, _, present, ruled, kept⟩
      · exact ⟨grounded, .refl after, grounded.typed known⟩
      · rw [Facts.expansionOf?, grounded.unexpanded] at expanded
        cases expanded
      · obtain rfl : after = ((remember id inferred).run middle).2 := (congrArg Prod.snd kept).symm
        rw [grounded.arena] at present
        have traversal : Traversal setting fun ids step => Grounds tree rest ids step :=
          traversal_grounds setting
        have rules : Grounds tree rest found.kind.dependencies
            (rule setting (node setting fuel) id found) := by
          refine traversal.rule ?_ ?_ fun child _ => visits child
          · exact fun receiver name types =>
              traversal.read (.resolveCall declines id receiver name types)
          · exact fun list kind => arguments_grounds setting visits fun child member =>
              ⟨found, present, by rw [kind]; exact member⟩
        obtain ⟨grounded', stays, reached⟩ := rules grounded ruled
        obtain ⟨remembered, onward, secured⟩ := grounded'.remember inferred (by
          rintro child ⟨other, stored, member⟩
          cases present.symm.trans stored
          exact reached child member)
        exact ⟨remembered, stays.trans onward, secured⟩

end Infer

namespace Typer

variable {typer : Typer σ} {tree : Arena} {rest : List NodeId}

section Operations

variable (declines : typer.expander.Declines)

include declines

theorem infer_grounds (id : NodeId) : Grounds tree rest [id] (typer.infer id) := by
  intro before answer after grounded returned
  rw [Returns, run_infer] at returned
  exact node_grounds declines _ id grounded returned

theorem each_grounds (ids : List NodeId) : Grounds tree rest ids (each typer.infer ids) :=
  (traversal_grounds typer.setting).each fun id _ => infer_grounds declines id

/-- A pass settles again what it took off the worklist. -/
theorem pass_grounds : Grounds tree [] [] (pass typer.infer) := by
  intro before productive after grounded returned
  rw [Returns] at returned
  rcases run_pass typer.infer before with ⟨_, _, _, run⟩ | ⟨other, visited, run⟩
  · rw [run] at returned
    cases returned
  · rw [run] at returned
    obtain rfl : other = after := congrArg Prod.snd returned
    have begun := grounded.passStart
    obtain ⟨visits, stays, _⟩ := each_grounds declines before.worklist.queue begun visited
    have settled := settled_of_returns_each begun.consistent visited
    refine ⟨visits.passEnd settled, ?_, List.forall_mem_nil _⟩
    rintro id (typed | queued)
    · exact stays (.inl typed)
    · exact settled id queued

theorem resolveWithin_grounds (fuel : Nat) : Grounds tree [] [] (typer.resolveWithin fuel) := by
  induction fuel with
  | zero =>
      intro before value after _ returned
      cases returned
  | succ fuel ih =>
      intro before value after grounded returned
      rw [Returns] at returned
      have turn := typer.turn fuel before
      generalize (typer.resolveWithin (fuel + 1)).run before = outcome at turn returned
      -- Setting the last chance before the next turn settles nothing and forgets nothing.
      have onward : ∀ {middle : Session σ} {productive lastChance : Bool},
          (pass typer.infer).run before = (.ok productive, middle) →
          Returns (typer.resolveWithin fuel) { middle with lastChance } value after →
          after.Grounded tree [] ∧ before.Stays after ∧
            ∀ id ∈ [], after.Secured tree [] id := by
        intro middle productive lastChance passed returned
        obtain ⟨between, early, _⟩ := pass_grounds declines grounded passed
        obtain ⟨ended, late, _⟩ := ih (between.withLastChance lastChance) returned
        exact ⟨ended, early.trans late, List.forall_mem_nil _⟩
      cases turn with
      | done _ =>
          cases returned
          exact ⟨grounded, .refl before, List.forall_mem_nil _⟩
      | limited _ _ | stopped _ _ | stuck _ _ _ => cases returned
      | productive _ passed => exact onward passed returned
      | lastChance _ passed _ => exact onward passed returned

theorem resolve_grounds : Grounds tree [] [] typer.resolve := by
  intro before value after grounded returned
  rw [Returns, run_resolve] at returned
  exact resolveWithin_grounds declines _ grounded returned

omit declines in
theorem registerTypes_grounds (typer : Typer σ) : Grounds tree [] [] typer.registerTypes := by
  intro before value after grounded returned
  obtain ⟨catalog, declaredConstructors, facts, added, rfl, _⟩ :=
    typer.registerTypes_added returned
  have learned := Facts.Added.learned added
  obtain ⟨ended, stays⟩ := grounded.learned learned.sameNodes learned.extends
  exact ⟨ended, stays, List.forall_mem_nil _⟩

theorem inferTypes_grounds : Grounds tree [] [] typer.inferTypes := by
  intro before value after grounded returned
  obtain ⟨registered, visited, registers, visits, resolves⟩ :=
    (returns_inferTypes typer).mp returned
  obtain ⟨first, early, _⟩ := registerTypes_grounds typer grounded registers
  obtain ⟨second, between, _⟩ := each_grounds declines _ first visits
  obtain ⟨last, late, _⟩ := resolve_grounds declines second resolves
  exact ⟨last, (early.trans between).trans late, List.forall_mem_nil _⟩

/-- An operation that ends with a value keeps what is settled settled. -/
theorem perform_grounds {session : Session σ} (grounded : session.Grounded tree [])
    {operation : Operation} (ends : typer.stop? session operation = none) :
    (typer.perform session operation).Grounded tree [] ∧
      session.Stays (typer.perform session operation) := by
  have traversal : Traversal typer.setting fun ids step => Grounds tree [] ids step :=
    traversal_grounds typer.setting
  have leads : ∀ {α : Type} {ids : List NodeId} {step : Infer σ α}, Grounds tree [] ids step →
      Infer.stop? step session = none →
        (step.run session).2.Grounded tree [] ∧ session.Stays (step.run session).2 := by
    intro α ids step grounds ends
    obtain ⟨value, returned⟩ := Infer.returns_of_stop?_eq_none ends
    obtain ⟨ended, stays, _⟩ := grounds grounded returned
    exact ⟨ended, stays⟩
  cases operation with
  | registerTypes => exact leads (registerTypes_grounds typer) ends
  | inferTypes => exact leads (inferTypes_grounds declines) ends
  | resolve => exact leads (resolve_grounds declines) ends
  | infer id => exact leads (infer_grounds declines id) ends
  | inferArguments id =>
      exact leads (arguments_grounds typer.setting (infer_grounds declines)
        (List.forall_mem_nil (tree.DependsOn id))) ends
  | defer id => exact ⟨grounded.push id, (Session.Extends.defer session id).stays⟩
  | learnLocalType scope name ty =>
      exact leads (traversal.own (typer.learnLocalType_adds scope name ty).own) ends
  | learnMethodType method =>
      exact leads (traversal.own (typer.learnMethodType_adds method).own) ends

theorem Proceeds.grounds {first session : Session σ} (proceeds : typer.Proceeds first session)
    (grounded : first.Grounded tree []) :
    session.Grounded tree [] ∧ first.Stays session := by
  induction proceeds with
  | refl => exact ⟨grounded, .refl first⟩
  | step _ ends ih =>
      obtain ⟨between, early⟩ := ih
      obtain ⟨ended, late⟩ := perform_grounds declines between ends
      exact ⟨ended, early.trans late⟩

end Operations

end Typer

/-- The second node is an argument of the delegation that was split off the first one. -/
def Arena.HasDelegationArgument (arena : Arena) (id argument : NodeId) : Prop :=
  ∃ node method, arena.find? id = some node ∧ node.kind = .methodDefinition method ∧
    argument ∈ method.thisArgs.getD [] ++ method.superArgs.getD []

/-- The second node is in a slot of the first one, or an argument of its delegation. -/
def Arena.HasSlot (arena : Arena) (id child : NodeId) : Prop :=
  arena.HasChild id child ∨ arena.HasDelegationArgument id child

/-- Block slots are the only slots that no rule visits. -/
theorem Arena.dependsOn_of_hasSlot {arena : Arena} {id child : NodeId}
    (slot : arena.HasSlot id child) :
    arena.DependsOn id child ∨ arena.HasBlockSlot id child := by
  rcases slot with edge | ⟨node, method, present, kind, member⟩
  · exact arena.dependsOn_of_hasChild edge
  · refine .inl ⟨node, present, ?_⟩
    rw [kind]
    exact List.mem_append_left _ member

namespace Typer

/-- The worklist holds each deferred node once, and the set the same nodes, in every session
that is reached.  Without macros, and as long as no operation fails, a visit that finds no type
leaves its node on the worklist, and from then on whatever is reached from the node is there
between operations until it has a type, unless it lies in the block slot of a parameter list
that holds something else than a block argument. -/
theorem deferrals_are_kept_until_typed (typer : Typer σ) (tree : Arena) (catalog : Catalog)
    (state : σ) :
    (∀ session, typer.Reachable tree catalog state session →
      session.worklist.queue.Nodup ∧
        ∀ id, id ∈ session.worklist.members ↔ id ∈ session.worklist.queue) ∧
    (typer.expander.Declines →
      ∀ session, typer.Proceeds (start tree catalog state) session →
        ∀ id after, Returns (typer.infer id) session none after →
          id ∈ after.worklist.queue ∧
          ∀ later, typer.Proceeds after later →
            ∀ other, later.facts.nodeType? other = none →
              (tree.Below id other → other ∈ later.worklist.queue) ∧
              ∀ node, tree.find? other = some node → node.kind.isBlockArgument = false →
                Relation.ReflTransGen tree.HasSlot id other →
                  other ∈ later.worklist.queue ∨
                  ∃ holder block held, tree.HasBlockSlot holder block ∧
                    tree.find? block = some held ∧ held.kind.isBlockArgument = false ∧
                    Relation.ReflTransGen tree.HasSlot block other) := by
  refine ⟨fun session reached => ⟨reached.sound.distinct, reached.sound.consistent⟩, ?_⟩
  intro declines session proceeds id after returned
  have grounded := (proceeds.grounds declines (Session.Grounded.start tree catalog state)).1
  refine ⟨queued_of_returns_infer grounded.consistent returned, ?_⟩
  intro later onward other untyped
  obtain ⟨visited, _, secured⟩ := infer_grounds declines id grounded returned
  have stays := (onward.grounds declines visited).2
  have queued : tree.Below id other → other ∈ later.worklist.queue := by
    intro below
    rcases (secured id List.mem_cons_self).stays stays below with (⟨ty, typed⟩ | queued) | none
    · cases untyped.symm.trans typed
    · exact queued
    · cases none
  refine ⟨queued, fun node present argument reached => ?_⟩
  rcases Arena.below_or_in_block_slot Arena.dependsOn_of_hasSlot reached with
    below | ⟨holder, block, slot, inside⟩
  · exact .inl (queued below)
  · obtain ⟨held, stands, different⟩ := Arena.not_blockArgument_of_reached
      Arena.dependsOn_of_hasSlot inside present argument
    exact .inr ⟨holder, block, held, slot, stands, different, inside⟩

/-- A class whose constructor hands the result of an unknown call over to another one. -/
def handingUnknownOver : Arena where
  nodes := ⟨[
    (1, { id := 1, parent := none, location := {}, kind := .script "" (some 2) }),
    (2, { id := 2, parent := some 1, location := {},
          kind := .classDefinition "Counter" none [] (some 3) }),
    (3, { id := 3, parent := some 2, location := {},
          kind := .methodDefinition {
            name := "initialize", kind := .constructor, arguments := 4, body := some 7
            thisArgs := some [6] } }),
    (4, { id := 4, parent := some 3, location := {}, kind := .arguments {} }),
    (5, { id := 5, parent := some 3, location := {},
          kind := .functionalCall "initialize" [6] none }),
    (6, { id := 6, parent := some 5, location := {},
          kind := .functionalCall "answer" [] none }),
    (7, { id := 7, parent := some 3, location := {}, kind := .noop })]⟩
  nextId := 8

/-- The unknown call stays on the worklist, and is there once after resolving gave up. -/
theorem deferrals_are_kept_until_typed_of_handingUnknownOver :
    plain.expander.Declines ∧ ∃ after later,
      Returns (plain.infer 1) (start handingUnknownOver {} ()) none after ∧
      plain.Proceeds after later ∧ later.facts.nodeType? 6 = none ∧
      handingUnknownOver.Below 1 6 ∧ 6 ∈ later.worklist.queue ∧
      plain.stop? later .resolve ≠ none ∧
      (plain.perform later .resolve).worklist.queue.Nodup := by
  have kept := deferrals_are_kept_until_typed plain handingUnknownOver {} ()
  have returned : Returns (plain.infer 1) (start handingUnknownOver {} ()) none
      ((plain.infer 1).run (start handingUnknownOver {} ())).2 :=
    run_eq_of_answer (by decide +kernel)
  have onward : plain.Proceeds ((plain.infer 1).run (start handingUnknownOver {} ())).2
      (plain.perform ((plain.infer 1).run (start handingUnknownOver {} ())).2 .registerTypes) :=
    .step .refl (by decide +kernel)
  have untyped : (plain.perform ((plain.infer 1).run (start handingUnknownOver {} ())).2
      .registerTypes).facts.nodeType? 6 = none := by decide +kernel
  have gaveUp : plain.stop? (plain.perform
      ((plain.infer 1).run (start handingUnknownOver {} ())).2 .registerTypes) .resolve ≠
      none := by decide +kernel
  have below : handingUnknownOver.Below 1 6 :=
    .head ⟨_, rfl, List.mem_cons_self⟩ (.head ⟨_, rfl, List.mem_cons_self⟩
      (.single ⟨_, rfl, List.mem_cons_self⟩))
  have reached : plain.Reachable handingUnknownOver {} () (plain.perform (plain.perform
      ((plain.infer 1).run (start handingUnknownOver {} ())).2 .registerTypes) .resolve) :=
    .step (.step (.step .start (.infer 1)) .registerTypes) .resolve
  exact ⟨plain_declines, _, _, returned, onward, untyped, below,
    ((kept.2 plain_declines _ .refl 1 _ returned).2 _ onward 6 untyped).1 below, gaveUp,
    (kept.1 _ reached).1⟩

/-- A node that is no block argument has no type and is not deferred, although it is reached
through child slots from a node that was visited. -/
theorem numberBesideUnknownCall_is_not_deferred :
    plain.expander.Declines ∧ ∃ after node,
      Returns (plain.infer 1) (start numberBesideUnknownCall {} ()) none after ∧
      Relation.ReflTransGen numberBesideUnknownCall.HasChild 1 5 ∧
      numberBesideUnknownCall.find? 5 = some node ∧ node.kind.isBlockArgument = false ∧
      after.facts.nodeType? 5 = none ∧ after.worklist.queue = [7, 2, 1] := by
  have returned : Returns (plain.infer 1) (start numberBesideUnknownCall {} ()) none
      ((plain.infer 1).run (start numberBesideUnknownCall {} ())).2 :=
    run_eq_of_answer (by decide +kernel)
  have untyped : ((plain.infer 1).run
      (start numberBesideUnknownCall {} ())).2.facts.nodeType? 5 = none := by decide +kernel
  have queue : ((plain.infer 1).run
      (start numberBesideUnknownCall {} ())).2.worklist.queue = [7, 2, 1] := by decide +kernel
  have reached : Relation.ReflTransGen numberBesideUnknownCall.HasChild 1 5 :=
    .head ⟨_, rfl, List.mem_cons_self⟩ (.head ⟨_, rfl, List.mem_cons_self⟩
      (.head ⟨_, rfl, List.mem_cons_self⟩ (.single ⟨_, rfl, List.mem_cons_self⟩)))
  exact ⟨plain_declines, _, _, returned, reached, rfl, rfl, untyped, queue⟩

end Typer

end DeferredTyping
