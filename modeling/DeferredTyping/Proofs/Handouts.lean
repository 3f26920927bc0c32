import DeferredTyping.Proofs.Numbering
import DeferredTyping.Proofs.Replacement

/-!
# Ids that are handed out

An id may be handed out long before a node is added under it, and nodes may be added under
ids that were never handed out.  What an arena is asked for is kept track of by the arenas
that gave an id, in the order in which they were asked.  Whatever is asked of an arena in
between, each of them gave a larger id than the ones before, and one without a node.  While a
builder has an id and builds the children of its node, no other node takes the id.
-/

namespace DeferredTyping

/-- The cause for which a node is not added. -/
def TreeError.OfAdding (cause : TreeError) : Prop :=
  cause = .zeroId ∨ ∃ id, cause = .idTaken id

namespace Arena

section Requests

/-- Splitting off a delegation asks for an id when there is one to split off. -/
def asksToSplit (arena : Arena) (id : NodeId) : List Arena :=
  match arena.opening? id with
  | .ok (some _) => [arena]
  | _ => []

/-- What a builder does to an arena, and the arenas that it asks for ids.  The id of a node is
asked for before its children are built, and the node is added after them, unless the
construction is given up before.  Whatever the children are, and whatever the node is made of
them, it carries the id. -/
inductive Builds : Arena → List Arena → Arena → Prop where
  | nothing (arena : Arena) : Builds arena [] arena
  | node {arena middle grown after : Arena} {inside later : List Arena} {node : Node} :
      Builds arena.reserve.2 inside middle → node.id = arena.reserve.1 →
      middle.add node = .ok grown → Builds grown later after →
      Builds arena (arena :: (inside ++ later)) after
  | abandoned {arena after : Arena} {inside : List Arena} :
      Builds arena.reserve.2 inside after → Builds arena (arena :: inside) after
  | extractDelegation {arena split after : Arena} {id : NodeId} {later : List Arena} :
      arena.extractDelegation id = .ok split → Builds split later after →
      Builds arena (arena.asksToSplit id ++ later) after

/-- The arena after a change; a refused one leaves it as it was. -/
def afterwards (arena : Arena) : Except TreeError Arena → Arena
  | .ok after => after
  | .error _ => arena

/-- What can be asked of an arena: the arenas that are asked for ids, and the arena that it
comes to. -/
inductive Request (arena : Arena) : List Arena → Arena → Prop where
  | reserve : Request arena [arena] arena.reserve.2
  | add (node : Node) : Request arena [] (arena.afterwards (arena.add node))
  | replaceChild (parent old new : NodeId) :
      Request arena [] (arena.afterwards (arena.replaceChild parent old new))
  | extractDelegation (id : NodeId) :
      Request arena (arena.asksToSplit id) (arena.afterwards (arena.extractDelegation id))
  | build {after : Arena} {asked : List Arena} :
      arena.Builds asked after → Request arena asked after

/-- What the arena without nodes comes to by requests, and the arenas that were asked for ids. -/
inductive History : List Arena → Arena → Prop where
  | start : History [] empty
  | request {earlier asked : List Arena} {arena after : Arena} :
      History earlier arena → arena.Request asked after → History (earlier ++ asked) after

end Requests

section Unused

variable {arena before middle after : Arena} {id : NodeId}

/-- An id that was handed out before and that no node has is free afterwards. -/
structure KeepsUnused (before after : Arena) : Prop where
  grown : before.nextId ≤ after.nextId
  unused : ∀ id < before.nextId, before.find? id = none → after.find? id = none

namespace KeepsUnused

theorem refl (arena : Arena) : arena.KeepsUnused arena :=
  ⟨Nat.le_refl _, fun _ _ free => free⟩

theorem trans (early : before.KeepsUnused middle) (late : middle.KeepsUnused after) :
    before.KeepsUnused after where
  grown := Nat.le_trans early.grown late.grown
  unused id handedOut free :=
    late.unused id (Nat.lt_of_lt_of_le handedOut early.grown) (early.unused id handedOut free)

theorem reserve (arena : Arena) : arena.KeepsUnused arena.reserve.2 :=
  ⟨Nat.le_succ _, fun _ _ free => free⟩

/-- A node that is added under an id that was not handed out before. -/
theorem add (kept : before.KeepsUnused middle) {node : Node} (fresh : before.nextId ≤ node.id)
    (added : middle.add node = .ok after) : before.KeepsUnused after where
  grown := Nat.le_trans kept.grown (nextId_add added ▸ Nat.le_max_left _ _)
  unused id handedOut free := by
    have other : id ≠ node.id := Nat.ne_of_lt (Nat.lt_of_lt_of_le handedOut fresh)
    exact ((find?_add added).2.2 other).trans (kept.unused id handedOut free)

theorem setKind (arena : Arena) (id : NodeId) (kind : Kind NodeId) :
    arena.KeepsUnused (arena.setKind id kind) where
  grown := Nat.le_of_eq (nextId_setKind arena id kind).symm
  unused other _ free := by
    by_cases here : other = id
    · subst here
      have same : arena.setKind other kind = arena := by rw [Arena.setKind, free]
      rw [same, free]
    · exact (find?_setKind_of_ne arena kind here).trans free

theorem replaceChild {parent old new : NodeId}
    (replaced : arena.replaceChild parent old new = .ok after) : arena.KeepsUnused after := by
  obtain ⟨_, _, kind, _, _, _, _, rfl⟩ := replaceChild_replaces replaced
  exact setKind arena parent kind

theorem recordCall (arena : Arena) (id : NodeId) (call : Delegation) :
    arena.KeepsUnused (arena.recordCall id call) := by
  unfold Arena.recordCall
  split
  · exact setKind arena id _
  · exact refl arena

theorem extractDelegation (extracted : arena.extractDelegation id = .ok after) :
    arena.KeepsUnused after := by
  rcases steps_of_extractDelegation extracted with
    ⟨_, rfl⟩ | ⟨opening, grown, edited, _, added, replaced, rfl⟩
  · exact refl after
  · have grows := (reserve arena).add (Nat.le_refl _) added
    exact (grows.trans (replaceChild replaced)).trans (recordCall _ _ _)

end KeepsUnused

variable {asked : List Arena}

/-- A builder gives no id away that was handed out before it was called. -/
theorem Builds.keepsUnused (builds : before.Builds asked after) : before.KeepsUnused after := by
  induction builds with
  | nothing arena => exact .refl arena
  | @node arena middle grown after inside later node _ own added _ inner rest =>
      have kept := (KeepsUnused.reserve arena).trans inner
      exact (kept.add (Nat.le_of_eq own.symm) added).trans rest
  | abandoned _ inner => exact (KeepsUnused.reserve _).trans inner
  | extractDelegation extracted _ rest => exact (KeepsUnused.extractDelegation extracted).trans rest

/-- After its children were built, a node can be added under the id that was handed out for
it. -/
theorem Numbered.exists_add_of_builds (numbered : arena.Numbered)
    (builds : arena.reserve.2.Builds asked middle) {node : Node}
    (own : node.id = arena.reserve.1) : ∃ grown, middle.add node = .ok grown := by
  have free : arena.reserve.2.find? arena.nextId = none := numbered.unused (Nat.le_refl _)
  have still := builds.keepsUnused.unused arena.nextId (Nat.lt_succ_self _) free
  have named : node.id = arena.nextId := own
  exact ⟨_, add_of_unused (named ▸ numbered.positive) (named ▸ still)⟩

end Unused

section Refusals

variable {arena : Arena} {id : NodeId} {cause : TreeError}

theorem node_refused (refused : arena.node id = .error cause) : cause = .nodeNotFound id := by
  unfold Arena.node at refused
  split at refused
  · cases refused
  · cases refused
    rfl

/-- Reading what a constructor opens with is refused for nodes that are missing and for nodes
that are no constructors. -/
theorem not_ofAdding_of_opening? (refused : arena.opening? id = .error cause) :
    ¬ cause.OfAdding := by
  have missing : ∀ {id cause}, arena.node id = .error cause → ¬ cause.OfAdding := by
    intro id cause refused
    obtain rfl := node_refused refused
    rintro (same | ⟨_, same⟩) <;> cases same
  have noConstructor : ¬ (TreeError.notAConstructor id).OfAdding := by
    rintro (same | ⟨_, same⟩) <;> cases same
  rcases stopped_of_bind_eq_error refused with stored | ⟨constructor, _, reads⟩
  · exact missing stored
  · split at reads
    · rename_i method _
      by_cases constructs : method.isConstructor
      · rw [if_pos constructs] at reads
        split at reads
        · cases reads
        · split at reads
          · rcases stopped_of_bind_eq_error reads with leads | ⟨leading, _, follows⟩
            · rcases stopped_of_bind_eq_error leads with stored | ⟨body, _, listed⟩
              · exact missing stored
              · split at listed <;> cases listed
            · split at follows
              · rcases stopped_of_bind_eq_error follows with stored | ⟨statement, _, calls⟩
                · exact missing stored
                · split at calls <;> cases calls
              · cases follows
          · cases reads
      · rw [if_neg constructs] at reads
        cases reads
        exact noConstructor
    · cases reads
      exact noConstructor

/-- The slot of a call that was read holds the call. -/
theorem Opens.exists_slot {opening : Opening} (opens : arena.Opens id opening) :
    ∃ node, arena.find? opening.holder = some node ∧ opening.first ∈ node.kind.children := by
  obtain ⟨body, stated, leads⟩ := opens.leads
  rcases leads.list_or_single with ⟨node, rest, held, kind⟩ | ⟨same, rfl⟩
  · exact ⟨node, held, kind ▸ List.mem_cons_self⟩
  · refine ⟨opening.constructor, same ▸ opens.present, ?_⟩
    rw [opens.kind]
    exact List.mem_cons_of_mem _ (Option.mem_toList.mpr stated)

/-- What can be read is split off, whatever the rest of the arena is like. -/
theorem Numbered.exists_extractDelegation (numbered : arena.Numbered) {opening : Opening}
    (opens : arena.Opens id opening) : ∃ after, arena.extractDelegation id = .ok after := by
  obtain ⟨node, held, slot⟩ := opens.exists_slot
  obtain ⟨kind, refilled⟩ : ∃ kind,
      node.kind.replaceFirst? opening.first arena.nextId = some kind :=
    Option.ne_none_iff_exists'.mp fun none => Kind.replaceFirst?_eq_none_iff.mp none slot
  obtain ⟨edited, _, _, _, _, detached⟩ :=
    detach_of_refilled numbered.positive (numbered.unused (Nat.le_refl _)) held refilled
  exact ⟨_, opens.extractDelegation_eq.trans detached⟩

/-- Splitting off is refused for what the reading is refused for. -/
theorem Numbered.opening?_of_refused (numbered : arena.Numbered)
    (refused : arena.extractDelegation id = .error cause) : arena.opening? id = .error cause := by
  cases read : arena.opening? id with
  | error other =>
      rw [extractDelegation_eq, read] at refused
      exact congrArg Except.error (Except.error.inj refused)
  | ok opening? =>
      cases opening? with
      | none =>
          rw [extractDelegation_eq, read] at refused
          cases refused
      | some opening =>
          obtain ⟨after, extracted⟩ :=
            numbered.exists_extractDelegation (opening?_eq_some_iff.mp read)
          cases extracted.symm.trans refused

end Refusals

section Handouts

variable {before arena middle after : Arena} {asked earlier later : List Arena} {id : NodeId}

/-- Between two arenas these arenas were asked for ids, each of which is larger than the ones
before. -/
structure HandsOut (before : Arena) (asked : List Arena) (after : Arena) : Prop where
  grown : before.nextId ≤ after.nextId
  ascending : (asked.map fun giver => giver.reserve.1).Pairwise (· < ·)
  within : ∀ giver ∈ asked, before.nextId ≤ giver.reserve.1 ∧ giver.reserve.1 < after.nextId
  givers : ∀ giver ∈ asked, giver.Numbered
  numbered : after.Numbered

namespace HandsOut

theorem nothing (grown : before.nextId ≤ after.nextId) (numbered : after.Numbered) :
    before.HandsOut [] after where
  grown := grown
  ascending := .nil
  within := nofun
  givers := nofun
  numbered := numbered

theorem reserve (numbered : arena.Numbered) : arena.HandsOut [arena] arena.reserve.2 where
  grown := Nat.le_succ _
  ascending := List.pairwise_singleton _ _
  within := List.forall_mem_singleton.mpr ⟨Nat.le_refl _, Nat.lt_succ_self _⟩
  givers := List.forall_mem_singleton.mpr numbered
  numbered := numbered.reserve

theorem trans (early : before.HandsOut earlier middle) (late : middle.HandsOut later after) :
    before.HandsOut (earlier ++ later) after where
  grown := Nat.le_trans early.grown late.grown
  ascending := by
    rw [List.map_append]
    refine List.pairwise_append.mpr ⟨early.ascending, late.ascending, ?_⟩
    intro first mem second also
    obtain ⟨giver, member, rfl⟩ := List.mem_map.mp mem
    obtain ⟨other, next, rfl⟩ := List.mem_map.mp also
    exact Nat.lt_of_lt_of_le (early.within giver member).2 (late.within other next).1
  within := List.forall_mem_append.mpr
    ⟨fun giver member => ⟨(early.within giver member).1,
      Nat.lt_of_lt_of_le (early.within giver member).2 late.grown⟩,
    fun giver member => ⟨Nat.le_trans early.grown (late.within giver member).1,
      (late.within giver member).2⟩⟩
  givers := List.forall_mem_append.mpr ⟨early.givers, late.givers⟩
  numbered := late.numbered

theorem extractDelegation (numbered : arena.Numbered)
    (extracted : arena.extractDelegation id = .ok after) :
    arena.HandsOut (arena.asksToSplit id) after := by
  have kept := numbered.extractDelegation extracted
  rcases steps_of_extractDelegation extracted with
    ⟨read, rfl⟩ | ⟨opening, grown, edited, read, added, replaced, rfl⟩
  · rw [asksToSplit, read]
    exact nothing (Nat.le_refl _) numbered
  · rw [asksToSplit, read]
    refine (reserve numbered).trans (nothing ?_ kept)
    calc arena.reserve.2.nextId
        ≤ grown.nextId := nextId_add added ▸ Nat.le_max_left _ _
      _ ≤ edited.nextId := (KeepsUnused.replaceChild replaced).grown
      _ ≤ _ := (KeepsUnused.recordCall edited _ _).grown

end HandsOut

/-- What a builder does asks for ids in ascending order. -/
theorem Builds.handsOut (builds : before.Builds asked after) (numbered : before.Numbered) :
    before.HandsOut asked after := by
  induction builds with
  | nothing arena => exact .nothing (Nat.le_refl _) numbered
  | node _ _ added _ inner rest =>
      have children := inner numbered.reserve
      have stored := children.numbered.add added
      have added := HandsOut.nothing (nextId_add added ▸ Nat.le_max_left _ _) stored
      exact (HandsOut.reserve numbered).trans (children.trans (added.trans (rest stored)))
  | abandoned _ inner => exact (HandsOut.reserve numbered).trans (inner numbered.reserve)
  | extractDelegation extracted _ rest =>
      exact (HandsOut.extractDelegation numbered extracted).trans
        (rest (numbered.extractDelegation extracted))

/-- Whatever is asked of an arena asks for ids in ascending order. -/
theorem Request.handsOut (request : arena.Request asked after) (numbered : arena.Numbered) :
    arena.HandsOut asked after := by
  cases request with
  | reserve => exact .reserve numbered
  | add node =>
      cases added : arena.add node with
      | error cause => exact .nothing (Nat.le_refl _) numbered
      | ok grown => exact .nothing (nextId_add added ▸ Nat.le_max_left _ _) (numbered.add added)
  | replaceChild parent old new =>
      cases replaced : arena.replaceChild parent old new with
      | error cause => exact .nothing (Nat.le_refl _) numbered
      | ok edited =>
          exact .nothing (KeepsUnused.replaceChild replaced).grown (numbered.replaceChild replaced)
  | extractDelegation id =>
      cases extracted : arena.extractDelegation id with
      | error cause =>
          rw [asksToSplit, numbered.opening?_of_refused extracted]
          exact .nothing (Nat.le_refl _) numbered
      | ok split => exact .extractDelegation numbered extracted
  | build builds => exact builds.handsOut numbered

theorem History.handsOut (history : History asked arena) : empty.HandsOut asked arena := by
  induction history with
  | start => exact .nothing (Nat.le_refl _) .empty
  | request _ request ih => exact ih.trans (request.handsOut ih.numbered)

end Handouts

theorem Builds.trans {before middle after : Arena} {earlier later : List Arena}
    (early : before.Builds earlier middle) (late : middle.Builds later after) :
    before.Builds (earlier ++ later) after := by
  induction early with
  | nothing arena => exact late
  | node inner own added _ _ rest =>
      rw [List.cons_append, List.append_assoc]
      exact .node inner own added (rest late)
  | abandoned _ inner => exact .abandoned (inner late)
  | extractDelegation extracted _ rest =>
      rw [List.append_assoc]
      exact .extractDelegation extracted (rest late)

end Arena

namespace Build

open Arena

variable {α : Type} {builder : Builder}

/-- From this builder, the step does what a builder does to its arena, refused or not, and it
is not refused because a node could not be added. -/
structure BuildsFrom (builder : Builder) (step : Build α) : Prop where
  builds : ∃ asked, builder.arena.Builds asked (exec step builder).2.arena
  adds : ∀ cause, (exec step builder).1 = .error cause → ¬ cause.OfAdding

theorem BuildsFrom.of_exec {step : Build α} {answer : Except TreeError α} {after : Builder}
    {asked : List Arena} (run : exec step builder = (answer, after))
    (builds : builder.arena.Builds asked after.arena)
    (adds : ∀ cause, answer = .error cause → ¬ cause.OfAdding) : BuildsFrom builder step where
  builds := ⟨asked, by rwa [run]⟩
  adds := by rwa [run]

/-- The id of a node is still free when its children were built. -/
theorem BuildsFrom.growNode {position : Option (Nat × Nat)} {parent : Option NodeId}
    {splits : Bool} {children : NodeId → Build (Kind NodeId)}
    (numbered : builder.arena.Numbered)
    (below : ∀ id started, started.arena.Numbered → BuildsFrom started (children id)) :
    BuildsFrom builder (growNode position parent splits children) := by
  obtain ⟨started, location, reserved, ended⟩ :=
    exec_growNode position parent splits children builder
  obtain ⟨⟨inside, builds⟩, adds⟩ :=
    below builder.arena.nextId started (reserved ▸ numbered.reserve)
  rw [reserved] at builds
  rw [exec_bind] at ended
  rcases run : exec (children builder.arena.nextId) started with ⟨cause | kind, middle⟩
  · rw [run] at ended builds adds
    refine .of_exec ended (.abandoned builds) ?_
    rintro _ ⟨⟩
    exact adds cause rfl
  · rw [run] at ended builds
    let node : Node := { id := builder.arena.nextId, parent, location, kind }
    obtain ⟨grown, added⟩ := numbered.exists_add_of_builds builds (rfl : node.id = _)
    have stored : grown.Numbered := (builds.handsOut numbered.reserve).numbered.add added
    have whole := ended.trans (exec_addNode added)
    cases splits with
    | false => exact .of_exec whole (.node builds rfl added (.nothing grown)) nofun
    | true =>
        cases extracted : grown.extractDelegation node.id with
        | error cause =>
            rw [if_pos rfl, extracted] at whole
            refine .of_exec whole (.node builds rfl added (.nothing grown)) ?_
            rintro _ ⟨⟩
            exact not_ofAdding_of_opening? (stored.opening?_of_refused extracted)
        | ok after =>
            rw [if_pos rfl, extracted] at whole
            exact .of_exec whole
              (.node builds rfl added (.extractDelegation extracted (.nothing after))) nofun

theorem BuildsFrom.bind {β : Type} {step : Build α} {next : α → Build β}
    (numbered : builder.arena.Numbered) (first : BuildsFrom builder step)
    (second : ∀ value middle, middle.arena.Numbered → BuildsFrom middle (next value)) :
    BuildsFrom builder (step >>= next) := by
  obtain ⟨⟨earlier, builds⟩, adds⟩ := first
  have ended := exec_bind step next builder
  rcases run : exec step builder with ⟨cause | value, middle⟩
  · rw [run] at ended builds adds
    refine .of_exec ended builds ?_
    rintro _ ⟨⟩
    exact adds cause rfl
  · rw [run] at ended builds
    obtain ⟨⟨later, rest⟩, adds⟩ := second value middle (builds.handsOut numbered).numbered
    exact .of_exec ended (builds.trans rest) adds

/-- The calls of a builder are never refused because a node could not be added. -/
theorem MadeOfCalls.buildsFrom {step : Build α} (made : MadeOfCalls step)
    (numbered : builder.arena.Numbered) : BuildsFrom builder step := by
  induction made generalizing builder with
  | pure value => exact ⟨⟨_, .nothing builder.arena⟩, nofun⟩
  | bind _ _ first second =>
      exact .bind numbered (first numbered) fun value _ kept => second value kept
  | node _ children => exact .growNode numbered fun id _ kept => children id kept

end Build

namespace Arena

/-- Whatever is asked of an arena that starts without nodes, and refused requests among it:
every node is stored under its own id, which is not zero and below the id that is handed out
next.  The ids that were handed out ascend, none of them is zero, and none of them had a node
when it was handed out.  When a builder has built the children of a node, the node can be
added under the id that was handed out for it, wherever in a construction that is; so neither
a construction nor splitting off a delegation is refused because a node could not be added.
What a construction does is what a builder does, and drafts are built by constructions. -/
theorem ids_are_never_reused {asked : List Arena} {arena : Arena}
    (history : History asked arena) :
    (∀ id node, (id, node) ∈ arena.nodes.entries →
      id ≠ 0 ∧ node.id = id ∧ id < arena.nextId) ∧
    (asked.map fun giver => giver.reserve.1).Pairwise (· < ·) ∧
    (∀ giver ∈ asked, giver.reserve.1 ≠ 0 ∧ giver.find? giver.reserve.1 = none) ∧
    (∀ inside middle, arena.reserve.2.Builds inside middle → ∀ node, node.id = arena.reserve.1 →
      ∃ grown, middle.add node = .ok grown) ∧
    (∀ id cause, arena.extractDelegation id = .error cause → ¬ cause.OfAdding) ∧
    (∀ {α : Type} (source : String) (construction : Build α), construction.MadeOfCalls →
      (∃ inside, arena.Builds inside (arena.construct source construction).2) ∧
        ∀ cause, (arena.construct source construction).1 = .error cause → ¬ cause.OfAdding) ∧
    ∀ parent (draft : Draft NodeId), (draft.build id parent).MadeOfCalls := by
  have hands := history.handsOut
  have numbered := hands.numbered
  refine ⟨?_, hands.ascending, ?_,
    fun _ _ builds _ own => numbered.exists_add_of_builds builds own,
    fun _ _ refused => not_ofAdding_of_opening? (numbered.opening?_of_refused refused), ?_,
    Build.madeOfCalls_build id⟩
  · intro id node member
    have present : arena.find? id = some node := numbered.keyed.ascending.get?_of_mem member
    refine ⟨?_, numbered.keyed.id_eq present, numbered.below present⟩
    rintro rfl
    cases numbered.zero.symm.trans present
  · intro giver member
    have sound := hands.givers giver member
    exact ⟨sound.positive, sound.unused (Nat.le_refl _)⟩
  · intro α source construction made
    have built : Build.BuildsFrom { arena, source } construction := made.buildsFrom numbered
    exact ⟨built.builds, built.adds⟩

section

/-- A constructor whose list of parameters is still missing. -/
private def unfinishedConstructor : Node where
  id := 3
  parent := none
  location := {}
  kind := .methodDefinition {
    name := "initialize", kind := .constructor, arguments := 9, body := some 5 }

/-- Its body, which is a delegation call. -/
private def unfinishedBody : Node where
  id := 5
  parent := some 3
  location := {}
  kind := .superCall []

private def unfinished : Arena where
  nodes := ⟨[(3, unfinishedConstructor), (5, unfinishedBody)]⟩
  nextId := 6

private def unfinishedSplit : Arena := unfinished.afterwards (unfinished.extractDelegation 3)

/-- Two nodes are added under ids of their own, one of them twice; then a delegation is split
off, an id is reserved and not used, and a builder builds the missing list of parameters. -/
theorem ids_are_never_reused_of_unfinished :
    ∃ asked arena, History asked arena ∧
      (asked.map fun giver => giver.reserve.1) = [6, 7, 8] ∧ arena.nodes.keys = [3, 5, 6, 8] ∧
      (∀ giver ∈ asked, giver.find? giver.reserve.1 = none) ∧
      ∃ grown, arena.reserve.2.add { unfinishedBody with id := 9 } = .ok grown := by
  have added : History [] unfinished :=
    ((History.start.request (.add unfinishedConstructor)).request (.add unfinishedBody)).request
      (.add unfinishedBody)
  have halved : History [unfinished] unfinishedSplit := added.request (.extractDelegation 3)
  have reserved : History [unfinished, unfinishedSplit] unfinishedSplit.reserve.2 :=
    halved.request .reserve
  have history : History [unfinished, unfinishedSplit, unfinishedSplit.reserve.2] _ :=
    reserved.request <| .build <| .node (.nothing _) rfl
      (rfl : Arena.add _ { id := 8, parent := some 3, location := {}, kind := .arguments {} } = _)
      (.nothing _)
  obtain ⟨_, _, fresh, adds, _⟩ := ids_are_never_reused history
  exact ⟨_, _, history, by decide, by decide, fun giver member => (fresh giver member).2,
    adds _ _ (.nothing _) _ rfl⟩

end

end Arena

end DeferredTyping
