import DeferredTyping.Proofs.Linkage
import DeferredTyping.Tree.Draft

/-!
# Construction links

A draft that refers to nothing outside of itself is built of new nodes only.  The
children of a node are built before the node is added, and each of them is new then
and carries the id that was reserved for the node; so the node may be added above
them.  A construction that is refused leaves the nodes built so far, linked as well.
-/

namespace DeferredTyping

namespace Arena

/-- Nodes that were built for a parent: they are new, each of them once, and carry it. -/
structure Planted (before after : Arena) (parent : Option NodeId) (ids : List NodeId) :
    Prop where
  distinct : ids.Nodup
  fresh : ∀ id ∈ ids, before.find? id = none
  carried : ∀ id ∈ ids, ∃ node, after.find? id = some node ∧ node.parent = parent

namespace Planted

variable {parent : Option NodeId} {ids others : List NodeId}

theorem nil (before after : Arena) (parent : Option NodeId) :
    before.Planted after parent [] where
  distinct := List.nodup_nil
  fresh := nofun
  carried := nofun

/-- What is planted later differs from what was planted before. -/
theorem append
    {first second third : Arena}
    (early : first.Planted second parent ids) (late : second.Planted third parent others)
    (kept : first.KeepsParents second) (onward : second.KeepsParents third) :
    first.Planted third parent (ids ++ others) where
  distinct := by
    refine List.nodup_append.mpr ⟨early.distinct, late.distinct, ?_⟩
    rintro id member other also rfl
    obtain ⟨node, present, _⟩ := early.carried id member
    rw [late.fresh id also] at present
    cases present
  fresh id member := by
    rcases List.mem_append.mp member with earlier | later
    · exact early.fresh id earlier
    · by_contra present
      obtain ⟨node, found⟩ := Option.ne_none_iff_exists'.mp present
      obtain ⟨still, there, _⟩ := kept found
      rw [late.fresh id later] at there
      cases there
  carried id member := by
    rcases List.mem_append.mp member with earlier | later
    · obtain ⟨node, present, carries⟩ := early.carried id earlier
      obtain ⟨still, found, same⟩ := onward present
      exact ⟨still, found, same.trans carries⟩
    · exact late.carried id later

end Planted

end Arena

namespace Build

variable {α β : Type} {builder middle : Builder}

/-- Runs a step of construction. -/
def exec (step : Build α) (builder : Builder) : Except TreeError α × Builder :=
  step.run.run builder

theorem exec_bind (step : Build α) (next : α → Build β) (builder : Builder) :
    exec (step >>= next) builder =
      match exec step builder with
      | (.ok value, middle) => exec (next value) middle
      | (.error cause, middle) => (.error cause, middle) := by
  simp only [exec, ExceptT.run, StateT.run, bind, ExceptT.bind, ExceptT.mk, StateT.bind,
    ExceptT.bindCont]
  rcases step builder with ⟨answer, middle⟩
  cases answer <;> rfl

/-- From this builder, a step keeps the parents of nodes, refused or not.  When it refers to
nothing it keeps good links, too, and its answer was planted under the parent. -/
structure PlantsFrom (complete : Prop) (parent : Option NodeId)
    (yields : α → List NodeId → Prop) (builder : Builder) (step : Build α) : Prop where
  parents : builder.arena.KeepsParents (exec step builder).2.arena
  linked : complete → builder.arena.WellLinked → (exec step builder).2.arena.WellLinked
  planted : complete → ∀ {value}, (exec step builder).1 = .ok value →
    ∃ ids, yields value ids ∧ builder.arena.Planted (exec step builder).2.arena parent ids

/-- The same from every builder. -/
def Plants (complete : Prop) (parent : Option NodeId) (yields : α → List NodeId → Prop)
    (step : Build α) : Prop :=
  ∀ builder, PlantsFrom complete parent yields builder step

section

variable {complete : Prop} {parent : Option NodeId} {yields : α → List NodeId → Prop}
  {results : β → List NodeId → Prop} {step : Build α} {next : α → Build β}

theorem Plants.pure {value : α} (answers : yields value []) :
    Plants complete parent yields (Pure.pure value) := by
  intro builder
  refine ⟨.refl _, fun _ linked => linked, ?_⟩
  rintro _ _ ⟨⟩
  exact ⟨[], answers, .nil _ _ _⟩

/-- What the second step answers is told from what the first one may have planted. -/
protected theorem Plants.bind
    (first : Plants complete parent yields step)
    (second : ∀ value, Plants complete parent
      (fun result others => ∀ ids, yields value ids → results result (ids ++ others))
      (next value)) :
    Plants complete parent results (step >>= next) := by
  intro builder
  obtain ⟨parents, linked, planted⟩ := first builder
  rcases run : exec step builder with ⟨cause | value, middle⟩
  · rw [run] at parents linked
    have ended : exec (step >>= next) builder = (.error cause, middle) := by
      rw [exec_bind, run]
    refine ⟨ended ▸ parents, ended ▸ linked, ?_⟩
    intro _ result answered
    rw [ended] at answered
    cases answered
  · rw [run] at parents linked planted
    have ended : exec (step >>= next) builder = exec (next value) middle := by
      rw [exec_bind, run]
    obtain ⟨onward, still, last⟩ := second value middle
    rw [← ended] at onward still last
    refine ⟨parents.trans onward, fun whole before => still whole (linked whole before), ?_⟩
    intro whole result answered
    obtain ⟨ids, yielded, early⟩ := planted whole rfl
    obtain ⟨others, results, late⟩ := last whole answered
    exact ⟨ids ++ others, results ids yielded, early.append late parents onward⟩

/-- Some of what was planted may be left out. -/
theorem Plants.forget (plants : Plants complete parent yields step) :
    Plants complete parent (fun _ ids => ids = []) step := by
  intro builder
  obtain ⟨parents, linked, _⟩ := plants builder
  exact ⟨parents, linked, fun _ _ _ => ⟨[], rfl, .nil _ _ _⟩⟩

/-- A step that goes on from a later builder. -/
theorem PlantsFrom.of_exec
    {rest : Build α} (run : exec step builder = exec rest middle)
    (kept : builder.arena.KeepsParents middle.arena)
    (still : complete → builder.arena.WellLinked → middle.arena.WellLinked)
    (plants : PlantsFrom complete parent yields middle rest) :
    PlantsFrom complete parent yields builder step := by
  obtain ⟨parents, linked, planted⟩ := plants
  rw [← run] at parents linked planted
  refine ⟨kept.trans parents, fun whole before => linked whole (still whole before), ?_⟩
  intro whole value answered
  obtain ⟨ids, yielded, late⟩ := planted whole answered
  exact ⟨ids, yielded, (Arena.Planted.nil _ _ _).append late kept parents⟩

theorem PlantsFrom.of_error
    {cause : TreeError} (run : exec step builder = (.error cause, middle))
    (kept : builder.arena.KeepsParents middle.arena)
    (still : complete → builder.arena.WellLinked → middle.arena.WellLinked) :
    PlantsFrom complete parent yields builder step := by
  refine ⟨run ▸ kept, run ▸ still, ?_⟩
  intro _ value answered
  rw [run] at answered
  cases answered

end

theorem exec_edit (change : Arena → Except TreeError Arena) (builder : Builder) :
    exec (edit change) builder =
      match change builder.arena with
      | .ok arena => (.ok (), { builder with arena })
      | .error cause => (.error cause, builder) := by
  have taken : exec (edit change) builder = exec (match change builder.arena with
    | .ok arena => set { builder with arena }
    | .error cause => throw cause) builder := rfl
  rw [taken]
  cases change builder.arena <;> rfl

/-- Adds a node whose children are there, and splits its delegation off. -/
def addNode (node : Node) (splits : Bool) : Build NodeId := do
  edit fun arena => arena.add node
  if splits then
    edit fun arena => arena.extractDelegation node.id
  return node.id

/-- What splitting off is refused for is what a node that can be added is refused for, and the
node is there all the same. -/
theorem exec_addNode {node : Node} {splits : Bool} {grown : Arena}
    (added : builder.arena.add node = .ok grown) :
    exec (addNode node splits) builder =
      match if splits then grown.extractDelegation node.id else .ok grown with
      | .ok after => (.ok node.id, { builder with arena := after })
      | .error cause => (.error cause, { builder with arena := grown }) := by
  rw [addNode, exec_bind, exec_edit, added]
  cases splits with
  | false => rfl
  | true =>
      dsimp only
      rw [if_pos rfl, if_pos rfl, exec_bind, exec_edit]
      cases grown.extractDelegation node.id <;> rfl

theorem addNode_plants
    {complete : Prop} (node : Node) (splits : Bool)
    (children : complete → node.children.Nodup ∧ ∀ child ∈ node.children,
      ∃ other, builder.arena.find? child = some other ∧ other.parent = some node.id) :
    PlantsFrom complete node.parent (fun id ids => ids = [id]) builder
      (addNode node splits) := by
  cases added : builder.arena.add node with
  | error cause =>
      have run : exec (addNode node splits) builder = (.error cause, builder) := by
        rw [addNode, exec_bind, exec_edit, added]
      exact .of_error run (.refl _) fun _ linked => linked
  | ok grown =>
      obtain ⟨absent, stored, _⟩ := Arena.find?_add added
      have parents := Arena.keepsParents_add added
      have linked : complete → builder.arena.WellLinked → grown.WellLinked := by
        intro whole before
        obtain ⟨distinct, named⟩ := children whole
        exact before.add added distinct named
      -- What follows keeps the new node and its parent.
      have answers : ∀ {after : Arena}, grown.StaysLinked after →
          exec (addNode node splits) builder = (.ok node.id, { builder with arena := after }) →
          PlantsFrom complete node.parent (fun id ids => ids = [id]) builder
            (addNode node splits) := by
        intro after stays run
        refine ⟨run ▸ parents.trans stays.parents,
          fun whole before => run ▸ stays.linked (linked whole before), ?_⟩
        intro _ id answered
        rw [run] at answered
        cases answered
        obtain ⟨later, still, same⟩ := stays.parents stored
        rw [run]
        exact ⟨[node.id], rfl, List.nodup_singleton _, by simpa using absent,
          by simpa using ⟨later, still, same⟩⟩
      have run : exec (addNode node splits) builder = _ := exec_addNode added
      cases splits with
      | false => exact answers (.refl grown) run
      | true =>
          cases split : grown.extractDelegation node.id with
          | error cause =>
              rw [if_pos rfl, split] at run
              exact .of_error run parents linked
          | ok after =>
              rw [if_pos rfl, split] at run
              exact answers (Arena.staysLinked_extractDelegation split) run

/-- Builds a node above the children that are built for its id. -/
def growNode (position : Option (Nat × Nat)) (parent : Option NodeId) (splits : Bool)
    (children : NodeId → Build (Kind NodeId)) : Build NodeId := do
  moveTo position
  let (id, location) ← reserve
  let kind ← children id
  addNode { id, parent, location, kind } splits

/-- The id is reserved before the children are built, and the node is added after them. -/
theorem exec_growNode
    (position : Option (Nat × Nat)) (parent : Option NodeId) (splits : Bool)
    (children : NodeId → Build (Kind NodeId)) (builder : Builder) :
    ∃ started location, started.arena = builder.arena.reserve.2 ∧
      exec (growNode position parent splits children) builder =
        exec (children builder.arena.nextId >>= fun kind =>
          addNode { id := builder.arena.nextId, parent, location, kind } splits) started := by
  cases position with
  | none => exact ⟨_, _, rfl, rfl⟩
  | some place => exact ⟨_, _, rfl, rfl⟩

theorem plants_growNode
    {complete : Prop} {parent : Option NodeId} {position : Option (Nat × Nat)} {splits : Bool}
    {children : NodeId → Build (Kind NodeId)}
    (plants : ∀ id, Plants complete (some id) (fun built ids => ids = built.children)
      (children id)) :
    Plants complete parent (fun id ids => ids = [id])
      (growNode position parent splits children) := by
  intro builder
  obtain ⟨started, location, reserved, ended⟩ :=
    exec_growNode position parent splits children builder
  have begun : builder.arena.StaysLinked started.arena := .of_find?_eq fun id => by
    rw [reserved]
    rfl
  obtain ⟨parents, linked, planted⟩ := plants builder.arena.nextId started
  rcases run : exec (children builder.arena.nextId) started with ⟨cause | built, middle⟩
  · rw [run] at parents linked
    rw [exec_bind, run] at ended
    exact .of_error ended (begun.parents.trans parents)
      fun whole before => linked whole (begun.linked before)
  · rw [run] at parents linked planted
    rw [exec_bind, run] at ended
    have finishes := addNode_plants
      { id := builder.arena.nextId, parent, location, kind := built } splits
      fun whole => by
        obtain ⟨ids, rfl, placed⟩ := planted whole rfl
        exact ⟨placed.distinct, placed.carried⟩
    exact .of_exec ended (begun.parents.trans parents)
      (fun whole before => linked whole (begun.linked before)) finishes

variable {ρ : Type} (resolve : ρ → NodeId)

/-- A draft of a node is built above its children. -/
theorem build_node (parent : Option NodeId) (position : Option (Nat × Nat)) (splits : Bool)
    (kind : Kind (Draft ρ)) :
    Draft.build resolve parent (.node position splits kind) =
      growNode position parent splits fun id => Draft.buildKind resolve id kind := by
  rw [Draft.build]
  rfl

mutual

theorem plants_build (parent : Option NodeId) (draft : Draft ρ) :
    Plants (IsEmpty ρ) parent (fun id ids => ids = [id]) (draft.build resolve parent) := by
  cases draft with
  | ref target =>
      intro builder
      refine ⟨.refl _, fun _ linked => linked, ?_⟩
      intro absent
      exact absent.elim target
  | node position splits kind =>
      rw [build_node]
      exact plants_growNode fun id => plants_buildKind id kind

theorem plants_buildList (parent : NodeId) (drafts : List (Draft ρ)) :
    Plants (IsEmpty ρ) (some parent) (fun built ids => ids = built)
      (Draft.buildList resolve parent drafts) := by
  cases drafts with
  | nil => exact .pure rfl
  | cons draft rest =>
      refine (plants_build (some parent) draft).bind fun id => ?_
      refine (plants_buildList parent rest).bind fun ids => .pure ?_
      rintro _ rfl _ rfl
      simp

theorem plants_buildOption (parent : NodeId) (draft : Option (Draft ρ)) :
    Plants (IsEmpty ρ) (some parent) (fun built ids => ids = built.toList)
      (Draft.buildOption resolve parent draft) := by
  cases draft with
  | none => exact .pure rfl
  | some draft =>
      refine (plants_build (some parent) draft).bind fun id => .pure ?_
      rintro _ rfl
      rfl

/-- The arguments of a delegation are in no child slot. -/
theorem plants_buildDelegation (parent : NodeId) (drafts : Option (List (Draft ρ))) :
    Plants (IsEmpty ρ) (some parent) (fun _ ids => ids = [])
      (Draft.buildDelegation resolve parent drafts) := by
  cases drafts with
  | none => exact .pure rfl
  | some drafts =>
      refine (plants_buildList parent drafts).forget.bind fun ids => .pure ?_
      rintro _ rfl
      rfl

theorem plants_buildMethod (parent : NodeId) (method : Method (Draft ρ)) :
    Plants (IsEmpty ρ) (some parent)
      (fun built ids => ids = built.arguments :: built.body.toList)
      (Draft.buildMethod resolve parent method) := by
  obtain ⟨name, kind, declared, arguments, body, thisArgs, superArgs⟩ := method
  refine (plants_build (some parent) arguments).bind fun arguments => ?_
  refine (plants_buildOption parent body).bind fun body => ?_
  refine (plants_buildDelegation parent thisArgs).bind fun thisArgs => ?_
  refine (plants_buildDelegation parent superArgs).bind fun superArgs => .pure ?_
  rintro _ rfl _ rfl _ rfl _ rfl
  simp

theorem plants_buildArguments (parent : NodeId) (list : ArgumentList (Draft ρ)) :
    Plants (IsEmpty ρ) (some parent)
      (fun built ids => ids = (Kind.arguments built).children)
      (Draft.buildArguments resolve parent list) := by
  obtain ⟨required, optional, rest, block⟩ := list
  refine (plants_buildList parent required).bind fun required => ?_
  refine (plants_buildList parent optional).bind fun optional => ?_
  refine (plants_buildOption parent rest).bind fun rest => ?_
  refine (plants_buildOption parent block).bind fun block => .pure ?_
  rintro _ rfl _ rfl _ rfl _ rfl
  simp [Kind.children]

theorem plants_buildKind (parent : NodeId) (kind : Kind (Draft ρ)) :
    Plants (IsEmpty ρ) (some parent) (fun built ids => ids = built.children)
      (Draft.buildKind resolve parent kind) := by
  cases kind with
  | script name content | classDefinition name superclass interfaces content
  | interfaceDeclaration name interfaces content | returning content =>
      refine (plants_buildOption parent content).bind fun content => .pure ?_
      rintro _ rfl
      simp [Kind.children]
  | methodDefinition method =>
      refine (plants_buildMethod parent method).bind fun method => .pure ?_
      rintro _ rfl
      simp [Kind.children]
  | arguments list =>
      refine (plants_buildArguments parent list).bind fun list => .pure ?_
      rintro _ rfl
      simp
  | optionalArgument name value | localAssignment name value | raise value =>
      refine (plants_build (some parent) value).bind fun value => .pure ?_
      rintro _ rfl
      rfl
  | block parameters content =>
      refine (plants_build (some parent) parameters).bind fun parameters => ?_
      refine (plants_buildOption parent content).bind fun content => .pure ?_
      rintro _ rfl _ rfl
      simp [Kind.children]
  | body statements | superCall statements =>
      refine (plants_buildList parent statements).bind fun statements => .pure ?_
      rintro _ rfl
      simp [Kind.children]
  | functionalCall name parameters closure =>
      refine (plants_buildList parent parameters).bind fun parameters => ?_
      refine (plants_buildOption parent closure).bind fun closure => .pure ?_
      rintro _ rfl _ rfl
      simp [Kind.children]
  | call target name parameters closure =>
      refine (plants_build (some parent) target).bind fun target => ?_
      refine (plants_buildList parent parameters).bind fun parameters => ?_
      refine (plants_buildOption parent closure).bind fun closure => .pure ?_
      rintro _ rfl _ rfl _ rfl
      simp [Kind.children]
  | ifElse condition thenBody elseBody =>
      refine (plants_build (some parent) condition).bind fun condition => ?_
      refine (plants_buildOption parent thenBody).bind fun thenBody => ?_
      refine (plants_buildOption parent elseBody).bind fun elseBody => .pure ?_
      rintro _ rfl _ rfl _ rfl
      simp [Kind.children]
  | requiredArgument _ | restArgument _ | blockArgument _ | noop | fixnum _ | float _ | str _
  | boolean _ | null | selfRef | localRead _ | constant _ => exact .pure rfl

end

end Build

end DeferredTyping
