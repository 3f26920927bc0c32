import DeferredTyping.Inference.Typer
import DeferredTyping.Proofs.Calm
import DeferredTyping.Proofs.Trees

/-!
# How a rule traverses the tree

A rule takes steps of its own and visits the nodes it depends on, each of
them once and in a fixed order, whatever the visits answer.  `rule_traversal`
says so once for all kinds of nodes: what holds of own steps and of visits,
and is kept when one step follows another, holds of the whole rule.  The
list of nodes that comes with such a property names the nodes that a step
is sure to visit when it ends with a value.
-/

namespace DeferredTyping

namespace Infer

variable {σ : Type}

/-- The step leads from every session to a related one, whether it ends with
a value or not. -/
def Relates (relation : Session σ → Session σ → Prop) {α : Type}
    (step : Infer σ α) : Prop :=
  ∀ session, relation session (step.run session).2

protected theorem Relates.bind {relation : Session σ → Session σ → Prop}
    {α β : Type} {step : Infer σ α} {next : α → Infer σ β}
    (first : Relates relation step)
    (trans : ∀ ⦃first second third⦄, relation first second →
      relation second third → relation first third)
    (second : ∀ value, Relates relation (next value)) :
    Relates relation (step >>= next) := by
  intro session
  have begun := first session
  rw [run_bind]
  rcases run : step.run session with ⟨answer, middle⟩
  rw [run] at begun
  cases answer with
  | error stop => exact begun
  | ok value => exact trans begun (second value middle)

theorem Relates.returned {relation : Session σ → Session σ → Prop} {α : Type}
    {step : Infer σ α} (relates : Relates relation step) {before after : Session σ}
    {value : α} (returned : Returns step before value after) :
    relation before after := by
  have related := relates before
  rwa [returned] at related

/-- The step keeps an invariant, whether it ends with a value or not, and stops
for accepted reasons. -/
def Upholds (invariant : Session σ → Prop) (accepts : Stop → Prop) {α : Type}
    (step : Infer σ α) : Prop :=
  ∀ ⦃session⦄, invariant session → invariant (step.run session).2 ∧
    ∀ {stop}, (step.run session).1 = .error stop → accepts stop

/-- From this session the step ends where an invariant holds, and stops for accepted
reasons. -/
def UpholdsFrom (session : Session σ) (invariant : Session σ → Prop)
    (accepts : Stop → Prop) {α : Type} (step : Infer σ α) : Prop :=
  invariant (step.run session).2 ∧
    ∀ {stop}, (step.run session).1 = .error stop → accepts stop

namespace UpholdsFrom

variable {session : Session σ} {invariant : Session σ → Prop} {accepts : Stop → Prop}
  {α β : Type}

theorem of_run {step : Infer σ α} {value : α} {after : Session σ}
    (run : step.run session = (.ok value, after)) (holds : invariant after) :
    UpholdsFrom session invariant accepts step := by
  rw [UpholdsFrom, run]
  refine ⟨holds, ?_⟩
  rintro stop ⟨⟩

theorem of_stop {step : Infer σ α} {stop : Stop} {after : Session σ}
    (run : step.run session = (.error stop, after)) (holds : invariant after)
    (accepted : accepts stop) :
    UpholdsFrom session invariant accepts step := by
  rw [UpholdsFrom, run]
  refine ⟨holds, ?_⟩
  rintro other ⟨⟩
  exact accepted

/-- The second step starts where the first one returned, with all that holds there. -/
theorem onward {stronger : Session σ → Prop} {step : Infer σ α} {next : α → Infer σ β}
    (first : UpholdsFrom session stronger accepts step)
    (included : ∀ {session}, stronger session → invariant session)
    (second : ∀ {value middle}, Returns step session value middle → stronger middle →
      UpholdsFrom middle invariant accepts (next value)) :
    UpholdsFrom session invariant accepts (step >>= next) := by
  obtain ⟨kept, stops⟩ := first
  rcases run : step.run session with ⟨stop | value, middle⟩
  · rw [run] at kept stops
    exact of_stop (run_bind_of_error run) (included kept) (stops rfl)
  · rw [run] at kept
    have after := second run kept
    rwa [UpholdsFrom, ← run_bind_of_returns run] at after

/-- The second step starts where the first one returned. -/
protected theorem bind {step : Infer σ α} {next : α → Infer σ β}
    (first : UpholdsFrom session invariant accepts step)
    (second : ∀ {value middle}, Returns step session value middle → invariant middle →
      UpholdsFrom middle invariant accepts (next value)) :
    UpholdsFrom session invariant accepts (step >>= next) :=
  first.onward id second

/-- Two invariants are kept together, with the reasons to stop of the second one. -/
theorem both {other : Session σ → Prop} {wider : Stop → Prop} {step : Infer σ α}
    (first : UpholdsFrom session other wider step)
    (second : UpholdsFrom session invariant accepts step) :
    UpholdsFrom session (fun session => other session ∧ invariant session) accepts step :=
  ⟨⟨first.1, second.1⟩, second.2⟩

end UpholdsFrom

namespace Upholds

variable {invariant : Session σ → Prop} {accepts : Stop → Prop} {α β : Type}

protected theorem bind {step : Infer σ α} {next : α → Infer σ β}
    (first : Upholds invariant accepts step)
    (second : ∀ value, Upholds invariant accepts (next value)) :
    Upholds invariant accepts (step >>= next) := by
  intro session holds
  have begun : UpholdsFrom session invariant accepts step := first holds
  exact begun.bind fun _ kept => second _ kept

theorem returned {step : Infer σ α} (upholds : Upholds invariant accepts step)
    {before after : Session σ} {value : α} (holds : invariant before)
    (returned : Returns step before value after) :
    invariant after := by
  have kept := (upholds holds).1
  rwa [returned] at kept

end Upholds

/-- A step that ends with a value keeps an invariant, leads to a related
session and leaves each of the nodes in the given state. -/
def Visits (invariant : Session σ → Prop)
    (relation : Session σ → Session σ → Prop) (state : NodeId → Session σ → Prop)
    {α : Type} (ids : List NodeId) (step : Infer σ α) : Prop :=
  ∀ ⦃before value after⦄, invariant before → Returns step before value after →
    invariant after ∧ relation before after ∧ ∀ id ∈ ids, state id after

section

variable {invariant : Session σ → Prop} {relation : Session σ → Session σ → Prop}
  {state : NodeId → Session σ → Prop} {α β : Type}

protected theorem Visits.bind
    (trans : ∀ ⦃first second third⦄, relation first second →
      relation second third → relation first third)
    (lasts : ∀ ⦃before after id⦄, relation before after → state id before →
      state id after)
    {ids others : List NodeId} {step : Infer σ α} {next : α → Infer σ β}
    (first : Visits invariant relation state ids step)
    (second : ∀ value, Visits invariant relation state others (next value)) :
    Visits invariant relation state (ids ++ others) (step >>= next) := by
  intro before value after holds returned
  obtain ⟨result, middle, begun, ended⟩ := returns_bind.mp returned
  obtain ⟨kept, related, reached⟩ := first holds begun
  obtain ⟨upheld, onward, rest⟩ := second result kept ended
  refine ⟨upheld, trans related onward, ?_⟩
  intro id member
  rcases List.mem_append.mp member with early | late
  · exact lasts onward (reached id early)
  · exact rest id late

protected theorem Visits.fewer {ids others : List NodeId} {step : Infer σ α}
    (visits : Visits invariant relation state ids step) (included : others ⊆ ids) :
    Visits invariant relation state others step := by
  intro before value after holds returned
  obtain ⟨kept, related, reached⟩ := visits holds returned
  exact ⟨kept, related, fun id member => reached id (included member)⟩

end

/-- What `arguments` does with the types it collected. -/
def keepArgumentTypes (id : NodeId) :
    Option (List Ty) → Infer σ (Option (List Ty))
  | some types => do
      modifyFacts fun facts => facts.setArgumentTypes id types
      return some types
  | none => return none

@[simp] theorem run_keepArgumentTypes_some (id : NodeId) (types : List Ty)
    (session : Session σ) :
    (keepArgumentTypes id (some types)).run session =
      (.ok (some types), { session with
        facts := session.facts.setArgumentTypes id types }) := rfl

@[simp] theorem run_keepArgumentTypes_none (id : NodeId) (session : Session σ) :
    (keepArgumentTypes id none).run session = (.ok none, session) := rfl

/-- A property of steps that holds of looking at the session where no clash is
found, and is kept when one step follows another. -/
structure Orderly
    (property : ∀ {α : Type}, List NodeId → Infer σ α → Prop) : Prop where
  look : ∀ {α : Type} {step : Infer σ α}, CalmStep step → property [] step
  bind : ∀ {α β : Type} {first second : List NodeId} {step : Infer σ α}
    {next : α → Infer σ β}, property first step →
    (∀ value, property second (next value)) →
    property (first ++ second) (step >>= next)
  fewer : ∀ {α : Type} {ids others : List NodeId} {step : Infer σ α},
    property ids step → others ⊆ ids → property others step

/-- A property of steps that holds of looking at the session, calls on methods
included. -/
structure Sequential
    (property : ∀ {α : Type}, List NodeId → Infer σ α → Prop) : Prop
    extends Orderly property where
  read : ∀ {α : Type} {step : Infer σ α}, ReadStep step → property [] step
  look := fun looks => read looks.toReadStep

/-- A property of steps that holds of adding facts as well. -/
structure Building (setting : Setting σ)
    (property : ∀ {α : Type}, List NodeId → Infer σ α → Prop) : Prop
    extends Sequential property where
  add : ∀ {α : Type} {step : Infer σ α}, AddStep setting step →
    property [] step
  read := fun reads => add reads.add

/-- A property of steps that follows the way in which rules are put
together. -/
structure Traversal (setting : Setting σ)
    (property : ∀ {α : Type}, List NodeId → Infer σ α → Prop) : Prop
    extends Sequential property where
  own : ∀ {α : Type} {step : Infer σ α}, OwnStep setting step →
    property [] step
  read := fun reads => own reads.add.own

theorem Traversal.toBuilding {setting : Setting σ}
    {property : ∀ {α : Type}, List NodeId → Infer σ α → Prop}
    (traversal : Traversal setting @property) : Building setting @property where
  toSequential := traversal.toSequential
  add adds := traversal.own adds.own

end Infer

/-- The rule of such a node learns something by itself. -/
def Kind.learns {α : Type} : Kind α → Bool
  | .methodDefinition _ | .arguments _ | .requiredArgument _
  | .optionalArgument _ _ | .restArgument _ | .localAssignment _ _ => true
  | _ => false

/-- The node is a call, which may mean a macro. -/
def Kind.isCall {α : Type} : Kind α → Bool
  | .functionalCall .. | .call .. => true
  | _ => false

namespace Infer

variable {setting : Setting σ}
  {property : ∀ {α : Type}, List NodeId → Infer σ α → Prop}
  {infer : NodeId → Infer σ (Option Ty)}

namespace Orderly

section

variable (orderly : Orderly @property)

include orderly

/-- What follows visits nothing. -/
theorem bind_last {α β : Type} {ids : List NodeId} {step : Infer σ α}
    {next : α → Infer σ β} (first : property ids step)
    (second : ∀ value, property [] (next value)) :
    property ids (step >>= next) := by
  have both := orderly.bind first second
  rwa [List.append_nil] at both

theorem bind_look {α β : Type} {ids : List NodeId} {step : Infer σ α}
    {next : α → Infer σ β} (first : property ids step)
    (second : ∀ value, CalmStep (next value)) :
    property ids (step >>= next) :=
  orderly.bind_last first fun value => orderly.look (second value)

theorem look_bind {α β : Type} {ids : List NodeId} {step : Infer σ α}
    {next : α → Infer σ β} (first : CalmStep step)
    (second : ∀ value, property ids (next value)) :
    property ids (step >>= next) :=
  orderly.bind (orderly.look first) second

theorem map {α β : Type} {ids : List NodeId} {step : Infer σ α}
    (function : α → β) (first : property ids step) :
    property ids (function <$> step) := by
  rw [← bind_pure_comp]
  exact orderly.bind_look first fun _ => .pure _

theorem optional {id : Option NodeId}
    (visits : ∀ child ∈ id.toList, property [child] (infer child)) :
    property id.toList (optional infer id) := by
  cases id with
  | none => exact orderly.look (.pure _)
  | some id => exact visits id (by simp)

theorem all {ids : List NodeId}
    (visits : ∀ child ∈ ids, property [child] (infer child)) :
    property ids (all infer ids) := by
  induction ids with
  | nil => exact orderly.look (.pure _)
  | cons id rest ih =>
      have others := ih fun child member =>
        visits child (List.mem_cons_of_mem id member)
      exact orderly.bind (visits id List.mem_cons_self) fun first =>
        orderly.bind_look others fun _ => .pure _

theorem each {ids : List NodeId}
    (visits : ∀ child ∈ ids, property [child] (infer child)) :
    property ids (each infer ids) := by
  induction ids with
  | nil => exact orderly.look (.pure _)
  | cons id rest ih =>
      have others := ih fun child member =>
        visits child (List.mem_cons_of_mem id member)
      exact orderly.bind (visits id List.mem_cons_self) fun _ => others

theorem allKept {id : NodeId} {ids : List NodeId}
    (visits : ∀ child ∈ ids, property [child] (infer child))
    (keeps : ∀ types, property [] (keepArgumentTypes id types : Infer σ _)) :
    property ids (Infer.all infer ids >>= keepArgumentTypes id) :=
  orderly.bind_last (orderly.all visits) keeps

/-- A list of parameters may visit nothing at all. -/
theorem arguments {id : NodeId}
    (visits : ∀ child, property [child] (infer child))
    (keeps : ∀ types, property [] (keepArgumentTypes id types : Infer σ _)) :
    property [] (arguments infer id) := by
  have collects : ∀ ids : List NodeId, property [] (do
      match ← Infer.all infer ids with
      | some types =>
          modifyFacts fun facts => facts.setArgumentTypes id types
          return some types
      | none => return none) := by
    intro ids
    have both : property ids (Infer.all infer ids >>= keepArgumentTypes id) :=
      orderly.allKept (fun child _ => visits child) keeps
    refine orderly.fewer ?_ (List.nil_subset ids)
    convert both using 2
    funext types
    cases types <;> rfl
  refine orderly.look_bind .getFacts fun facts => ?_
  split
  · exact orderly.look (.pure _)
  · exact orderly.look_bind .getArena fun arena =>
      orderly.look_bind (.ofTree (arena.argumentsOf_blamesTree id)) fun list =>
        collects list.typed

theorem blockReady {id : Option NodeId}
    (visits : ∀ child ∈ id.toList, property [child] (infer child)) :
    property id.toList (blockReady infer id) := by
  cases id with
  | none => exact orderly.look (.pure _)
  | some id => exact orderly.bind_look (visits id (by simp)) fun _ => .pure _

theorem body {statements : List NodeId}
    (visits : ∀ child ∈ statements, property [child] (infer child)) :
    property statements (body infer statements) :=
  orderly.map _ (orderly.all visits)

theorem block {parameters : NodeId} {content : Option NodeId}
    (visits : ∀ child ∈ parameters :: content.toList,
      property [child] (infer child)) :
    property (parameters :: content.toList) (block infer parameters content) := by
  have inside := orderly.optional fun child member =>
    visits child (List.mem_cons_of_mem parameters member)
  exact orderly.bind (visits parameters List.mem_cons_self) fun _ =>
    orderly.bind_look inside fun _ => .pure _

protected theorem resolveCall {id : NodeId} {receiver : Ty} {name : String}
    {types : List Ty}
    (finds : ∀ location,
      property [] (findMethod receiver name types location : Infer σ _))
    (offers : property [] (offer setting id receiver))
    (splices : ∀ expansion, property [] (splice id expansion : Infer σ Unit))
    (visits : ∀ expansion, property [] (infer expansion)) :
    property [] (resolveCall setting infer id receiver name types) := by
  refine orderly.look_bind (.locationOf id) fun location =>
    orderly.bind (finds location) fun found => ?_
  cases found with
  | some method => exact orderly.look (.pure _)
  | none =>
      refine orderly.bind offers fun answer => ?_
      cases answer with
      | none => exact orderly.look (.pure _)
      | some expansion =>
          exact orderly.bind (splices expansion) fun _ => visits expansion

theorem functionalCall {id : NodeId} {name : String} {parameters : List NodeId}
    {closure : Option NodeId}
    (resolves : ∀ receiver types,
      property [] (resolveCall setting infer id receiver name types))
    (visits : ∀ child ∈ parameters ++ closure.toList,
      property [child] (infer child)) :
    property (parameters ++ closure.toList)
      (functionalCall setting infer id name parameters closure) := by
  have given := orderly.all fun child member =>
    visits child (List.mem_append_left _ member)
  have attached := orderly.blockReady fun child member =>
    visits child (List.mem_append_right _ member)
  refine orderly.look_bind .getArena fun arena =>
    orderly.look_bind (.ofTree (arena.selfType_blamesTree _ id)) fun receiver => ?_
  refine orderly.bind given fun types => ?_
  rw [← List.append_nil closure.toList]
  refine orderly.bind attached fun ready => ?_
  split
  · exact resolves receiver _
  · exact orderly.look (.pure _)

theorem call {id target : NodeId} {name : String} {parameters : List NodeId}
    {closure : Option NodeId}
    (constructs : ∀ instanceType types,
      property [] (instantiation id instanceType types : Infer σ _))
    (resolves : ∀ receiver types,
      property [] (resolveCall setting infer id receiver name types))
    (visits : ∀ child ∈ target :: (parameters ++ closure.toList),
      property [child] (infer child)) :
    property (target :: (parameters ++ closure.toList))
      (call setting infer id target name parameters closure) := by
  have given := orderly.all fun child member =>
    visits child (List.mem_cons_of_mem target (List.mem_append_left _ member))
  have attached := orderly.blockReady fun child member =>
    visits child (List.mem_cons_of_mem target (List.mem_append_right _ member))
  refine orderly.bind (visits target List.mem_cons_self) fun targetType => ?_
  refine orderly.bind given fun types => ?_
  rw [← List.append_nil closure.toList]
  refine orderly.bind attached fun ready => ?_
  split
  · split
    · exact constructs _ _
    · exact resolves _ _
  · exact orderly.look (.pure _)

theorem ifElse {condition : NodeId} {thenBody elseBody : Option NodeId}
    {location : Location}
    (visits : ∀ child ∈ condition :: (thenBody.toList ++ elseBody.toList),
      property [child] (infer child)) :
    property (condition :: (thenBody.toList ++ elseBody.toList))
      (ifElse infer condition thenBody elseBody location) := by
  have chosen := orderly.optional fun child member =>
    visits child (List.mem_cons_of_mem condition (List.mem_append_left _ member))
  refine orderly.bind (visits condition List.mem_cons_self) fun _ => ?_
  refine orderly.bind chosen fun thenType => ?_
  cases elseBody with
  | none => exact orderly.look (.pure _)
  | some elseBody =>
      have other := visits elseBody (by simp)
      refine orderly.bind_look other fun elseType => ?_
      split
      · exact .pure _
      · split
        · refine .read (fun alike => by rw [alike.catalog]) fun session => ?_
          split
          · exact .pure _
          · exact .fail rfl rfl
        · exact .read (fun alike => by rw [alike.lastChance]) fun _ => .pure _
        · exact .read (fun alike => by rw [alike.lastChance]) fun _ => .pure _
        · exact .pure _

theorem argumentList {id : NodeId} (visits : property [id] (infer id)) :
    property [id] (argumentList infer id) := by
  refine orderly.bind_look visits fun known => ?_
  cases known with
  | none => exact .pure _
  | some _ => exact CalmStep.getFacts.bind fun _ => .pure _

theorem delegationReady {method : Method NodeId}
    (visits : ∀ child ∈ method.thisArgs.getD [] ++ method.superArgs.getD [],
      property [child] (infer child)) :
    property (method.thisArgs.getD [] ++ method.superArgs.getD [])
      (delegationReady infer method) :=
  orderly.map _ (orderly.all visits)

/-- An assignment learns its local. -/
theorem localAssignment {id : NodeId} {name : String} {value : NodeId}
    {location : Location}
    (learns : ∀ scope ty, property [] (learnLocal scope name ty location : Infer σ _))
    (visits : property [value] (infer value)) :
    property [value] (localAssignment infer id name value location) := by
  refine orderly.bind_last visits fun valueType => ?_
  cases valueType with
  | none => exact orderly.look (.pure _)
  | some valueType =>
      exact orderly.look_bind .getArena fun arena =>
        orderly.look_bind (.ofTree (arena.scopeOf_blamesTree id)) fun scope =>
        orderly.map _ (learns scope valueType)

/-- A required or rest parameter looks up its declared type and learns it. -/
theorem requiredArgument {id : NodeId} {name : String}
    (declares : property [] (declaredType? setting id name))
    (learns : ∀ scope ty location,
      property [] (learnLocal scope name ty location : Infer σ _)) :
    property [] (requiredArgument setting id name) := by
  refine orderly.look_bind .getArena fun arena =>
    orderly.look_bind (.ofTree (arena.scopeOf_blamesTree id)) fun scope =>
    orderly.bind declares fun declared => ?_
  cases declared with
  | none => exact orderly.look (CalmStep.getFacts.bind fun _ => .pure _)
  | some declared =>
      exact orderly.look_bind (.locationOf id) fun location =>
        orderly.map _ (learns scope declared location)

/-- An optional parameter learns its declared type or else that of its value. -/
theorem optionalArgument {id : NodeId} {name : String} {value : NodeId}
    (declares : property [] (declaredType? setting id name))
    (learns : ∀ scope ty location,
      property [] (learnLocal scope name ty location : Infer σ _))
    (visits : property [value] (infer value)) :
    property [value] (optionalArgument setting infer id name value) := by
  refine orderly.look_bind .getArena fun arena =>
    orderly.look_bind (.ofTree (arena.scopeOf_blamesTree id)) fun scope =>
    orderly.look_bind (.locationOf id) fun location =>
    orderly.bind declares fun declared => ?_
  refine orderly.bind_last visits fun valueType => ?_
  cases valueType with
  | none => exact orderly.look (.pure _)
  | some valueType =>
      cases declared with
      | none => exact orderly.map _ (learns scope valueType location)
      | some declared =>
          refine orderly.look_bind (.isParent _ _) fun accepted => ?_
          cases accepted with
          | false =>
              exact orderly.look_bind (.fail rfl rfl) fun ty =>
                orderly.map _ (learns scope ty location)
          | true => exact orderly.map _ (learns scope declared location)

/-- What holds of looking and of visits holds of a rule that learns nothing by
itself and is no call. -/
theorem ruleByKind {id : NodeId} {node : Node}
    (learning : node.kind.learns = true →
      property node.kind.dependencies (rule setting infer id node))
    (calls : node.kind.isCall = true →
      property node.kind.dependencies (rule setting infer id node))
    (visits : ∀ child ∈ node.kind.dependencies,
      property [child] (infer child)) :
    property node.kind.dependencies (rule setting infer id node) := by
  unfold Infer.rule at learning calls ⊢
  cases kind : node.kind with
  | script _ content =>
      rw [kind] at visits
      exact orderly.optional visits
  | classDefinition name _ _ content =>
      rw [kind] at visits
      exact orderly.map _ (orderly.optional visits)
  | interfaceDeclaration name _ content =>
      rw [kind] at visits
      exact orderly.map _ (orderly.optional visits)
  | methodDefinition _ | arguments _ | requiredArgument _ | optionalArgument _ _
  | restArgument _ | localAssignment _ _ =>
      rw [kind] at learning
      exact learning rfl
  | blockArgument name => exact orderly.look (.fail rfl rfl)
  | block parameters content =>
      rw [kind] at visits
      exact orderly.block visits
  | body statements =>
      rw [kind] at visits
      exact orderly.body visits
  | noop => exact orderly.look (.pure _)
  | fixnum value => exact orderly.look (.pure _)
  | float value => exact orderly.look (.pure _)
  | str value => exact orderly.look (.pure _)
  | boolean value => exact orderly.look (.pure _)
  | null => exact orderly.look (.pure _)
  | selfRef =>
      exact orderly.look
        (CalmStep.getArena.bind fun arena =>
          (CalmStep.ofTree (arena.selfType_blamesTree _ id)).bind fun _ => .pure _)
  | localRead name => exact orderly.look (.localRead id name)
  | functionalCall _ _ _ | call _ _ _ _ =>
      rw [kind] at calls
      exact calls rfl
  | superCall parameters =>
      rw [kind] at visits
      exact orderly.map _ (orderly.all visits)
  | constant name =>
      exact orderly.look
        (.read (fun alike => by rw [alike.catalog]) fun _ => .pure _)
  | ifElse condition thenBody elseBody =>
      rw [kind] at visits
      exact orderly.ifElse visits
  | returning value =>
      rw [kind] at visits
      exact orderly.optional visits
  | raise exception =>
      rw [kind] at visits
      exact orderly.map _ (visits exception List.mem_cons_self)

/-- What holds of looking and of visits holds of a rule that learns nothing by
itself.  Calls that mean no method are left to the property: they may rebuild
the tree. -/
theorem rule {id : NodeId} {node : Node}
    (learning : node.kind.learns = true →
      property node.kind.dependencies (rule setting infer id node))
    (constructs : ∀ instanceType types,
      property [] (instantiation id instanceType types : Infer σ _))
    (resolves : ∀ receiver name types,
      property [] (resolveCall setting infer id receiver name types))
    (visits : ∀ child ∈ node.kind.dependencies,
      property [child] (infer child)) :
    property node.kind.dependencies (rule setting infer id node) := by
  refine orderly.ruleByKind learning ?_ visits
  intro calls
  unfold Infer.rule
  cases kind : node.kind with
  | functionalCall name parameters closure =>
      rw [kind] at visits
      exact orderly.functionalCall (fun _ _ => resolves _ _ _) visits
  | call target name parameters closure =>
      rw [kind] at visits
      exact orderly.call constructs (fun _ _ => resolves _ _ _) visits
  | _ =>
      rw [kind] at calls
      cases calls

end

end Orderly

namespace Sequential

section

variable (sequential : Sequential @property)

include sequential

theorem read_bind {α β : Type} {ids : List NodeId} {step : Infer σ α}
    {next : α → Infer σ β} (first : ReadStep step)
    (second : ∀ value, property ids (next value)) :
    property ids (step >>= next) :=
  sequential.bind (sequential.read first) second

protected theorem resolveCall {id : NodeId} {receiver : Ty} {name : String}
    {types : List Ty} (offers : property [] (offer setting id receiver))
    (splices : ∀ expansion, property [] (splice id expansion : Infer σ Unit))
    (visits : ∀ expansion, property [] (infer expansion)) :
    property [] (resolveCall setting infer id receiver name types) :=
  sequential.toOrderly.resolveCall (fun _ => sequential.read (.findMethod _ _ _ _)) offers
    splices visits

/-- What holds of looking and of visits holds of a rule that learns nothing by
itself.  Calls that mean no method are left to the property: they may rebuild
the tree. -/
theorem rule {id : NodeId} {node : Node}
    (learning : node.kind.learns = true →
      property node.kind.dependencies (rule setting infer id node))
    (resolves : ∀ receiver name types,
      property [] (resolveCall setting infer id receiver name types))
    (visits : ∀ child ∈ node.kind.dependencies,
      property [child] (infer child)) :
    property node.kind.dependencies (rule setting infer id node) :=
  sequential.toOrderly.rule learning
    (fun _ _ => sequential.read (.instantiation _ _ _)) resolves visits

end

/-- Looking keeps every invariant. -/
theorem ofInvariant (invariant : Session σ → Prop) :
    Sequential fun _ (step : Infer σ _) => Upholds invariant (fun _ => True) step where
  read reads session holds := by
    rw [reads.keeps session]
    exact ⟨holds, fun _ => trivial⟩
  bind first second := first.bind second
  fewer upholds _ := upholds

/-- A reflexive relation holds of looking, whatever the invariant is. -/
theorem ofVisits {invariant : Session σ → Prop}
    {relation : Session σ → Session σ → Prop} {state : NodeId → Session σ → Prop}
    (refl : ∀ session, relation session session)
    (trans : ∀ ⦃first second third⦄, relation first second →
      relation second third → relation first third)
    (lasts : ∀ ⦃before after id⦄, relation before after → state id before →
      state id after) :
    Sequential fun ids step => Visits invariant relation state ids step where
  read {_ step} reads before value after holds returned := by
    have same := reads.keeps before
    rw [Returns] at returned
    rw [returned] at same
    subst same
    exact ⟨holds, refl after, fun _ member => (List.not_mem_nil member).elim⟩
  bind first second := first.bind trans lasts second
  fewer visits included := visits.fewer included

end Sequential

/-- What a method definition knows once everything it visits is known. -/
structure Gathered where
  lexical : Ty
  signature : Signature
  parameters : List Ty
  bodyType : Ty
  location : Location

/-- What a method definition does between binding its class and being
published. -/
def gatherInClass (setting : Setting σ) (infer : NodeId → Infer σ (Option Ty))
    (id : NodeId) (method : Method NodeId) (location : Location) (ready : Bool)
    (lexical : Ty) : Infer σ (Option Gathered) := do
  let signature ← signatureOf setting id method
  let parameters ← argumentList infer method.arguments
  let bodyType ← optional infer method.body
  match parameters, bodyType, ready with
  | some parameters, some bodyType, true =>
      if ← delegateBound id method lexical location then
        return some { lexical, signature, parameters, bodyType, location }
      else
        return none
  | _, _, _ => return none

/-- What a method definition does before it is published. -/
def gatherMethod (setting : Setting σ) (infer : NodeId → Infer σ (Option Ty))
    (id : NodeId) (method : Method NodeId) : Infer σ (Option Gathered) := do
  let location ← locationOf id
  let ready ← delegationReady infer method
  let lexical ← bindDefiningClass setting id
  gatherInClass setting infer id method location ready lexical

/-- Announces a method of which everything is known; the answer is the type
that it will take. -/
def announceGathered (id : NodeId) (method : Method NodeId) :
    Option Gathered → Infer σ (Option Ty)
  | none => return none
  | some known => do
      announce id method known.lexical known.signature known.parameters known.bodyType
        known.location
      return some (effectiveReturn known.signature.returnType known.bodyType)

/-- Fills the return slot of a method that was announced. -/
def fillGathered (id : NodeId) : Option Ty → Infer σ (Option Ty)
  | none => return none
  | some returnType => do return some (← fillReturn id returnType)

theorem methodInClass_eq (setting : Setting σ)
    (infer : NodeId → Infer σ (Option Ty)) (id : NodeId) (method : Method NodeId)
    (location : Location) (ready : Bool) (lexical : Ty) :
    methodInClass setting infer id method location ready lexical =
      gatherInClass setting infer id method location ready lexical >>=
        announceGathered id method >>= fillGathered id := by
  unfold methodInClass gatherInClass
  simp only [bind_assoc]
  refine bind_congr fun signature => bind_congr fun parameters =>
    bind_congr fun bodyType => ?_
  split
  · simp only [bind_assoc]
    refine bind_congr fun bound => ?_
    split
    · simp only [publish_eq, announceGathered, fillGathered, pure_bind, bind_assoc]
    · simp only [announceGathered, fillGathered, pure_bind]
  · simp only [announceGathered, fillGathered, pure_bind]

theorem methodDefinition_eq (setting : Setting σ)
    (infer : NodeId → Infer σ (Option Ty)) (id : NodeId) (method : Method NodeId) :
    methodDefinition setting infer id method =
      gatherMethod setting infer id method >>= announceGathered id method >>=
        fillGathered id := by
  simp only [methodDefinition, gatherMethod, methodInClass_eq, bind_assoc]

theorem rule_of_methodDefinition (setting : Setting σ)
    (infer : NodeId → Infer σ (Option Ty)) (id : NodeId) {node : Node}
    {method : Method NodeId} (kind : node.kind = .methodDefinition method) :
    rule setting infer id node =
      gatherMethod setting infer id method >>= announceGathered id method >>=
        fillGathered id := by
  rw [← methodDefinition_eq, rule, kind]

theorem announceGathered_own (id : NodeId) (method : Method NodeId)
    (gathered : Option Gathered) :
    OwnStep setting (announceGathered id method gathered) := by
  cases gathered with
  | none => exact (AddStep.pure _).own
  | some known =>
      exact ((announce_adds _ _ _ _ _ _ _).mono (fun fault => fault) .adds).bind
        fun _ => (AddStep.pure _).own

theorem fillGathered_own (id : NodeId) (answer : Option Ty) :
    OwnStep setting (fillGathered id answer) := by
  cases answer with
  | none => exact (AddStep.pure _).own
  | some returnType => exact (OwnStep.fillReturn _ _).bind fun _ => (AddStep.pure _).own

/-- What a call asks for once everything it visits is known. -/
inductive Request where
  | make (instanceType : Ty) (types : List Ty)
  | send (receiver : Ty) (name : String) (types : List Ty)

/-- What a call does before it is resolved. -/
def requestOf (setting : Setting σ) (infer : NodeId → Infer σ (Option Ty)) (id : NodeId) :
    Kind NodeId → Infer σ (Option Request)
  | .functionalCall name parameters closure => do
      let receiver ← ofTree ((← getArena).selfType setting.scriptClass id)
      let types ← all infer parameters
      let ready ← blockReady infer closure
      match types, ready with
      | some types, true => return some (.send receiver name types)
      | _, _ => return none
  | .call target name parameters closure => do
      let targetType ← infer target
      let types ← all infer parameters
      let ready ← blockReady infer closure
      match targetType, types, ready with
      | some targetType, some types, true =>
          if name == "new" && targetType.isMeta then
            return some (.make targetType.unmeta types)
          else
            return some (.send targetType name types)
      | _, _, _ => return none
  | _ => return none

/-- What a call does with what it asks for. -/
def serve (setting : Setting σ) (infer : NodeId → Infer σ (Option Ty)) (id : NodeId) :
    Option Request → Infer σ (Option Ty)
  | none => return none
  | some (.make instanceType types) => instantiation id instanceType types
  | some (.send receiver name types) => resolveCall setting infer id receiver name types

/-- A call visits everything it depends on before it is resolved. -/
theorem rule_eq_of_isCall {id : NodeId} {node : Node} (calls : node.kind.isCall = true) :
    rule setting infer id node =
      requestOf setting infer id node.kind >>= serve setting infer id := by
  unfold rule requestOf
  cases kind : node.kind with
  | functionalCall name parameters closure =>
      simp only [functionalCall, bind_assoc]
      refine bind_congr fun arena => bind_congr fun receiver => bind_congr fun types =>
        bind_congr fun ready => ?_
      split <;> simp only [serve, pure_bind]
  | call target name parameters closure =>
      simp only [call, bind_assoc]
      refine bind_congr fun targetType => bind_congr fun types => bind_congr fun ready => ?_
      split
      · rename_i known _
        by_cases makes : (name == "new" && known.isMeta) = true
        · simp only [if_pos makes, serve, pure_bind]
        · simp only [if_neg makes, serve, pure_bind]
      · simp only [serve, pure_bind]
  | _ =>
      rw [kind] at calls
      cases calls

namespace Orderly

section

variable (orderly : Orderly @property)

include orderly

theorem gatherInClass {id : NodeId} {method : Method NodeId}
    {location : Location} {ready : Bool} {lexical : Ty}
    (signs : property [] (signatureOf setting id method))
    (delegates : property [] (delegateBound id method lexical location))
    (visits : ∀ child ∈ method.arguments :: method.body.toList,
      property [child] (infer child)) :
    property (method.arguments :: method.body.toList)
      (gatherInClass setting infer id method location ready lexical) := by
  have listed := orderly.argumentList (visits method.arguments List.mem_cons_self)
  have inside := orderly.optional fun child member =>
    visits child (List.mem_cons_of_mem _ member)
  refine orderly.bind signs fun signature => ?_
  refine orderly.bind listed fun parameters => ?_
  refine orderly.bind_last inside fun bodyType => ?_
  split
  · refine orderly.bind_look delegates fun bound => ?_
    cases bound with
    | false => exact .pure _
    | true => exact .pure _
  · exact orderly.look (.pure _)

/-- What holds of the own steps of a method definition and of its visits holds of all that it
does before it is published. -/
theorem gatherMethod {id : NodeId} {method : Method NodeId}
    (binds : property [] (bindDefiningClass setting id))
    (signs : property [] (signatureOf setting id method))
    (delegates : ∀ lexical location, property [] (delegateBound id method lexical location))
    (visits : ∀ child ∈ Kind.dependencies (.methodDefinition method),
      property [child] (infer child)) :
    property (Kind.dependencies (.methodDefinition method))
      (gatherMethod setting infer id method) := by
  have handedOver := orderly.delegationReady fun child member =>
    visits child (List.mem_append_left _ member)
  refine orderly.look_bind (.locationOf id) fun location => ?_
  refine orderly.bind handedOver fun ready => ?_
  refine orderly.bind binds fun lexical => ?_
  exact orderly.gatherInClass signs (delegates lexical location) fun child member =>
    visits child (List.mem_append_right _ member)

/-- What holds of looking and of visits holds of all that a call does before it is resolved. -/
theorem requestOf {id : NodeId} {kind : Kind NodeId} (calls : kind.isCall = true)
    (visits : ∀ child ∈ kind.dependencies, property [child] (infer child)) :
    property kind.dependencies (requestOf setting infer id kind) := by
  unfold Infer.requestOf
  cases kind with
  | functionalCall name parameters closure =>
      have given := orderly.all fun child member => visits child (List.mem_append_left _ member)
      have attached := orderly.blockReady fun child member =>
        visits child (List.mem_append_right _ member)
      refine orderly.look_bind .getArena fun arena =>
        orderly.look_bind (.ofTree (arena.selfType_blamesTree _ id)) fun receiver => ?_
      refine orderly.bind given fun types => orderly.bind_look attached fun ready => ?_
      split <;> exact .pure _
  | call target name parameters closure =>
      have given := orderly.all fun child member =>
        visits child (List.mem_cons_of_mem target (List.mem_append_left _ member))
      have attached := orderly.blockReady fun child member =>
        visits child (List.mem_cons_of_mem target (List.mem_append_right _ member))
      refine orderly.bind (visits target List.mem_cons_self) fun targetType =>
        orderly.bind given fun types => orderly.bind_look attached fun ready => ?_
      split
      · split <;> exact .pure _
      · exact .pure _
  | _ => cases calls

end

end Orderly

namespace Building

section

variable (building : Building setting @property)

include building

theorem localAssignment {id : NodeId} {name : String} {value : NodeId}
    {location : Location} (visits : property [value] (infer value)) :
    property [value] (localAssignment infer id name value location) :=
  building.toOrderly.localAssignment (fun _ _ => building.add (.learnLocal _ _ _ _)) visits

theorem requiredArgument {id : NodeId} {name : String} :
    property [] (requiredArgument setting id name) :=
  building.toOrderly.requiredArgument (building.add (.declaredType? id name))
    fun _ _ _ => building.add (.learnLocal _ _ _ _)

theorem optionalArgument {id : NodeId} {name : String} {value : NodeId}
    (visits : property [value] (infer value)) :
    property [value] (optionalArgument setting infer id name value) :=
  building.toOrderly.optionalArgument (building.add (.declaredType? id name))
    (fun _ _ _ => building.add (.learnLocal _ _ _ _)) visits

theorem gatherInClass {id : NodeId} {method : Method NodeId}
    {location : Location} {ready : Bool} {lexical : Ty}
    (visits : ∀ child ∈ method.arguments :: method.body.toList,
      property [child] (infer child)) :
    property (method.arguments :: method.body.toList)
      (gatherInClass setting infer id method location ready lexical) :=
  building.toOrderly.gatherInClass (building.add (.signatureOf id method))
    (building.add (.delegateBound _ _ _ _)) visits

theorem gatherMethod {id : NodeId} {method : Method NodeId}
    (visits : ∀ child ∈ Kind.dependencies (.methodDefinition method),
      property [child] (infer child)) :
    property (Kind.dependencies (.methodDefinition method))
      (gatherMethod setting infer id method) :=
  building.toOrderly.gatherMethod (building.add (.bindDefiningClass id))
    (building.add (.signatureOf id method)) (fun _ _ => building.add (.delegateBound _ _ _ _))
    visits

/-- What holds of adding facts and of visits holds of a rule.  Method
definitions and lists of parameters are left to the property: the former learn
a return type, the latter visit nothing once their types are kept. -/
theorem ruleByKind {id : NodeId} {node : Node}
    (methods : ∀ method, node.kind = .methodDefinition method →
      property node.kind.dependencies (methodDefinition setting infer id method))
    (lists : ∀ list, node.kind = .arguments list →
      property list.typed (arguments infer id))
    (calls : node.kind.isCall = true →
      property node.kind.dependencies (rule setting infer id node))
    (visits : ∀ child ∈ node.kind.dependencies,
      property [child] (infer child)) :
    property node.kind.dependencies (rule setting infer id node) := by
  refine building.toOrderly.ruleByKind ?_ calls visits
  intro learns
  unfold Infer.rule
  cases kind : node.kind with
  | methodDefinition method =>
      rw [kind] at methods
      exact methods method rfl
  | arguments list => exact building.map _ (lists list kind)
  | requiredArgument name => exact building.requiredArgument
  | optionalArgument name value =>
      rw [kind] at visits
      exact building.optionalArgument (visits value List.mem_cons_self)
  | restArgument name => exact building.requiredArgument
  | localAssignment name value =>
      rw [kind] at visits
      exact building.localAssignment (visits value List.mem_cons_self)
  | _ =>
      rw [kind] at learns
      cases learns

/-- What holds of adding facts and of visits holds of a rule.  Calls that mean
no method are left to the property as well: they may rebuild the tree. -/
theorem rule {id : NodeId} {node : Node}
    (methods : ∀ method, node.kind = .methodDefinition method →
      property node.kind.dependencies (methodDefinition setting infer id method))
    (resolves : ∀ receiver name types,
      property [] (resolveCall setting infer id receiver name types))
    (lists : ∀ list, node.kind = .arguments list →
      property list.typed (arguments infer id))
    (visits : ∀ child ∈ node.kind.dependencies,
      property [child] (infer child)) :
    property node.kind.dependencies (rule setting infer id node) := by
  refine building.ruleByKind methods lists ?_ visits
  intro calls
  refine building.toSequential.rule ?_ resolves visits
  intro learns
  cases kind : node.kind with
  | functionalCall _ _ _ | call _ _ _ _ =>
      rw [kind] at learns
      cases learns
  | _ =>
      rw [kind] at calls
      cases calls

end

/-- A relation that is kept when facts are added. -/
theorem ofRelation {relation : Session σ → Session σ → Prop}
    (trans : ∀ ⦃first second third⦄, relation first second →
      relation second third → relation first third)
    (added : ∀ {session : Session σ} {facts},
      Facts.Added setting.scriptClass session.catalog session.facts facts →
      relation session { session with facts }) :
    Building setting fun _ step => Relates relation step where
  add adds session := by
    obtain ⟨facts, known, ended⟩ := adds.learns session
    rw [ended]
    exact added known
  bind first second := first.bind trans second
  fewer relates _ := relates

end Building

namespace Traversal

section

variable (traversal : Traversal setting @property)

include traversal

theorem bind_own {α β : Type} {ids : List NodeId} {step : Infer σ α}
    {next : α → Infer σ β} (first : property ids step)
    (second : ∀ value, OwnStep setting (next value)) :
    property ids (step >>= next) :=
  traversal.bind_last first fun value => traversal.own (second value)

/-- A method that was gathered is announced, and then its slot is filled. -/
theorem published {id : NodeId} {method : Method NodeId} {ids : List NodeId}
    {gathers : Infer σ (Option Gathered)} (gathered : property ids gathers) :
    property ids (gathers >>= announceGathered id method >>= fillGathered id) :=
  traversal.bind_own (traversal.bind_own gathered (announceGathered_own id method))
    (fillGathered_own id)

theorem methodInClass {id : NodeId} {method : Method NodeId}
    {location : Location} {ready : Bool} {lexical : Ty}
    (visits : ∀ child ∈ method.arguments :: method.body.toList,
      property [child] (infer child)) :
    property (method.arguments :: method.body.toList)
      (methodInClass setting infer id method location ready lexical) := by
  rw [methodInClass_eq]
  exact traversal.published (traversal.toBuilding.gatherInClass visits)

theorem methodDefinition {id : NodeId} {method : Method NodeId}
    (visits : ∀ child ∈ Kind.dependencies (.methodDefinition method),
      property [child] (infer child)) :
    property (Kind.dependencies (.methodDefinition method))
      (methodDefinition setting infer id method) := by
  rw [methodDefinition_eq]
  exact traversal.published (traversal.toBuilding.gatherMethod visits)

/-- What holds of own steps and of visits holds of a rule.  Lists of parameters
are left to the property as well: they visit nothing once their types are
kept. -/
theorem rule {id : NodeId} {node : Node}
    (resolves : ∀ receiver name types,
      property [] (resolveCall setting infer id receiver name types))
    (lists : ∀ list, node.kind = .arguments list →
      property list.typed (arguments infer id))
    (visits : ∀ child ∈ node.kind.dependencies,
      property [child] (infer child)) :
    property node.kind.dependencies (rule setting infer id node) := by
  refine traversal.toBuilding.rule ?_ resolves lists visits
  intro method kind
  rw [kind] at visits ⊢
  exact traversal.methodDefinition visits

end

/-- A relation that own steps respect. -/
theorem ofRelation {relation : Session σ → Session σ → Prop}
    (trans : ∀ ⦃first second third⦄, relation first second →
      relation second third → relation first third)
    (learned : ∀ {session : Session σ} {facts},
      Facts.Learned setting.scriptClass session.catalog session.facts facts →
      relation session { session with facts }) :
    Traversal setting fun _ step => Relates relation step where
  own own session := by
    obtain ⟨facts, known, ended⟩ := own.learns session
    rw [ended]
    exact learned known
  bind first second := first.bind trans second
  fewer relates _ := relates

/-- An invariant that own steps keep. -/
theorem ofInvariant {invariant : Session σ → Prop}
    (learned : ∀ {session : Session σ} {facts}, invariant session →
      Facts.Learned setting.scriptClass session.catalog session.facts facts →
      invariant { session with facts }) :
    Traversal setting fun _ step => Upholds invariant (fun _ => True) step where
  own own session holds := by
    obtain ⟨facts, known, ended⟩ := own.learns session
    rw [ended]
    exact ⟨learned holds known, fun _ => trivial⟩
  bind first second := first.bind second
  fewer upholds _ := upholds

/-- An invariant, a relation and a state of visited nodes that own steps
respect. -/
theorem ofVisits {invariant : Session σ → Prop}
    {relation : Session σ → Session σ → Prop} {state : NodeId → Session σ → Prop}
    (trans : ∀ ⦃first second third⦄, relation first second →
      relation second third → relation first third)
    (lasts : ∀ ⦃before after id⦄, relation before after → state id before →
      state id after)
    (learned : ∀ {session : Session σ} {facts}, invariant session →
      Facts.Learned setting.scriptClass session.catalog session.facts facts →
      invariant { session with facts } ∧ relation session { session with facts }) :
    Traversal setting fun ids step => Visits invariant relation state ids step where
  own {_ step} own before value after holds returned := by
    obtain ⟨facts, known, ended⟩ := own.learns before
    rw [Returns] at returned
    rw [returned] at ended
    subst ended
    obtain ⟨kept, related⟩ := learned holds known
    exact ⟨kept, related, by simp⟩
  bind first second := first.bind trans lasts second
  fewer visits included := visits.fewer included

end Traversal

/-- The types of a parameter list are kept already, or the list is looked up
and its parameters are visited. -/
theorem run_arguments (infer : NodeId → Infer σ (Option Ty)) (id : NodeId)
    (session : Session σ) :
    (∃ types, session.facts.argumentTypes? id = some types ∧
      (arguments infer id).run session = (.ok (some types), session)) ∨
    (∃ cause, session.facts.arena.argumentsOf id = .error cause ∧
      (arguments infer id).run session =
        (.error (.failed (.broken cause)), session)) ∨
    (∃ list, session.facts.argumentTypes? id = none ∧
      session.facts.arena.argumentsOf id = .ok list ∧
      (arguments infer id).run session =
        (all infer list.typed >>= keepArgumentTypes id).run session) := by
  cases kept : session.facts.argumentTypes? id with
  | some types =>
      refine .inl ⟨types, rfl, ?_⟩
      simp [arguments, run_bind, kept]
  | none =>
      cases found : session.facts.arena.argumentsOf id with
      | error cause =>
          refine .inr (.inl ⟨cause, rfl, ?_⟩)
          simp [arguments, run_bind, kept, found]
      | ok list =>
          refine .inr (.inr ⟨list, rfl, rfl, ?_⟩)
          simp only [arguments, run_bind, run_getFacts, kept, run_getArena, found,
            run_ofTree_ok]
          rcases (all infer list.typed).run session with ⟨_ | types, middle⟩
          · rfl
          · cases types <;> rfl

/-- The types of a parameter list are kept already, or they are those of its parameters. -/
theorem returns_arguments
    {infer : NodeId → Infer σ (Option Ty)} {id : NodeId} {types : Option (List Ty)}
    {before after : Session σ} (returned : Returns (arguments infer id) before types after) :
    (∃ known, before.facts.argumentTypes? id = some known ∧ types = some known ∧
      after = before) ∨
    ∃ list visited, before.facts.argumentTypes? id = none ∧
      before.facts.arena.argumentsOf id = .ok list ∧
      Returns (all infer list.typed) before types visited ∧
      Returns (keepArgumentTypes id types) visited types after := by
  rw [Returns] at returned
  rcases run_arguments infer id before with
    ⟨known, kept, run⟩ | ⟨cause, _, run⟩ | ⟨list, unknown, found, run⟩
  · rw [run] at returned
    cases returned
    exact .inl ⟨known, kept, rfl, rfl⟩
  · rw [run] at returned
    cases returned
  · rw [run] at returned
    obtain ⟨collected, visited, visits, keeps⟩ := returns_bind.mp returned
    have same : collected = types := by
      cases collected with
      | none => exact (Prod.ext_iff.mp keeps).1 |> Except.ok.inj
      | some collected => exact (Prod.ext_iff.mp keeps).1 |> Except.ok.inj
    subst same
    exact .inr ⟨list, visited, unknown, found, visits, keeps⟩

/-- The rule of a parameter list whose types are not kept yet. -/
theorem returns_rule_of_arguments {setting : Setting σ}
    {infer : NodeId → Infer σ (Option Ty)} {id : NodeId} {node : Node}
    {list : ArgumentList NodeId} {before after : Session σ} {answer : Option Ty}
    (kind : node.kind = .arguments list)
    (present : before.facts.arena.find? id = some node)
    (unknown : before.facts.argumentTypes? id = none)
    (returned : Returns (rule setting infer id node) before answer after) :
    ∃ types visited, Returns (all infer list.typed) before types visited ∧
      Returns (keepArgumentTypes id types) visited types after ∧
      answer = types.map fun _ => .void := by
  unfold rule at returned
  rw [kind] at returned
  obtain ⟨types, listed, rfl⟩ := returns_map.mp returned
  rcases returns_arguments listed with
    ⟨known, kept, _, _⟩ | ⟨other, visited, _, looked, visits, keeps⟩
  · rw [unknown] at kept
    cases kept
  · rw [Arena.argumentsOf_of_find? present kind] at looked
    cases looked
    exact ⟨types, visited, visits, keeps, rfl⟩

/-- An expansion is refused, and nothing changes, or takes the slot of its call. -/
theorem splice_cases (id expansion : NodeId) (session : Session σ) :
    (∃ stop, (splice id expansion).run session = (.error stop, session)) ∨
    ∃ parent arena after,
      session.facts.arena.replaceChild parent id expansion = .ok arena ∧
      Returns (splice id expansion) session () after ∧
      after = { session with facts := { session.facts with
        arena, expansions := session.facts.expansions.insert id expansion } } := by
  unfold splice
  cases under : session.facts.arena.parent? id with
  | none =>
      left
      simp [run_bind, under]
  | some parent =>
      cases replaced : session.facts.arena.replaceChild parent id expansion with
      | error cause =>
          refine .inl ⟨.failed (.broken (.tree cause)), ?_⟩
          simp only [run_bind, run_getArena, under, replaced]
          rfl
      | ok arena =>
          refine .inr ⟨parent, arena, _, replaced, ?_, rfl⟩
          simp only [Returns, run_bind, run_getArena, under, replaced]
          rfl

/-- Nothing but the tree and the expansion of the call changes. -/
theorem run_splice (id expansion : NodeId) (session : Session σ) :
    ∃ arena expansions, ((splice id expansion).run session).2 =
        { session with facts := { session.facts with arena, expansions } } ∧
      ∀ {other}, other ≠ id →
        expansions.get? other = session.facts.expansions.get? other := by
  rcases splice_cases id expansion session with ⟨stop, run⟩ | ⟨_, arena, _, _, run, rfl⟩
  · exact ⟨session.facts.arena, session.facts.expansions, by rw [run], fun _ => rfl⟩
  · exact ⟨arena, _, by rw [run], fun different => Table.get?_insert_of_ne _ different _⟩

theorem returns_splice {id expansion : NodeId} {before after : Session σ}
    (returned : Returns (splice id expansion) before () after) :
    ∃ parent arena,
      before.facts.arena.replaceChild parent id expansion = .ok arena ∧
      after = { before with facts := { before.facts with
        arena, expansions := before.facts.expansions.insert id expansion } } := by
  rcases splice_cases id expansion before with
    ⟨stop, run⟩ | ⟨parent, arena, spliced, replaced, run, ended⟩
  · rw [Returns, run] at returned
    cases returned
  · obtain rfl : spliced = after := congrArg Prod.snd (run.symm.trans returned)
    exact ⟨parent, arena, replaced, ended⟩

/-- What a call does that means no method. -/
def graft (setting : Setting σ) (infer : NodeId → Infer σ (Option Ty)) (id : NodeId)
    (receiver : Ty) : Infer σ (Option Ty) := do
  match ← offer setting id receiver with
  | none => return none
  | some expansion =>
      splice id expansion
      infer expansion

theorem resolveCall_eq (setting : Setting σ) (infer : NodeId → Infer σ (Option Ty))
    (id : NodeId) (receiver : Ty) (name : String) (types : List Ty) :
    resolveCall setting infer id receiver name types = (do
      let location ← locationOf id
      match ← findMethod receiver name types location with
      | some method => return some method.returnType
      | none => graft setting infer id receiver) := rfl

/-- The session in which the expander has answered. -/
def afterOffer (session : Session σ) (arena : Arena) (state : σ) : Session σ :=
  { session with facts := { session.facts with arena }, expanderState := state }

/-- The session in which an expansion has taken the slot of its call. -/
def afterSplice (session : Session σ) (id expansion : NodeId) (arena : Arena) : Session σ :=
  { session with facts := { session.facts with
      arena, expansions := session.facts.expansions.insert id expansion } }

theorem run_offer
    {id : NodeId} {receiver : Ty} {session : Session σ} {answer : Option NodeId}
    {arena : Arena} {state : σ}
    (asked : setting.expander.expand session.facts.arena id receiver session.expanderState =
      (answer, arena, state)) :
    (offer setting id receiver).run session = (.ok answer, afterOffer session arena state) := by
  simp only [offer, run_bind, run_get, asked]
  rfl

/-- What becomes of a call that is offered to the expander. -/
inductive Grafted (setting : Setting σ) (infer : NodeId → Infer σ (Option Ty)) (id : NodeId)
    (receiver : Ty) (session : Session σ) : Except Stop (Option Ty) × Session σ → Prop where
  | declined {arena : Arena} {state : σ}
      (asked : setting.expander.expand session.facts.arena id receiver session.expanderState =
        (none, arena, state)) :
      Grafted setting infer id receiver session (.ok none, afterOffer session arena state)
  | refused {expansion : NodeId} {arena : Arena} {state : σ} {stop : Stop}
      (asked : setting.expander.expand session.facts.arena id receiver session.expanderState =
        (some expansion, arena, state))
      (run : (splice id expansion).run (afterOffer session arena state) =
        (.error stop, afterOffer session arena state)) :
      Grafted setting infer id receiver session (.error stop, afterOffer session arena state)
  | placed {expansion : NodeId} {arena : Arena} {state : σ} {parent : NodeId} {spliced : Arena}
      (asked : setting.expander.expand session.facts.arena id receiver session.expanderState =
        (some expansion, arena, state))
      (replaced : arena.replaceChild parent id expansion = .ok spliced) :
      Grafted setting infer id receiver session ((infer expansion).run
        (afterSplice (afterOffer session arena state) id expansion spliced))

theorem grafted (setting : Setting σ) (infer : NodeId → Infer σ (Option Ty)) (id : NodeId)
    (receiver : Ty) (session : Session σ) :
    Grafted setting infer id receiver session
      ((graft setting infer id receiver).run session) := by
  rcases asked : setting.expander.expand session.facts.arena id receiver session.expanderState
    with ⟨answer, arena, state⟩
  rw [graft, run_bind_of_returns (run_offer asked)]
  cases answer with
  | none => exact .declined asked
  | some expansion =>
      dsimp only
      rcases splice_cases id expansion (afterOffer session arena state) with
        ⟨stop, run⟩ | ⟨parent, spliced, after, replaced, run, rfl⟩
      · rw [run_bind_of_error run]
        exact .refused asked run
      · rw [run_bind_of_returns run]
        exact .placed asked replaced

/-- A node has a type already, is typed by its expansion, does not exist, or
is typed by its rule. -/
theorem run_node (setting : Setting σ) (fuel : Nat) (id : NodeId)
    (session : Session σ) :
    (∃ ty, session.facts.nodeType? id = some ty ∧
      (node setting (fuel + 1) id).run session = (.ok (some ty), session)) ∨
    (∃ expansion, session.facts.nodeType? id = none ∧
      session.facts.expansionOf? id = some expansion ∧
      (node setting (fuel + 1) id).run session =
        (node setting fuel expansion >>= remember id).run session) ∨
    (∃ cause, session.facts.arena.require id = .error cause ∧
      (node setting (fuel + 1) id).run session =
        (.error (.failed (.broken cause)), session)) ∨
    (∃ found, session.facts.nodeType? id = none ∧
      session.facts.expansionOf? id = none ∧
      session.facts.arena.require id = .ok found ∧
      (node setting (fuel + 1) id).run session =
        (rule setting (node setting fuel) id found >>= remember id).run session) := by
  cases unknown : session.facts.nodeType? id with
  | some ty =>
      refine .inl ⟨ty, rfl, ?_⟩
      simp [node, run_bind, unknown]
  | none =>
      cases unexpanded : session.facts.expansionOf? id with
      | some expansion =>
          refine .inr (.inl ⟨expansion, rfl, rfl, ?_⟩)
          simp [node, run_bind, unknown, unexpanded]
      | none =>
          cases present : session.facts.arena.require id with
          | error cause =>
              refine .inr (.inr (.inl ⟨cause, rfl, ?_⟩))
              simp [node, run_bind, unknown, unexpanded, present]
          | ok found =>
              refine .inr (.inr (.inr ⟨found, rfl, rfl, rfl, ?_⟩))
              simp [node, run_bind, unknown, unexpanded, present]

/-- A visit that ends with a value finds a type, or notes what the expansion or the rule of the
node answered. -/
theorem returns_node
    {setting : Setting σ} {fuel : Nat} {id : NodeId} {before after : Session σ}
    {answer : Option Ty}
    (returned : Returns (node setting (fuel + 1) id) before answer after) :
    (∃ ty, before.facts.nodeType? id = some ty ∧ answer = some ty ∧ after = before) ∨
    (∃ expansion inferred middle, before.facts.nodeType? id = none ∧
      before.facts.expansionOf? id = some expansion ∧
      Returns (node setting fuel expansion) before inferred middle ∧
      Returns (remember id inferred) middle answer after) ∨
    (∃ found inferred middle, before.facts.nodeType? id = none ∧
      before.facts.expansionOf? id = none ∧ before.facts.arena.find? id = some found ∧
      Returns (rule setting (node setting fuel) id found) before inferred middle ∧
      Returns (remember id inferred) middle answer after) := by
  rw [Returns] at returned
  rcases run_node setting fuel id before with ⟨ty, known, run⟩ |
    ⟨expansion, unknown, expanded, run⟩ | ⟨cause, _, run⟩ |
    ⟨found, unknown, unexpanded, required, run⟩
  · rw [run] at returned
    cases returned
    exact .inl ⟨ty, known, rfl, rfl⟩
  · rw [run] at returned
    obtain ⟨inferred, middle, visited, kept⟩ := returns_bind.mp returned
    exact .inr (.inl ⟨expansion, inferred, middle, unknown, expanded, visited, kept⟩)
  · rw [run] at returned
    cases returned
  · rw [run] at returned
    obtain ⟨inferred, middle, ruled, kept⟩ := returns_bind.mp returned
    exact .inr (.inr ⟨found, inferred, middle, unknown, unexpanded,
      Arena.find?_of_require required, ruled, kept⟩)

/-- A relation holds between the session before a visit and the one after it, whether the visit
ends with a value or not, if it does so for expansions and rules with what they answer noted. -/
theorem node_relates
    {setting : Setting σ} {relation : Session σ → Session σ → Prop}
    (refl : ∀ session, relation session session)
    (expansions : ∀ {fuel id expansion session},
      (∀ child, Relates relation (node setting fuel child)) →
      session.facts.expansionOf? id = some expansion →
        relation session ((node setting fuel expansion >>= remember id).run session).2)
    (rules : ∀ {fuel id found session},
      (∀ child, Relates relation (node setting fuel child)) →
      session.facts.expansionOf? id = none → session.facts.arena.find? id = some found →
        relation session
          ((rule setting (node setting fuel) id found >>= remember id).run session).2)
    (fuel : Nat) :
    ∀ id, Relates relation (node setting fuel id) := by
  -- The fuel bounds the depth of the visits; without any, a visit stops where it begins.
  induction fuel with
  | zero => exact fun id session => refl session
  | succ fuel visits =>
      intro id session
      rcases run_node setting fuel id session with ⟨ty, _, run⟩ |
        ⟨expansion, _, expanded, run⟩ | ⟨cause, _, run⟩ |
        ⟨found, _, unexpanded, required, run⟩
      · exact run ▸ refl session
      · exact run ▸ expansions visits expanded
      · exact run ▸ refl session
      · exact run ▸ rules visits unexpanded (Arena.find?_of_require required)

end Infer

end DeferredTyping
