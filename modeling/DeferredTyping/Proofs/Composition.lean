import DeferredTyping.Proofs.Assignability
import DeferredTyping.Proofs.Locals
import DeferredTyping.Proofs.Publication

/-!
# Types compose

Each kind of node has a typing rule against the types of the nodes it depends on.
Every node with a type satisfies its rule, whatever is asked of the typer and whether
it succeeds: what a rule relies on when it answers is known from then on.

An optional parameter may keep an older, wider binding than its declared type, which
accepts the default value because assignability is transitive.
-/

namespace DeferredTyping

variable {σ : Type}

open Infer

/-- The node takes a type. -/
def Facts.Typed (facts : Facts) (id : NodeId) : Prop :=
  ∃ ty, facts.nodeType? id = some ty

/-- Each of the nodes takes a type. -/
def Facts.AllTyped (facts : Facts) (ids : List NodeId) : Prop :=
  ∃ types, ids.mapM facts.nodeType? = some types

/-- The name is seen with this type from the scope around the node. -/
def Facts.SeesLocal (facts : Facts) (id : NodeId) (name : String) (ty : Ty) : Prop :=
  ∃ scope, facts.arena.enclosingScope? id = some scope ∧
    facts.localType? scope name = some ty

/-- The typing rule of a kind of node: what holds of its type and of the types of the
nodes it depends on. -/
def Facts.Composes (scriptClass : String) (classes : Catalog) (facts : Facts) (id : NodeId)
    (ty : Ty) : Kind NodeId → Prop
  | .script _ content | .returning content => facts.optionalType? content = some ty
  | .classDefinition name _ _ content | .interfaceDeclaration name _ content =>
      (∃ contentType, facts.optionalType? content = some contentType) ∧ ty = .object name
  | .methodDefinition method =>
      (∃ types, facts.argumentTypes? method.arguments = some types) ∧
      facts.AllTyped (method.thisArgs.getD [] ++ method.superArgs.getD []) ∧
        ∃ bodyType declared, facts.optionalType? method.body = some bodyType ∧
          classes.resolveSignature method.declared = .ok declared ∧
          ty = effectiveReturn declared.returnType bodyType
  | .arguments list => ty = .void ∧ ∃ types, facts.argumentTypes? id = some types ∧
      list.typed.mapM facts.nodeType? = some types
  | .requiredArgument name | .restArgument name | .localRead name => facts.SeesLocal id name ty
  | .optionalArgument name value => facts.SeesLocal id name ty ∧
      ∃ valueType, facts.nodeType? value = some valueType ∧
        classes.isParent ty valueType = true
  | .localAssignment name value => facts.SeesLocal id name ty ∧
      ∃ valueType, facts.nodeType? value = some valueType ∧
        classes.isParent ty valueType = true
  | .blockArgument _ => False
  | .block parameters content => facts.Typed parameters ∧
      facts.optionalType? content = some ty
  | .body statements => ∃ types, statements.mapM facts.nodeType? = some types ∧
      ty = types.getLast?.getD .void
  | .noop => ty = .void
  | .fixnum _ => ty = .int
  | .float _ => ty = .primitive .double
  | .str _ => ty = .object stringName
  | .boolean _ => ty = .boolean
  | .null => ty = .null
  | .selfRef => facts.arena.selfType scriptClass id = .ok ty
  | .functionalCall _ parameters closure =>
      facts.AllTyped parameters ∧ facts.AllTyped closure.toList
  | .call target _ parameters closure => facts.Typed target ∧
      facts.AllTyped parameters ∧ facts.AllTyped closure.toList
  | .superCall parameters => facts.AllTyped parameters ∧ ty = .void
  | .constant name => ∃ named, classes.resolve name = some named ∧ ty = named.toMeta
  | .ifElse condition thenBody none => facts.Typed condition ∧
      facts.optionalType? thenBody = some ty
  | .ifElse condition thenBody (some elseBody) => facts.Typed condition ∧
      (facts.optionalType? thenBody = some ty ∨ facts.nodeType? elseBody = some ty)
  | .raise exception => facts.Typed exception ∧ ty = .unreachable

theorem Facts.Typed.mono {before after : Facts} (extended : before.Extends after)
    {id : NodeId} (typed : before.Typed id) : after.Typed id :=
  typed.imp fun _ known => extended.nodeTypes known

theorem Facts.AllTyped.mono {before after : Facts} (extended : before.Extends after)
    {ids : List NodeId} (typed : before.AllTyped ids) : after.AllTyped ids :=
  typed.imp fun _ known => Facts.Later.mapM_nodeType? extended known

theorem Facts.SeesLocal.mono {before after : Facts} (later : before.Later after)
    {id : NodeId} {name : String} {ty : Ty} (sees : before.SeesLocal id name ty) :
    after.SeesLocal id name ty := by
  obtain ⟨scope, around, visible⟩ := sees
  exact ⟨scope, later.arena ▸ around, later.locals visible⟩

/-- What is learned later does not take a typing rule back. -/
theorem Facts.Composes.mono
    {scriptClass : String} {classes : Catalog} {before after : Facts}
    (later : before.Later after) {id : NodeId} {ty : Ty} {kind : Kind NodeId}
    (composes : before.Composes scriptClass classes id ty kind) :
    after.Composes scriptClass classes id ty kind := by
  have extended := later.toExtends
  cases kind with
  | script _ content | returning content => exact extended.optionalType? composes
  | classDefinition _ _ _ content | interfaceDeclaration _ _ content =>
      exact composes.imp_left fun known => known.imp fun _ => extended.optionalType?
  | methodDefinition method =>
      obtain ⟨⟨types, listed⟩, delegated, bodyType, declared, inside, rest⟩ := composes
      exact ⟨⟨types, extended.argumentTypes listed⟩, delegated.mono extended,
        bodyType, declared, extended.optionalType? inside, rest⟩
  | arguments list =>
      obtain ⟨same, types, listed, known⟩ := composes
      exact ⟨same, types, extended.argumentTypes listed,
        Facts.Later.mapM_nodeType? extended known⟩
  | requiredArgument _ | restArgument _ | localRead _ => exact Facts.SeesLocal.mono later composes
  | optionalArgument _ _ | localAssignment _ _ =>
      obtain ⟨sees, valueType, known, accepts⟩ := composes
      exact ⟨sees.mono later, valueType, extended.nodeTypes known, accepts⟩
  | blockArgument _ => exact composes
  | block _ _ =>
      exact composes.imp (Facts.Typed.mono extended) extended.optionalType?
  | body _ =>
      obtain ⟨types, known, same⟩ := composes
      exact ⟨types, Facts.Later.mapM_nodeType? extended known, same⟩
  | noop | fixnum _ | float _ | str _ | boolean _ | null | constant _ => exact composes
  | selfRef =>
      rw [Facts.Composes, later.arena]
      exact composes
  | functionalCall _ _ _ =>
      exact composes.imp (Facts.AllTyped.mono extended) (Facts.AllTyped.mono extended)
  | call _ _ _ _ =>
      exact composes.imp (Facts.Typed.mono extended) fun ⟨given, attached⟩ =>
        ⟨given.mono extended, attached.mono extended⟩
  | superCall _ => exact composes.imp_left (Facts.AllTyped.mono extended)
  | ifElse _ _ elseBody =>
      cases elseBody with
      | none => exact composes.imp (Facts.Typed.mono extended) extended.optionalType?
      | some _ =>
          exact composes.imp (Facts.Typed.mono extended) <|
            Or.imp extended.optionalType? extended.nodeTypes
  | raise _ => exact composes.imp_left (Facts.Typed.mono extended)

namespace Infer

variable {setting : Setting σ} {tree : Arena} {classes : Catalog}
  {infer : NodeId → Infer σ (Option Ty)} {id : NodeId} {before after : Session σ}

theorem Faithful.typed_block
    (faithful : Faithful infer) {closure : Option NodeId}
    (returned : Returns (blockReady infer closure) before true after) :
    after.facts.AllTyped closure.toList := by
  cases closure with
  | none => exact ⟨[], rfl⟩
  | some block =>
      obtain ⟨answer, _, visited, answers⟩ := returns_bind.mp returned
      obtain ⟨known, rfl⟩ := returns_pure.mp answers
      obtain ⟨ty, rfl⟩ := Option.isSome_iff_exists.mp known
      refine ⟨[ty], ?_⟩
      rw [Option.toList_some, List.mapM_cons, faithful.answers visited]
      rfl

/-- A name that was learned for a node is seen from the scope around it. -/
theorem sees_of_learnLocal
    {scope : NodeId} {name : String} {ty bound : Ty} {location : Location}
    (around : after.facts.arena.scopeOf id = .ok scope)
    (returned : Returns (learnLocal scope name ty location) before bound after) :
    after.facts.SeesLocal id name bound ∧ before.catalog.isParent bound ty = true := by
  obtain ⟨visible, accepted⟩ := localType?_of_learnLocal returned
  exact ⟨⟨scope, Arena.enclosingScope?_of_scopeOf around, visible⟩, accepted⟩

/-- A parameter without a default value is seen with its type. -/
theorem sees_of_requiredArgument
    (same : after.facts.arena = before.facts.arena) {name : String} {ty : Ty}
    (returned : Returns (requiredArgument setting id name) before (some ty) after) :
    after.facts.SeesLocal id name ty := by
  obtain ⟨scope, declared, middle, around, _, concludes⟩ := returns_requiredArgument returned
  rw [← same] at around
  rcases concludes with ⟨_, bound, rfl⟩ | ⟨given, location, learned, _, learns, answer⟩
  · exact ⟨scope, Arena.enclosingScope?_of_scopeOf around,
      Facts.localType?_of_own? bound.symm⟩
  · cases answer
    exact (sees_of_learnLocal around learns).1

section

variable (faithful : Faithful infer)

include faithful

/-- An optional parameter is seen with a type that accepts its default value. -/
theorem composes_of_optionalArgument
    (rooted : classes.Rooted) (catalog : before.catalog = classes)
    (same : after.facts.arena = before.facts.arena) {name : String} {value : NodeId} {ty : Ty}
    (returned : Returns (optionalArgument setting infer id name value) before (some ty) after) :
    after.facts.SeesLocal id name ty ∧ ∃ valueType,
      after.facts.nodeType? value = some valueType ∧ classes.isParent ty valueType = true := by
  obtain ⟨scope, declared, declaredAt, given, middle, around, declares, visited, concludes⟩ :=
    returns_optionalArgument returned
  rw [← same] at around
  rcases concludes with ⟨_, answer, _⟩ | ⟨valueType, location, bound, rfl, accepts, learns, answer⟩
  · cases answer
  · cases answer
    obtain ⟨sees, wider⟩ := sees_of_learnLocal around learns
    have declaring : Relates Session.Extends (declaredType? setting id name) :=
      (traversal_extends setting).toBuilding.add (.declaredType? id name)
    have early := (declaring.returned declares).trans ((faithful.adds value).returned visited)
    have learning : Relates Session.Extends
        (learnLocal scope name (declared.getD valueType) location) :=
      (traversal_extends setting).toBuilding.add (.learnLocal _ _ _ _)
    have known := (learning.returned learns).facts.nodeTypes (faithful.answers visited)
    rw [early.catalog, catalog] at wider
    refine ⟨sees, valueType, known, ?_⟩
    cases declared with
    | none => exact wider
    | some expected =>
        -- The kept binding accepts the declared type, which accepts the value.
        have accepted := accepts expected rfl
        rw [early.catalog, catalog] at accepted
        exact rooted.isParent_trans wider accepted

/-- An assigned local is seen with a type that accepts the value. -/
theorem composes_of_localAssignment
    (setting : Setting σ) (catalog : before.catalog = classes)
    {name : String} {value : NodeId} {location : Location} {ty : Ty}
    (returned : Returns (localAssignment infer id name value location) before (some ty) after) :
    after.facts.SeesLocal id name ty ∧ ∃ valueType,
      after.facts.nodeType? value = some valueType ∧ classes.isParent ty valueType = true := by
  obtain ⟨given, middle, visited, concludes⟩ := returns_localAssignment returned
  rcases concludes with ⟨_, answer, _⟩ | ⟨valueType, scope, bound, rfl, around, learns, answer⟩
  · cases answer
  · cases answer
    have adds : AddStep setting (learnLocal scope name valueType location) :=
      .learnLocal scope name valueType location
    obtain ⟨added, _⟩ := adds.added learns
    rw [← (Facts.Learned.sameNodes (Facts.Added.learned added)).arena] at around
    obtain ⟨sees, accepts⟩ := sees_of_learnLocal around learns
    rw [((faithful.adds value).returned visited).catalog, catalog] at accepts
    exact ⟨sees, valueType,
      (Facts.Added.extends added).nodeTypes (faithful.answers visited), accepts⟩

theorem composes_of_functionalCall
    (declines : setting.expander.Declines)
    {name : String} {parameters : List NodeId} {closure : Option NodeId} {ty : Ty}
    (returned : Returns (functionalCall setting infer id name parameters closure) before
      (some ty) after) :
    after.facts.AllTyped parameters ∧ after.facts.AllTyped closure.toList := by
  obtain ⟨receiver, types, given, ready, attached, _, gathers, closes, concludes⟩ :=
    returns_functionalCall returned
  rcases concludes with ⟨answer, _⟩ | ⟨known, rfl, rfl, resolves⟩
  · cases answer
  · obtain rfl := (ReadStep.resolveCall declines id receiver name known).after_eq resolves
    exact ⟨Facts.AllTyped.mono ((faithful.adds_blockReady closure).returned closes).facts
      ⟨known, faithful.all gathers⟩, faithful.typed_block closes⟩

theorem composes_of_call
    (declines : setting.expander.Declines)
    {target : NodeId} {name : String} {parameters : List NodeId} {closure : Option NodeId}
    {ty : Ty}
    (returned : Returns (call setting infer id target name parameters closure) before
      (some ty) after) :
    after.facts.Typed target ∧
      after.facts.AllTyped parameters ∧ after.facts.AllTyped closure.toList := by
  obtain ⟨receiver, aimed, types, given, ready, attached, aims, gathers, closes, concludes⟩ :=
    returns_call returned
  have early := ((faithful.adds_all parameters).returned gathers).facts
  have late := ((faithful.adds_blockReady closure).returned closes).facts
  rcases concludes with ⟨answer, _⟩ | ⟨known, knownTypes, rfl, rfl, rfl, isNew | isCall⟩
  · cases answer
  · obtain ⟨_, rfl⟩ := isNew
    exact ⟨⟨known, (early.trans late).nodeTypes (faithful.answers aims)⟩,
      Facts.AllTyped.mono late ⟨knownTypes, faithful.all gathers⟩,
      faithful.typed_block closes⟩
  · obtain ⟨_, resolves⟩ := isCall
    obtain rfl := (ReadStep.resolveCall declines id known name knownTypes).after_eq resolves
    exact ⟨⟨known, (early.trans late).nodeTypes (faithful.answers aims)⟩,
      Facts.AllTyped.mono late ⟨knownTypes, faithful.all gathers⟩,
      faithful.typed_block closes⟩

/-- A choice has the type of one of its branches. -/
theorem composes_of_ifElse
    {condition : NodeId} {thenBody elseBody : Option NodeId} {location : Location} {ty : Ty}
    (returned : Returns (ifElse infer condition thenBody elseBody location) before (some ty)
      after) :
    after.facts.Composes setting.scriptClass classes id ty
      (.ifElse condition thenBody elseBody) := by
  cases elseBody with
  | none =>
      unfold ifElse at returned
      obtain ⟨conditionType, decided, decides, chooses⟩ := returns_bind.mp returned
      obtain ⟨thenType, chosen, branches, alternative⟩ := returns_bind.mp chooses
      have early := ((faithful.adds_optional thenBody).returned branches).facts
      obtain ⟨answer, rfl⟩ := returns_pure.mp alternative
      obtain ⟨known, rfl, rfl⟩ := Option.bind_eq_some_iff.mp answer
      exact ⟨⟨known, early.nodeTypes (faithful.answers decides)⟩, faithful.optional branches⟩
  | some elseBody =>
      obtain ⟨conditionType, decided, thenType, chosen, elseType, decides, branches, alternates,
        concludes⟩ := returns_ifElse_some returned
      have early := ((faithful.adds_optional thenBody).returned branches).facts
      have late := ((faithful.adds elseBody).returned alternates).facts
      refine ⟨⟨conditionType, (early.trans late).nodeTypes (faithful.answers decides)⟩, ?_⟩
      have thenKnown : ∀ {known}, thenType = some known →
          after.facts.optionalType? thenBody = some known := by
        rintro known rfl
        exact late.optionalType? (faithful.optional branches)
      have elseKnown := faithful.answers alternates
      rcases concludes with ⟨known, other, taken, rfl, joins⟩ | ⟨_, ⟨taken, _⟩ | ⟨_, rfl⟩⟩
      · rcases Assignable.eq_of_join? joins with rfl | rfl
        · exact .inl (thenKnown taken)
        · exact .inr elseKnown
      · exact .inl (thenKnown taken)
      · exact .inr elseKnown

/-- The delegation of a method that was gathered has types. -/
theorem allTyped_of_delegationReady
    {method : Method NodeId}
    (returned : Returns (delegationReady infer method) before true after) :
    after.facts.AllTyped (method.thisArgs.getD [] ++ method.superArgs.getD []) := by
  obtain ⟨types, collects, ready⟩ := returns_map.mp returned
  obtain ⟨known, rfl⟩ := Option.isSome_iff_exists.mp ready
  exact ⟨known, faithful.all collects⟩

end

/-- A list of parameters whose types are known keeps them. -/
theorem argumentTypes?_of_arguments
    {types : List Ty}
    (returned : Returns (arguments infer id) before (some types) after) :
    ∃ kept, after.facts.argumentTypes? id = some kept := by
  rcases returns_arguments returned with
    ⟨known, listed, _, rfl⟩ | ⟨_, middle, _, _, _, keeps⟩
  · exact ⟨known, listed⟩
  · cases keeps
    exact Option.isSome_iff_exists.mp
      (Table.contains_insertIfNew_self middle.facts.argumentTypes id types)

/-- A list of parameters is known by the types of its parameters. -/
theorem composes_of_arguments
    (declines : setting.expander.Declines) (keyed : tree.Keyed)
    (regular : before.Regular tree classes) {fuel : Nat}
    {list : ArgumentList NodeId} (found : tree.argumentsOf id = .ok list) {types : List Ty}
    (returned : Returns (arguments (node setting fuel) id) before (some types) after) :
    ∃ types, after.facts.argumentTypes? id = some types ∧
      list.typed.mapM after.facts.nodeType? = some types := by
  have established := regularJudgement_established setting tree classes
  have begun : before.Judged tree classes regularJudgement :=
    ⟨regular, trivial, fun _ => trivial⟩
  have visits := arguments_judged established keyed (node_faithful declines.keepsNodes fuel)
    (node_judged established keyed declines fuel) id
  have kept := visits.returned begun returned
  obtain ⟨known, listed⟩ := argumentTypes?_of_arguments returned
  exact ⟨known, listed, kept.types_of_argumentTypes? listed (kept.arena ▸ found)⟩

/-- A method has the type of its signature or else of its body. -/
theorem composes_of_methodDefinition
    (declines : setting.expander.Declines) (keyed : tree.Keyed)
    (regular : before.Regular tree classes) {fuel : Nat}
    {method : Method NodeId} (defines : tree.method? id = some method) {ty : Ty}
    (free : after.facts.nodeType? id = none)
    (returned : Returns (methodDefinition setting (node setting fuel) id method) before
      (some ty) after) :
    after.facts.Composes setting.scriptClass classes id ty (.methodDefinition method) := by
  have faithful : Faithful (node setting fuel) := node_faithful declines.keepsNodes fuel
  obtain ⟨known, middle, announced, gathers, announces, rfl, rfl⟩ :=
    returns_methodDefinition_some returned
  obtain ⟨⟨parameters, inside, _⟩, delegated, bound, signed, delegates, binds, _, extended⟩ :=
    faithful.gathered gathers
  have binding : Relates Session.Extends (bindDefiningClass setting id) :=
    (traversal_extends setting).toBuilding.add (.bindDefiningClass id)
  have early := (binding.returned binds).trans extended
  have adding : FactStep setting _ Facts.Adds (announce id method known.lexical
      known.signature known.parameters known.bodyType known.location) :=
    announce_adds id method _ _ _ _ _
  obtain ⟨added, _⟩ := adding.changed announces
  have later := Facts.Added.extends added
  have untyped := later.nodeType?_eq_none free
  exact ⟨⟨_, later.argumentTypes parameters⟩,
    (allTyped_of_delegationReady faithful delegates).mono (early.facts.trans later),
    _, _, later.optionalType? inside,
    gathered_declared keyed declines regular defines gathers untyped, rfl⟩

/-- The rule of a node gives it a type that composes. -/
theorem composes_of_rule
    (declines : setting.expander.Declines) (keyed : tree.Keyed) (rooted : classes.Rooted)
    (regular : before.Regular tree classes) (intact : after.Intact tree) {fuel : Nat}
    {found : Node} (present : tree.find? id = some found)
    (unknown : before.facts.nodeType? id = none) {ty : Ty}
    (returned : Returns (rule setting (node setting fuel) id found) before (some ty) after) :
    after.facts.Composes setting.scriptClass classes id ty found.kind := by
  have keeps := declines.keepsNodes
  have faithful : Faithful (node setting fuel) := node_faithful keeps fuel
  have same : after.facts.arena = before.facts.arena := intact.arena.trans regular.arena.symm
  have unexpanded : before.facts.expansionOf? id = none := by
    rw [Facts.expansionOf?, regular.unexpanded]
    rfl
  have free := untyped_of_rule keeps unknown unexpanded (regular.arena ▸ present) returned
  unfold rule at returned
  cases kind : found.kind with
  | script _ content | returning content =>
      rw [kind] at returned
      exact faithful.optional returned
  | classDefinition name _ _ content | interfaceDeclaration name _ content =>
      rw [kind] at returned
      obtain ⟨answer, visited, named⟩ := returns_map.mp returned
      obtain ⟨contentType, rfl, rfl⟩ := Option.map_eq_some_iff.mp named
      exact ⟨⟨contentType, faithful.optional visited⟩, rfl⟩
  | methodDefinition method =>
      rw [kind] at returned
      have defines : tree.method? id = some method := by
        rw [Arena.method?, present]
        exact Kind.method?_eq_some_iff.mpr kind
      exact composes_of_methodDefinition declines keyed regular defines free returned
  | arguments list =>
      rw [kind] at returned
      obtain ⟨answer, listed, done⟩ := returns_map.mp returned
      obtain ⟨types, rfl, rfl⟩ := Option.map_eq_some_iff.mp done
      exact ⟨rfl, composes_of_arguments declines keyed regular
        (Arena.argumentsOf_of_find? present kind) listed⟩
  | requiredArgument name | restArgument name =>
      rw [kind] at returned
      exact sees_of_requiredArgument same returned
  | optionalArgument name value =>
      rw [kind] at returned
      exact composes_of_optionalArgument faithful rooted regular.catalog same returned
  | blockArgument name =>
      rw [kind] at returned
      exact absurd returned returns_fail
  | block parameters content =>
      rw [kind] at returned
      obtain ⟨parameterType, listed, lists, visited⟩ := returns_bind.mp returned
      obtain ⟨contentType, _, inside, answer⟩ := returns_bind.mp visited
      obtain ⟨answered, rfl⟩ := returns_pure.mp answer
      obtain ⟨known, rfl, rfl⟩ := Option.bind_eq_some_iff.mp answered
      have later := ((faithful.adds_optional content).returned inside).facts
      exact ⟨⟨known, later.nodeTypes (faithful.answers lists)⟩, faithful.optional inside⟩
  | body statements =>
      rw [kind] at returned
      obtain ⟨answer, collects, last⟩ := returns_map.mp returned
      obtain ⟨types, rfl, rfl⟩ := Option.map_eq_some_iff.mp last
      exact ⟨types, faithful.all collects, rfl⟩
  | noop | fixnum _ | float _ | str _ | boolean _ | null =>
      rw [kind] at returned
      exact (Option.some.inj (returns_pure.mp returned).1).symm
  | selfRef =>
      rw [kind] at returned
      obtain ⟨arena, _, read, asked⟩ := returns_bind.mp returned
      obtain ⟨rfl, rfl⟩ := returns_getArena.mp read
      obtain ⟨self, stands, answer⟩ := returns_map.mp asked
      cases answer
      obtain ⟨known, rfl⟩ := returns_ofTree.mp stands
      exact known
  | localRead name =>
      rw [kind] at returned
      obtain ⟨scope, stands, visible, rfl⟩ := returns_localRead returned
      exact ⟨scope, Arena.enclosingScope?_of_scopeOf stands, visible.symm⟩
  | localAssignment name value =>
      rw [kind] at returned
      exact composes_of_localAssignment faithful setting regular.catalog returned
  | functionalCall name parameters closure =>
      rw [kind] at returned
      exact composes_of_functionalCall faithful declines returned
  | call target name parameters closure =>
      rw [kind] at returned
      exact composes_of_call faithful declines returned
  | superCall parameters =>
      rw [kind] at returned
      obtain ⟨answer, collects, done⟩ := returns_map.mp returned
      obtain ⟨types, rfl, rfl⟩ := Option.map_eq_some_iff.mp done
      exact ⟨⟨types, faithful.all collects⟩, rfl⟩
  | constant name =>
      rw [kind] at returned
      obtain ⟨session, read, named⟩ := returns_map.mp returned
      obtain ⟨rfl, rfl⟩ := returns_get.mp read
      obtain ⟨resolved, known, rfl⟩ := Option.map_eq_some_iff.mp named
      exact ⟨resolved, regular.catalog ▸ known, rfl⟩
  | ifElse condition thenBody elseBody =>
      rw [kind] at returned
      exact composes_of_ifElse faithful returned
  | raise exception =>
      rw [kind] at returned
      obtain ⟨answer, visited, done⟩ := returns_map.mp returned
      obtain ⟨known, rfl, rfl⟩ := Option.map_eq_some_iff.mp done
      exact ⟨⟨known, faithful.answers visited⟩, rfl⟩

end Infer

/-- A node with a type is there, and its type follows the rule of its kind. -/
def compositionJudgement (scriptClass : String) (classes : Catalog) : Judgement σ where
  context _ := True
  holds id ty facts := ∃ found, facts.arena.find? id = some found ∧
    facts.Composes scriptClass classes id ty found.kind

theorem compositionJudgement_established
    {setting : Setting σ} (declines : setting.expander.Declines)
    {tree : Arena} (keyed : tree.Keyed) {classes : Catalog} (rooted : classes.Rooted) :
    (compositionJudgement setting.scriptClass classes : Judgement σ).Established setting
      tree classes where
  context _ _ known := known
  later later holds := by
    obtain ⟨found, present, composes⟩ := holds
    exact ⟨found, later.arena ▸ present, composes.mono later⟩
  rule {fuel id found ty before after} regular _ unknown present intact returned :=
    ⟨found, intact.arena ▸ present,
      (composes_of_rule declines keyed rooted regular intact present unknown returned).mono
        (after.facts.later_setNodeType id ty)⟩

namespace Typer

variable {typer : Typer σ}

/-- Whatever is asked of a typer that has registered its declarations, and whether it
succeeds, every node with a type satisfies the typing rule of its kind against the types
of the nodes it depends on. -/
theorem types_compose
    (declines : typer.expander.Declines)
    {arena : Arena} (keyed : arena.Keyed)
    {catalog : Catalog} (built : catalog.Built)
    (root : ∀ parent ∈ (arena.declare catalog).parentNames objectName, parent = objectName)
    {state : σ} {registered session : Session σ}
    (registers : Returns typer.registerTypes (start arena catalog state) () registered)
    (continues : typer.Continues registered session) :
    ∀ {id ty}, session.facts.nodeType? id = some ty →
      ∃ found, session.facts.arena.find? id = some found ∧
        session.facts.Composes typer.config.scriptClass session.catalog id ty found.kind := by
  have rooted : (arena.declare catalog).Rooted := ⟨(built.declare arena).knowsBuiltins, root⟩
  have established : (compositionJudgement typer.setting.scriptClass (arena.declare catalog) :
      Judgement σ).Established typer.setting arena (arena.declare catalog) :=
    compositionJudgement_established declines keyed rooted
  have judged := judged_of_continues established
    (fun _ _ _ _ => trivial) keyed declines registers trivial continues
  intro id ty known
  rw [judged.catalog]
  exact judged.holds known

/-- A method with an optional parameter that is declared wider than its default value. -/
def widenedDefault : Arena where
  nodes := ⟨[
    (1, { id := 1, parent := none, location := {}, kind := .script "" (some 2) }),
    (2, { id := 2, parent := some 1, location := {}, kind := .body [3] }),
    (3, { id := 3, parent := some 2, location := {},
          kind := .methodDefinition {
            name := "scale", arguments := 4, body := some 7
            declared := { parameters := [("by", "long")] } } }),
    (4, { id := 4, parent := some 3, location := {},
          kind := .arguments { optional := [5] } }),
    (5, { id := 5, parent := some 4, location := {}, kind := .optionalArgument "by" 6 }),
    (6, { id := 6, parent := some 5, location := {}, kind := .fixnum 1 }),
    (7, { id := 7, parent := some 3, location := {}, kind := .localRead "by" })]⟩
  nextId := 8

/-- The parameter was bound before it was visited, to a type wider than the declared
one, and keeps that type. -/
theorem types_compose_of_widenedDefault :
    plain.expander.Declines ∧ widenedDefault.Keyed ∧ Catalog.builtin.Built ∧
      (∀ parent ∈ (widenedDefault.declare .builtin).parentNames objectName,
        parent = objectName) ∧
      ∃ registered session,
        Returns plain.registerTypes (start widenedDefault .builtin ()) () registered ∧
        plain.Continues registered session ∧
        session.facts.nodeType? 5 = some (.primitive .double) ∧
        session.facts.nodeType? 6 = some .int ∧
        session.catalog.isParent (.primitive .double) .int = true := by
  have keyed : widenedDefault.Keyed := ⟨by decide, by decide⟩
  have root : ∀ parent ∈ (widenedDefault.declare .builtin).parentNames objectName,
      parent = objectName := by decide +kernel
  have registers : Returns plain.registerTypes (start widenedDefault .builtin ()) ()
      (plain.registerTypes.run (start widenedDefault .builtin ())).2 :=
    returns_of_isOk (by decide +kernel)
  have continues : plain.Continues
      (plain.registerTypes.run (start widenedDefault .builtin ())).2
      (plain.perform (plain.perform
        (plain.registerTypes.run (start widenedDefault .builtin ())).2
        (.learnLocalType 3 "by" (.primitive .double))) .inferTypes) :=
    .step (.step .refl (.learnLocalType 3 "by" (.primitive .double))) .inferTypes
  have present : (plain.perform (plain.perform
      (plain.registerTypes.run (start widenedDefault .builtin ())).2
      (.learnLocalType 3 "by" (.primitive .double))) .inferTypes).facts.arena.find? 5 =
        some { id := 5, parent := some 4, location := {},
               kind := .optionalArgument "by" 6 } := by decide +kernel
  have typed : (plain.perform (plain.perform
      (plain.registerTypes.run (start widenedDefault .builtin ())).2
      (.learnLocalType 3 "by" (.primitive .double))) .inferTypes).facts.nodeType? 5 =
        some (.primitive .double) := by decide +kernel
  have valued : (plain.perform (plain.perform
      (plain.registerTypes.run (start widenedDefault .builtin ())).2
      (.learnLocalType 3 "by" (.primitive .double))) .inferTypes).facts.nodeType? 6 =
        some .int := by decide +kernel
  obtain ⟨found, same, composes⟩ :=
    types_compose plain_declines keyed .builtin root registers continues typed
  obtain rfl := Option.some.inj (present.symm.trans same)
  obtain ⟨_, valueType, known, accepts⟩ := composes
  obtain rfl := Option.some.inj (valued.symm.trans known)
  exact ⟨plain_declines, keyed, .builtin, root, _, _, registers, continues, typed, valued,
    accepts⟩

end Typer

end DeferredTyping
