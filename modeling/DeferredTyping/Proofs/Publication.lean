import DeferredTyping.Proofs.Permanence
import DeferredTyping.Proofs.Registration

/-!
# Methods are published consistently

A method takes its type together with an announcement: its parameters, its body,
its class and its declared signature are known by then, the return type follows
from them, and the method table offers the method for each way of calling it.
Nothing of this is ever taken back, and the table holds one entry at most for each
class, name and parameter list.
-/

namespace DeferredTyping

variable {σ : Type}

open Infer

/-- A method is called with some of its optional parameters left out, the last ones. -/
theorem ArgumentLayout.mem_callShapes_iff
    {list : ArgumentList NodeId} {types shape : List Ty} :
    shape ∈ (ArgumentLayout.ofArguments list).callShapes types ↔
      ∃ given, list.required.length ≤ given ∧
        given ≤ list.required.length + list.optional.length ∧
        shape = types.take given ++ types.drop (list.required.length + list.optional.length) := by
  simp only [callShapes, ofArguments, positional, List.mem_map, List.mem_range]
  constructor
  · rintro ⟨some, bound, rfl⟩
    exact ⟨list.required.length + some, by omega, by omega, rfl⟩
  · rintro ⟨given, enough, bound, rfl⟩
    refine ⟨given - list.required.length, by omega, ?_⟩
    rw [Nat.add_sub_cancel' enough]

/-- A method was published with this type from what was gathered of it. -/
structure Facts.Publishes (classes : Catalog) (id : NodeId) (method : Method NodeId)
    (ty : Ty) (list : ArgumentList NodeId) (known : Gathered) (facts : Facts) : Prop where
  listed : facts.arena.argumentsOf method.arguments = .ok list
  parameters : facts.argumentTypes? method.arguments = some known.parameters
  body : facts.optionalType? method.body = some known.bodyType
  lexical : facts.definingClasses.get? id = some known.lexical
  declared : classes.resolveSignature method.declared = .ok known.signature
  returns : ty = effectiveReturn known.signature.returnType known.bodyType
  filled : ∃ signature, facts.signature? id = some signature ∧ signature.returnType = some ty
  accepted : checksBody known.signature.returnType (facts.arena.isAbstract id) = true →
    classes.isParent ty known.bodyType = true
  offers : ∀ shape ∈ (ArgumentLayout.ofArguments list).callShapes known.parameters,
    facts.methods.Offers { publishedMethod method known.lexical known.signature
      known.parameters known.bodyType list with parameters := shape }

theorem Facts.Publishes.later
    {classes : Catalog} {id : NodeId} {method : Method NodeId} {ty : Ty}
    {list : ArgumentList NodeId} {known : Gathered} {before after : Facts}
    (publishes : before.Publishes classes id method ty list known)
    (later : before.Later after) (typed : before.nodeType? id = some ty) :
    after.Publishes classes id method ty list known where
  listed := later.arena ▸ publishes.listed
  parameters := later.argumentTypes publishes.parameters
  body := later.toExtends.optionalType? publishes.body
  lexical := later.definingClasses publishes.lexical
  declared := publishes.declared
  returns := publishes.returns
  filled := by
    obtain ⟨signature, stored, returns⟩ := publishes.filled
    exact ⟨signature, later.typed typed stored, returns⟩
  accepted := later.arena ▸ publishes.accepted
  offers shape member := (publishes.offers shape member).mono later.methods

/-- Methods with a type are published. -/
def methodJudgement (classes : Catalog) : Judgement σ where
  context _ := True
  holds id ty facts := facts.nodeType? id = some ty ∧
    ∀ {method}, facts.arena.method? id = some method →
      ∃ list known, facts.Publishes classes id method ty list known

/-- Nothing is said of nodes. -/
def regularJudgement : Judgement σ where
  context _ := True
  holds _ _ _ := True

theorem regularJudgement_established
    (setting : Setting σ) (tree : Arena) (classes : Catalog) :
    (regularJudgement : Judgement σ).Established setting tree classes where
  context _ _ _ := trivial
  later _ _ := trivial
  rule _ _ _ _ _ _ := trivial

namespace Infer

variable {setting : Setting σ} {tree : Arena} {classes : Catalog} {fuel : Nat}
  {id : NodeId} {before after : Session σ}

/-- The signature of a method that has no type yet is the declared one. -/
theorem gathered_declared
    (keyed : tree.Keyed) (declines : setting.expander.Declines)
    (regular : before.Regular tree classes)
    {method : Method NodeId} (defines : tree.method? id = some method) {known : Gathered}
    (gathers : Returns (gatherMethod setting (node setting fuel) id method) before
      (some known) after)
    (unknown : after.facts.nodeType? id = none) :
    classes.resolveSignature method.declared = .ok known.signature := by
  have established := regularJudgement_established setting tree classes
  have building := judged_building established keyed
  have faithful : Faithful (node setting fuel) := node_faithful declines.keepsNodes fuel
  obtain ⟨_, delegated, bound, signed, delegates, binds, resolves, extended⟩ :=
    faithful.gathered gathers
  have begun : before.Judged tree classes regularJudgement :=
    ⟨regular, trivial, fun _ => trivial⟩
  have visits : Upholds (Session.Judged tree classes regularJudgement)
      (fun stop => stop.isProper = true) (delegationReady (node setting fuel) method) :=
    building.delegationReady fun child _ => node_judged established keyed declines fuel child
  have binding : Upholds (Session.Judged tree classes regularJudgement)
      (fun stop => stop.isProper = true) (bindDefiningClass setting id) :=
    building.add (.bindDefiningClass id)
  have kept := binding.returned (visits.returned begun delegates) binds
  obtain ⟨declared, signature, resolved, known, untyped⟩ := kept.signed defines
  have free := extended.facts.nodeType?_eq_none unknown
  rcases returns_signatureOf resolves with ⟨found, _⟩ | ⟨missing, _⟩
  · rw [known] at found
    cases found
    rw [untyped free]
    exact resolved
  · rw [known] at missing
    cases missing

/-- A method definition that takes a type is published with it. -/
theorem publishes_of_methodDefinition
    (keyed : tree.Keyed) (declines : setting.expander.Declines)
    (regular : before.Regular tree classes) (intact : after.Intact tree)
    {method : Method NodeId} (defines : tree.method? id = some method) {ty : Ty}
    (free : after.facts.nodeType? id = none)
    (returned : Returns (methodDefinition setting (node setting fuel) id method) before
      (some ty) after) :
    ∃ list known,
      (after.facts.setNodeType id ty).Publishes classes id method ty list known := by
  obtain ⟨known, middle, announced, gathers, announces, rfl, ended⟩ :=
    returns_methodDefinition_some returned
  obtain ⟨accepted, learns⟩ := returns_announce announces
  obtain ⟨list, listed, each⟩ := returns_learnPublished learns
  obtain ⟨⟨parameters, body, lexical⟩, _⟩ :=
    (node_faithful declines.keepsNodes fuel).gathered gathers
  have gathering : Relates Session.Extends
      (gatherMethod setting (node setting fuel) id method) :=
    (traversal_extends setting).toBuilding.gatherMethod fun child _ =>
      node_extends setting fuel child
  have early := gathering.returned gathers
  have adding : FactStep setting _ Facts.Adds (announce id method known.lexical
      known.signature known.parameters known.bodyType known.location) :=
    announce_adds id method _ _ _ _ _
  obtain ⟨added, _⟩ := adding.changed announces
  have same := Facts.Learned.sameNodes (Facts.Added.learned added)
  subst ended
  have stands : middle.facts.arena = tree := same.arena.symm.trans intact.arena
  have untyped : middle.facts.nodeType? id = none := by
    rw [Facts.nodeType?, ← same.nodeTypes]
    exact free
  have unfilled : announced.facts.nodeType? id = none := free
  have concludes := Facts.later_conclude unfilled
    (effectiveReturn known.signature.returnType known.bodyType)
  have later := (Facts.Added.later added (stands ▸ keyed)).trans concludes
  refine ⟨list, known, ?_⟩
  exact {
    listed := later.arena ▸ listed
    parameters := later.argumentTypes parameters
    body := later.toExtends.optionalType? body
    lexical := later.definingClasses lexical
    declared := gathered_declared keyed declines regular defines gathers untyped
    returns := rfl
    filled := ⟨_, Table.get?_insert_self _ _ _, rfl⟩
    accepted := fun checks => by
      rw [← regular.catalog, ← early.catalog]
      exact accepted (later.arena ▸ checks)
    offers := fun shape member =>
      returns_learnEach setting each _ (List.mem_map_of_mem member) }

end Infer

theorem methodJudgement_established
    {setting : Setting σ} (declines : setting.expander.Declines)
    {tree : Arena} (keyed : tree.Keyed) (classes : Catalog) :
    (methodJudgement classes : Judgement σ).Established setting tree classes where
  context _ _ known := known
  later {id ty before after} later holds := by
    obtain ⟨typed, published⟩ := holds
    refine ⟨later.nodeTypes typed, ?_⟩
    intro method defines
    rw [later.arena] at defines
    obtain ⟨list, known, publishes⟩ := published defines
    exact ⟨list, known, publishes.later later typed⟩
  rule {fuel id found ty before after} regular _ unknown present intact returned := by
    have keeps := declines.keepsNodes
    have unexpanded : before.facts.expansionOf? id = none := by
      rw [Facts.expansionOf?, regular.unexpanded]
      rfl
    have free := untyped_of_rule keeps unknown unexpanded (regular.arena ▸ present) returned
    refine ⟨Table.get?_insertIfNew_self free ty, ?_⟩
    intro method defines
    have here : tree.method? id = some method := by
      rw [← intact.arena]
      exact defines
    obtain ⟨definition, found, isMethod⟩ := Option.bind_eq_some_iff.mp here
    obtain rfl := Option.some.inj (found.symm.trans present)
    unfold rule at returned
    rw [Kind.method?_eq_some_iff.mp isMethod] at returned
    exact publishes_of_methodDefinition keyed declines regular intact here free returned

namespace Facts.Publishes

variable {classes : Catalog} {id : NodeId} {method : Method NodeId} {ty : Ty}
  {list : ArgumentList NodeId} {known : Gathered} {facts : Facts}

/-- A declared type is the type of the method. -/
theorem eq_of_declared
    (publishes : facts.Publishes classes id method ty list known) {returnType : Ty}
    (declared : known.signature.returnType = some returnType) :
    ty = returnType := by
  have completes := Catalog.resolveSignature_completes publishes.declared declared
  rw [publishes.returns, declared, effectiveReturn_of_declared completes]

theorem isParent_of_declared
    (publishes : facts.Publishes classes id method ty list known) {returnType : Ty}
    (declared : known.signature.returnType = some returnType)
    (value : returnType.isVoid = false) (concrete : facts.arena.isAbstract id = false) :
    classes.isParent ty known.bodyType = true := by
  apply publishes.accepted
  simp [declared, checksBody, value, concrete]

/-- The class under which the method is published. -/
theorem definingClass
    (publishes : facts.Publishes classes id method ty list known)
    (defines : facts.arena.method? id = some method) :
    facts.definingClass? id =
      some (if method.isStatic then known.lexical.toMeta else known.lexical) := by
  simp [definingClass?, publishes.lexical, defines]

/-- For each number of given parameters there is one entry for them and the rest
array. -/
theorem entry
    (publishes : facts.Publishes classes id method ty list known)
    (distinct : facts.methods.Distinct) {given : Nat}
    (enough : list.required.length ≤ given)
    (bound : given ≤ list.required.length + list.optional.length) :
    ∃ entry, entry.returnType = (if method.isConstructor then .void else ty) ∧
      (facts.methods.overloads
          (if method.isStatic then known.lexical.toMeta else known.lexical)
          method.name).filter (fun other => other.parameters ==
            known.parameters.take given ++
              known.parameters.drop (list.required.length + list.optional.length)) =
        [entry] := by
  have shape : known.parameters.take given ++
      known.parameters.drop (list.required.length + list.optional.length) ∈
        (ArgumentLayout.ofArguments list).callShapes known.parameters :=
    ArgumentLayout.mem_callShapes_iff.mpr ⟨given, enough, bound, rfl⟩
  obtain ⟨entry, sameReturn, only⟩ := distinct.unique (publishes.offers _ shape)
  refine ⟨entry, ?_, only⟩
  rw [sameReturn, publishes.returns]
  rfl

end Facts.Publishes

namespace Typer

variable {typer : Typer σ}

/-- Whatever is asked of a typer that has registered its declarations, a method
with a type has a filled signature, a type that follows from its declaration and its
body, and one entry in the method table for each way of calling it; and nothing ever
finds another number of types than of parameters. -/
theorem methods_are_published
    (declines : typer.expander.Declines)
    {arena : Arena} (keyed : arena.Keyed)
    {catalog : Catalog} {state : σ} {registered session : Session σ}
    (registers : Returns typer.registerTypes (start arena catalog state) () registered)
    (continues : typer.Continues registered session) :
    (∀ {id method ty}, session.facts.arena.method? id = some method →
      session.facts.nodeType? id = some ty →
      ∃ list types bodyType declared signature definingClass,
        session.facts.arena.argumentsOf method.arguments = .ok list ∧
        session.facts.methodArgumentTypes? id = some types ∧
        types.length = list.typed.length ∧
        session.facts.optionalType? method.body = some bodyType ∧
        session.catalog.resolveSignature method.declared = .ok declared ∧
        session.facts.signature? id = some signature ∧
        signature.returnType = some ty ∧
        (∀ returnType, declared.returnType = some returnType → ty = returnType) ∧
        (declared.returnType = none →
          ty = if bodyType.isUnreachable then .void else bodyType) ∧
        (∀ returnType, declared.returnType = some returnType → returnType.isVoid = false →
          session.facts.arena.isAbstract id = false →
          session.catalog.isParent ty bodyType = true) ∧
        session.facts.definingClass? id = some definingClass ∧
        ∀ given, list.required.length ≤ given →
          given ≤ list.required.length + list.optional.length →
          ∃ entry, entry.returnType = (if method.isConstructor then .void else ty) ∧
            (session.facts.methods.overloads definingClass method.name).filter
              (fun other => other.parameters == types.take given ++
                types.drop (list.required.length + list.optional.length)) = [entry]) ∧
    ∀ operation name types positional, typer.stop? session operation ≠
      some (.failed (.broken (.parameterCount name types positional))) := by
  have established : (methodJudgement (arena.declare catalog)).Established typer.setting
      arena (arena.declare catalog) := methodJudgement_established declines keyed _
  have judged := judged_of_continues established (fun _ _ _ _ => trivial) keyed declines
    registers trivial continues
  constructor
  · intro id method ty defines typed
    obtain ⟨_, published⟩ := judged.holds typed
    obtain ⟨list, known, publishes⟩ := published defines
    obtain ⟨signature, stored, filled⟩ := publishes.filled
    have counted : known.parameters.length = list.typed.length := by
      obtain ⟨other, found, types⟩ := judged.lists publishes.parameters
      have listed := publishes.listed
      rw [judged.arena, found] at listed
      cases listed
      exact length_of_mapM_some types
    have parameters : session.facts.methodArgumentTypes? id = some known.parameters := by
      rw [Facts.methodArgumentTypes?, defines]
      exact publishes.parameters
    rw [judged.catalog]
    refine ⟨list, known.parameters, known.bodyType, known.signature, signature, _,
      publishes.listed, parameters, counted, publishes.body, publishes.declared, stored,
      filled, fun _ => publishes.eq_of_declared, ?_, fun _ => publishes.isParent_of_declared,
      publishes.definingClass defines, fun _ => publishes.entry judged.distinct⟩
    intro undeclared
    rw [publishes.returns, undeclared]
    rfl
  · intro operation name types positional stopped
    have proper := ((preserves_judged established (fun _ _ _ _ => trivial) keyed declines
      (arena.declare_declare catalog)).perform judged operation).2 stopped
    cases proper

/-- A method with a required and an optional parameter answers the first one. -/
def firstOfTwo : Arena where
  nodes := ⟨[
    (1, { id := 1, parent := none, location := {}, kind := .script "" (some 2) }),
    (2, { id := 2, parent := some 1, location := {}, kind := .body [3] }),
    (3, { id := 3, parent := some 2, location := {},
          kind := .methodDefinition {
            name := "first", arguments := 4, body := some 8
            declared := { parameters := [("a", "int")] } } }),
    (4, { id := 4, parent := some 3, location := {},
          kind := .arguments { required := [5], optional := [6] } }),
    (5, { id := 5, parent := some 4, location := {}, kind := .requiredArgument "a" }),
    (6, { id := 6, parent := some 4, location := {}, kind := .optionalArgument "b" 7 }),
    (7, { id := 7, parent := some 6, location := {}, kind := .boolean true }),
    (8, { id := 8, parent := some 3, location := {}, kind := .localRead "a" })]⟩
  nextId := 9

theorem methods_are_published_of_firstOfTwo :
    plain.expander.Declines ∧ firstOfTwo.Keyed ∧
      ∃ registered, Returns plain.registerTypes (start firstOfTwo {} ()) () registered ∧
        (plain.perform registered .inferTypes).facts.nodeType? 3 = some .int ∧
        ∃ (list : ArgumentList NodeId) (types : List Ty) (definingClass : Ty),
          firstOfTwo.argumentsOf 4 = .ok list ∧ types.length = list.typed.length ∧
          ∀ given, list.required.length ≤ given →
            given ≤ list.required.length + list.optional.length →
            ∃ entry, entry.returnType = .int ∧
              ((plain.perform registered .inferTypes).facts.methods.overloads definingClass
                "first").filter (fun other => other.parameters == types.take given ++
                  types.drop (list.required.length + list.optional.length)) = [entry] := by
  have keyed : firstOfTwo.Keyed := ⟨by decide, by decide⟩
  have registers : Returns plain.registerTypes (start firstOfTwo {} ()) ()
      (plain.registerTypes.run (start firstOfTwo {} ())).2 :=
    returns_of_isOk (by decide)
  have typed : (plain.perform (plain.registerTypes.run (start firstOfTwo {} ())).2
      .inferTypes).facts.nodeType? 3 = some .int := by decide
  have defines : (plain.perform (plain.registerTypes.run (start firstOfTwo {} ())).2
      .inferTypes).facts.arena.method? 3 = some {
        name := "first", arguments := 4, body := some 8
        declared := { parameters := [("a", "int")] } } := by decide
  obtain ⟨published, _⟩ :=
    methods_are_published plain_declines keyed registers (.step .refl .inferTypes)
  obtain ⟨list, types, _, _, _, definingClass, listed, _, counted, _, _, _, _, _, _, _, _,
    offered⟩ := published defines typed
  exact ⟨plain_declines, keyed, _, registers, typed, list, types, definingClass, listed,
    counted, offered⟩

end Typer

end DeferredTyping
