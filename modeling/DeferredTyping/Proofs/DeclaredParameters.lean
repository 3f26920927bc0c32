import DeferredTyping.Proofs.Bindings
import DeferredTyping.Proofs.Publication

/-!
# Declared types of parameters

The type that a method declares for a parameter is learned like the type of an assigned value: a
binding that the method has already is kept when it accepts the new type.  So a parameter has its
declared type, or a wider one that its method bound to the name before, which is the type of a
value that the method assigns to the name.
-/

namespace DeferredTyping

variable {σ : Type}

open Infer

/-- A value of this type is assigned to the name in the scope. -/
def Facts.Assigns (facts : Facts) (scope : NodeId) (name : String) (ty : Ty) : Prop :=
  ∃ id found value, facts.arena.find? id = some found ∧
    found.kind = .localAssignment name value ∧ facts.arena.enclosingScope? id = some scope ∧
    facts.nodeType? value = some ty

/-- A parameter stands in the scope without being listed by it. -/
def Arena.HasStrayParameter (arena : Arena) (scope : NodeId) (name : String) : Prop :=
  ∃ id found, arena.find? id = some found ∧ found.kind.parameter? = some name ∧
    arena.enclosingScope? id = some scope ∧
    ∀ around, ¬ arena.ParameterOf scope id name found around

/-- The type of a parameter accepts what is declared for it. -/
def declaredJudgement (classes : Catalog) : Judgement σ where
  context _ := True
  holds id ty facts := ∀ ⦃found name⦄, facts.arena.find? id = some found →
    found.kind.parameter? = some name →
      facts.Declares id name (classes.isParent ty · = true)

namespace Infer

variable {setting : Setting σ} {tree : Arena} {infer : NodeId → Infer σ (Option Ty)}
  {id : NodeId} {name : String} {ty : Ty} {before after : Session σ}

theorem declaredType?_extends
    {declared : Option Ty}
    (returned : Returns (declaredType? setting id name) before declared after) :
    before.Extends after :=
  Relates.returned ((traversal_extends setting).own (AddStep.declaredType? id name).own) returned

/-- What was learned for a parameter accepts what is declared for it, when this was learned or
accepted at least. -/
theorem declares_of_learnLocal
    (setting : Setting σ) {scope : NodeId} {given : Ty} {location : Location}
    (declares : before.facts.Declares id name (given = ·))
    (learned : Returns (learnLocal scope name given location) before ty after) :
    after.facts.Declares id name (before.catalog.isParent ty · = true) := by
  have adds : AddStep setting (learnLocal scope name given location) := .learnLocal _ _ _ _
  have added := (adds.added learned).1
  have accepts := (localType?_of_learnLocal learned).2
  have later := declares.mono (Facts.Learned.sameNodes (Facts.Added.learned added)).arena
    (Facts.Added.extends added)
  exact later.imp fun same => same ▸ accepts

theorem declares_of_requiredArgument
    (intact : before.Intact tree)
    (returned : Returns (requiredArgument setting id name) before (some ty) after) :
    after.facts.Declares id name (before.catalog.isParent ty · = true) := by
  obtain ⟨scope, declared, middle, _, asks, concludes⟩ := returns_requiredArgument returned
  have declares := declares_of_declaredType? intact asks
  rcases concludes with ⟨rfl, _, rfl⟩ | ⟨given, location, kept, rfl, learns, answer⟩
  · exact declares.imp nofun
  · cases answer
    rw [← (declaredType?_extends asks).catalog]
    exact declares_of_learnLocal setting (declares.imp Option.some.inj) learns

theorem declares_of_optionalArgument
    {value : NodeId} (grows : Relates Session.Extends (infer value))
    (visits : ∀ {before answer after}, before.Intact tree →
      Returns (infer value) before answer after → after.Intact tree)
    (intact : before.Intact tree)
    (returned : Returns (optionalArgument setting infer id name value) before (some ty) after) :
    after.facts.Declares id name (before.catalog.isParent ty · = true) := by
  obtain ⟨scope, declared, declaredAt, given, middle, _, asks, visited, concludes⟩ :=
    returns_optionalArgument returned
  rcases concludes with ⟨_, answer, _⟩ | ⟨valueType, location, kept, _, _, learns, answer⟩
  · cases answer
  · cases answer
    have between := declaredType?_intact intact asks
    have extended := grows.returned visited
    have declares : middle.facts.Declares id name (declared = some ·) :=
      (declares_of_declaredType? intact asks).mono
        ((visits between visited).arena.trans between.arena.symm) extended.facts
    rw [← (declaredType?_extends asks).catalog, ← extended.catalog]
    apply declares_of_learnLocal setting (declares.imp ?_) learns
    rintro declared rfl
    rfl

end Infer

theorem declaredJudgement_established
    {setting : Setting σ} (declines : setting.expander.Declines)
    (tree : Arena) (classes : Catalog) :
    (declaredJudgement classes : Judgement σ).Established setting tree classes where
  context _ _ known := known
  later {id ty before after} later holds := by
    intro found name present named
    rw [later.arena] at present
    exact (holds present named).mono later.arena later.toExtends
  rule {fuel id found ty before after} regular _ _ present intact returned := by
    intro other name stored named
    obtain rfl := intact.eq_of_noted present stored
    have noted : after.facts.Declares id name (classes.isParent ty · = true) →
        (after.facts.setNodeType id ty).Declares id name (classes.isParent ty · = true) :=
      fun declares => declares.mono rfl (after.facts.extends_setNodeType id ty)
    apply noted
    rw [← regular.catalog]
    unfold rule at returned
    cases kind : other.kind with
    | requiredArgument own | restArgument own =>
        rw [kind] at returned named
        cases named
        exact declares_of_requiredArgument regular.toIntact returned
    | optionalArgument own value =>
        rw [kind] at returned named
        cases named
        refine declares_of_optionalArgument (node_extends setting fuel value) ?_
          regular.toIntact returned
        intro before answer after intact visited
        have grows := node_growsWithin declines fuel value before intact
        rw [visited] at grows
        exact grows.intact intact
    | _ =>
        rw [kind] at named
        cases named

namespace Typer

variable {typer : Typer σ} {arena : Arena}

/-- Nothing has a type when the declarations were refused. -/
theorem untyped_of_registerTypes_error
    {catalog : Catalog} {state : σ} {stop : Stop} {after : Session σ}
    (refused : typer.registerTypes.run (start arena catalog state) = (.error stop, after))
    (id : NodeId) :
    after.facts.nodeType? id = none := by
  obtain ⟨_, _, facts, added, rfl, _⟩ := typer.registerTypes_added refused
  have same : facts.nodeTypes = (start arena catalog state).facts.nodeTypes :=
    (Facts.Learned.sameNodes (Facts.Added.learned added)).nodeTypes
  rw [Facts.nodeType?, same]
  rfl

/-- In a run over all trees a node has a type only once the declarations are registered, and a
judgement that rules establish holds then. -/
theorem judged_of_typed
    {catalog : Catalog} {state : σ} {judgement : Judgement σ}
    (established : judgement.Established typer.setting arena (arena.declare catalog))
    (free : ∀ session, judgement.context session)
    (keyed : arena.Keyed) (declines : typer.expander.Declines) {id : NodeId} {ty : Ty}
    (typed : (typer.inferTypes.run (start arena catalog state)).2.facts.nodeType? id = some ty) :
    (typer.inferTypes.run (start arena catalog state)).2.Judged arena (arena.declare catalog)
      judgement := by
  rcases registers : typer.registerTypes.run (start arena catalog state) with
    ⟨stop | value, registered⟩
  · -- A run that stops before the trees are visited types nothing.
    rw [inferTypes, run_bind_of_error registers] at typed
    cases (untyped_of_registerTypes_error registers id).symm.trans typed
  · exact inferTypes_judged established (fun _ _ _ _ => free _) keyed declines registers
      (free registered)

/-- A method binds the type that it declares for the name of a parameter, unless it binds the name
for a node that is none of its parameters. -/
theorem eq_declared_of_own
    {session : Session σ} (binds : session.BindsInPlace arena)
    {owner : NodeId} {name : String} {method : Method NodeId}
    (defines : arena.method? owner = some method)
    {signature : Signature} {ty declared : Ty}
    (signed : session.facts.signature? owner = some signature)
    (declares : signature.parameter? name = some declared)
    (own : session.facts.scopes.own? owner name = some ty) :
    ty = declared ∨ session.facts.Assigns owner name ty ∨ arena.HasStrayParameter owner name := by
  obtain ⟨id, bindsFor⟩ := binds.bound own
  obtain ⟨found, present, named⟩ := bindsFor.named
  rcases Kind.bound?_eq_some_iff.mp named with ⟨value, kind⟩ | parameter
  · exact .inr (.inl ⟨id, found, value, present, kind, bindsFor.around,
      bindsFor.assigned present kind⟩)
  · rw [binds.arena] at present
    by_cases listed : ∃ around, arena.ParameterOf owner id name found around
    · obtain ⟨around, listed⟩ := listed
      have owns := listed.owningMethod?_eq defines
      rw [← binds.arena] at owns
      obtain ⟨known, stored, accepts⟩ := bindsFor.declared owns
      cases signed.symm.trans stored
      exact .inl (accepts declares)
    · exact .inr (.inr ⟨id, found, present, parameter, binds.arena ▸ bindsFor.around,
        not_exists.mp listed⟩)

/-- Without macros, whatever the run of a fresh typer answers, the type of a parameter of a method
is bound in the method and accepts the type that is declared for the parameter.  It is that very
type, unless it is the type of a value that the method assigns to the name, or another parameter
with the name stands in the method and is not listed.  A method with a type is published with the
types of its parameters. -/
theorem declared_parameters_are_bound
    (declines : typer.expander.Declines) (keyed : arena.Keyed)
    {catalog : Catalog} {state : σ} {answer : Except Stop Unit} {session : Session σ}
    (run : typer.inferTypes.run (start arena catalog state) = (answer, session)) :
    (∀ {owner id name found around method ty signature declared},
      arena.ParameterOf owner id name found around → arena.method? owner = some method →
      session.facts.nodeType? id = some ty → session.facts.signature? owner = some signature →
      signature.parameter? name = some declared →
        session.facts.scopes.own? owner name = some ty ∧
        session.catalog.isParent ty declared = true ∧
        (ty = declared ∨ session.facts.Assigns owner name ty ∨
          arena.HasStrayParameter owner name)) ∧
    ∀ {id method ty}, arena.method? id = some method → session.facts.nodeType? id = some ty →
      ∃ list known, session.facts.Publishes session.catalog id method ty list known ∧
        list.typed.mapM session.facts.nodeType? = some known.parameters := by
  obtain rfl : (typer.inferTypes.run (start arena catalog state)).2 = session := by rw [run]
  constructor
  · intro owner id name found around method ty signature declared parameter defines typed signed
      declares
    have reached : typer.Reachable arena catalog state
        (typer.inferTypes.run (start arena catalog state)).2 := .step .start .inferTypes
    obtain ⟨_, _, owned⟩ :=
      (reached.bindsParameters declines keyed).at_owner keyed parameter typed
    have own := owned.resolve_right (parameter.not_mayShare defines)
    have judged := judged_of_typed (declaredJudgement_established declines arena _)
      (fun _ => trivial) keyed declines typed
    have owns := parameter.owningMethod?_eq defines
    have present := parameter.present
    rw [← judged.arena] at owns present
    obtain ⟨known, stored, accepts⟩ := judged.holds typed present parameter.named owns
    cases signed.symm.trans stored
    refine ⟨own, ?_, ?_⟩
    · rw [judged.catalog]
      exact accepts declares
    · exact eq_declared_of_own (inferTypes_bindsInPlace declines catalog state) defines signed
        declares own
  · intro id method ty defines typed
    have judged := judged_of_typed (methodJudgement_established declines keyed _)
      (fun _ => trivial) keyed declines typed
    obtain ⟨_, published⟩ := judged.holds typed
    obtain ⟨list, known, publishes⟩ := published (judged.arena ▸ defines)
    obtain ⟨other, found, types⟩ := judged.lists publishes.parameters
    have listed := publishes.listed
    rw [judged.arena, found] at listed
    cases listed
    exact ⟨list, known, judged.catalog ▸ publishes, types⟩

theorem declared_parameters_are_bound_of_firstOfTwo :
    plain.expander.Declines ∧ firstOfTwo.Keyed ∧
      ∃ session : Session Unit,
        plain.inferTypes.run (start firstOfTwo {} ()) = (.ok (), session) ∧
        session.facts.nodeType? 5 = some .int ∧
        session.facts.scopes.own? 3 "a" = some .int ∧
        ∃ (method : Method NodeId) (list : ArgumentList NodeId) (known : Gathered),
          firstOfTwo.method? 3 = some method ∧
          session.facts.Publishes session.catalog 3 method .int list known ∧
          list.typed.mapM session.facts.nodeType? = some known.parameters := by
  have keyed : firstOfTwo.Keyed := ⟨by decide, by decide⟩
  have run : plain.inferTypes.run (start firstOfTwo {} ()) =
      (.ok (), (plain.inferTypes.run (start firstOfTwo {} ())).2) :=
    run_eq_of_answer (by decide)
  have typed : (plain.inferTypes.run (start firstOfTwo {} ())).2.facts.nodeType? 5 =
      some .int := by decide
  have published : (plain.inferTypes.run (start firstOfTwo {} ())).2.facts.nodeType? 3 =
      some .int := by decide
  have signed : (plain.inferTypes.run (start firstOfTwo {} ())).2.facts.signature? 3 =
      some { parameters := ⟨[("a", .int)]⟩, returnType := some .int } := by decide
  have parameter : firstOfTwo.ParameterOf 3 5 "a"
      { id := 5, parent := some 4, location := {}, kind := .requiredArgument "a" }
      { id := 3, parent := some 2, location := {}, kind := .methodDefinition {
          name := "first", arguments := 4, body := some 8
          declared := { parameters := [("a", "int")] } } } :=
    ⟨by decide, rfl, ⟨4, _, rfl, rfl, rfl, rfl⟩, by decide, .inl ⟨_, rfl⟩⟩
  obtain ⟨binds, publishes⟩ := declared_parameters_are_bound plain_declines keyed run
  obtain ⟨own, _, _⟩ := binds parameter rfl typed signed rfl
  obtain ⟨list, known, offered, types⟩ := publishes rfl published
  exact ⟨plain_declines, keyed, _, run, typed, own, _, list, known, rfl, offered, types⟩

/-- A method with a number for a parameter, which the default value of the parameter before
assigns another kind of number. -/
def assignedInDefault : Arena where
  nodes := ⟨[
    (1, { id := 1, parent := none, location := {}, kind := .script "" (some 2) }),
    (2, { id := 2, parent := some 1, location := {}, kind := .body [3] }),
    (3, { id := 3, parent := some 2, location := {},
          kind := .methodDefinition {
            name := "f", arguments := 4, body := some 10
            declared := { parameters := [("x", "int")] } } }),
    (4, { id := 4, parent := some 3, location := {},
          kind := .arguments { optional := [5, 8] } }),
    (5, { id := 5, parent := some 4, location := {}, kind := .optionalArgument "a" 6 }),
    (6, { id := 6, parent := some 5, location := {}, kind := .localAssignment "x" 7 }),
    (7, { id := 7, parent := some 6, location := {}, kind := .float ⟨15, 1⟩ }),
    (8, { id := 8, parent := some 4, location := {}, kind := .optionalArgument "x" 9 }),
    (9, { id := 9, parent := some 8, location := {}, kind := .fixnum 1 }),
    (10, { id := 10, parent := some 3, location := {}, kind := .fixnum 1 })]⟩
  nextId := 11

/-- The parameter takes the type of the assigned value, and the method is published with it. -/
theorem declared_parameters_may_be_wider :
    plain.expander.Declines ∧
      (plain.inferTypes.run (start assignedInDefault .builtin ())).1 = .ok () ∧
      (∃ found around, assignedInDefault.ParameterOf 3 8 "x" found around) ∧
      (∃ signature,
        (plain.inferTypes.run (start assignedInDefault .builtin ())).2.facts.signature? 3 =
          some signature ∧
        signature.parameter? "x" = some .int) ∧
      (plain.inferTypes.run (start assignedInDefault .builtin ())).2.facts.nodeType? 8 =
        some (.primitive .double) ∧
      (plain.inferTypes.run (start assignedInDefault .builtin ())).2.facts.methodArgumentTypes? 3 =
        some [.primitive .double, .primitive .double] := by
  refine ⟨plain_declines, by decide +kernel, ?_, ?_, by decide +kernel, by decide +kernel⟩
  · exact ⟨_, _, rfl, rfl, ⟨4, _, rfl, rfl, rfl, rfl⟩, rfl, .inl ⟨_, rfl⟩⟩
  · exact ⟨{ parameters := ⟨[("x", .int)]⟩, returnType := some .int }, by decide +kernel, rfl⟩

end Typer

end DeferredTyping
