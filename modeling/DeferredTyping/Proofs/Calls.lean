import DeferredTyping.Proofs.Registration
import DeferredTyping.Proofs.Selection

/-!
# What a call means

A call takes the return type of the method that it means while it is visited.  The
table of methods grows afterwards, so the same call may mean another method in the
end, but only when an overload was learned that takes its arguments.
-/

namespace DeferredTyping

variable {σ : Type}

open Infer

/-- A call has this type because of a method that was known at some time. -/
def Facts.Means (classes : Catalog) (receiver : Ty) (name : String) (types : List Ty)
    (ty : Ty) (facts : Facts) : Prop :=
  ∃ known : MethodTable, known.entries <+: facts.methods.entries ∧
    ∃ method, Members.find { catalog := classes, methods := known } receiver name types =
        .ok (some method) ∧
      method.returnType = ty

theorem Facts.Means.mono
    {classes : Catalog} {receiver : Ty} {name : String} {types : List Ty} {ty : Ty}
    {before after : Facts}
    (means : before.Means classes receiver name types ty)
    (grown : before.methods.entries <+: after.methods.entries) :
    after.Means classes receiver name types ty := by
  obtain ⟨known, early, method, found⟩ := means
  exact ⟨known, early.trans grown, method, found⟩

/-- What the type of a call says: its receiver and its arguments have types, and it
means a method of that return type. -/
structure Facts.CallsMethod (scriptClass : String) (classes : Catalog) (id : NodeId)
    (ty : Ty) (facts : Facts) : Prop where
  onSelf : ∀ {found name parameters closure}, facts.arena.find? id = some found →
    found.kind = .functionalCall name parameters closure →
      ∃ receiver types, facts.arena.selfType scriptClass id = .ok receiver ∧
        parameters.mapM facts.nodeType? = some types ∧
        facts.Means classes receiver name types ty
  onTarget : ∀ {found target name parameters closure}, facts.arena.find? id = some found →
    found.kind = .call target name parameters closure →
      ∃ receiver types, facts.nodeType? target = some receiver ∧
        parameters.mapM facts.nodeType? = some types ∧
        ((name == "new" && receiver.isMeta) = false →
          facts.Means classes receiver name types ty)

/-- Calls with a type mean a method. -/
def callJudgement (scriptClass : String) (classes : Catalog) : Judgement σ where
  context _ := True
  holds := Facts.CallsMethod scriptClass classes

namespace Infer

variable {setting : Setting σ} {tree : Arena} {classes : Catalog}
  {infer : NodeId → Infer σ (Option Ty)} {id : NodeId} {before after : Session σ}

/-- A call that was resolved without a macro means a method. -/
theorem means_of_resolveCall
    (declines : setting.expander.Declines) (catalog : before.catalog = classes)
    {receiver : Ty} {name : String} {types : List Ty} {ty : Ty}
    (returned : Returns (resolveCall setting infer id receiver name types) before
      (some ty) after) :
    after = before ∧ after.facts.Means classes receiver name types ty := by
  have same := (ReadStep.resolveCall declines id receiver name types).after_eq returned
  refine ⟨same, ?_⟩
  rcases returns_resolveCall returned with
    ⟨method, found, answer, _⟩ | ⟨_, reply, offered, offers, replied⟩
  · rw [Session.members, catalog] at found
    rw [same]
    exact ⟨before.facts.methods, List.prefix_rfl, method, found,
      (Option.some.inj answer).symm⟩
  · rw [offer_eq_of_declines declines] at offers
    obtain ⟨rfl, _⟩ := returns_pure.mp offers
    rcases replied with ⟨_, answer, _⟩ | ⟨_, _, expanded, _⟩
    · cases answer
    · cases expanded

section

variable (faithful : Faithful infer) (declines : setting.expander.Declines)
  (catalog : before.catalog = classes)

include faithful declines catalog

theorem functionalCall_means
    {name : String} {parameters : List NodeId} {closure : Option NodeId} {ty : Ty}
    (returned : Returns (functionalCall setting infer id name parameters closure) before
      (some ty) after) :
    ∃ receiver types, before.facts.arena.selfType setting.scriptClass id = .ok receiver ∧
      parameters.mapM after.facts.nodeType? = some types ∧
      after.facts.Means classes receiver name types ty := by
  obtain ⟨receiver, types, given, ready, attached, stands, gathers, closes, concludes⟩ :=
    returns_functionalCall returned
  rcases concludes with ⟨answer, _⟩ | ⟨known, rfl, _, resolves⟩
  · cases answer
  · have early := (faithful.adds_all parameters).returned gathers
    have late := (faithful.adds_blockReady closure).returned closes
    obtain ⟨rfl, means⟩ := means_of_resolveCall declines
      (late.catalog.trans (early.catalog.trans catalog)) resolves
    exact ⟨receiver, known, stands,
      Facts.Later.mapM_nodeType? late.facts (faithful.all gathers), means⟩

theorem call_means
    {target : NodeId} {name : String} {parameters : List NodeId} {closure : Option NodeId}
    {ty : Ty}
    (returned : Returns (call setting infer id target name parameters closure) before
      (some ty) after) :
    ∃ receiver types, after.facts.nodeType? target = some receiver ∧
      parameters.mapM after.facts.nodeType? = some types ∧
      ((name == "new" && receiver.isMeta) = false →
        after.facts.Means classes receiver name types ty) := by
  obtain ⟨receiver, aimed, types, given, ready, attached, aims, gathers, closes, concludes⟩ :=
    returns_call returned
  have first := (faithful.adds target).returned aims
  have early := (faithful.adds_all parameters).returned gathers
  have late := (faithful.adds_blockReady closure).returned closes
  have onward := (early.trans late).facts
  rcases concludes with ⟨answer, _⟩ | ⟨receiver, types, rfl, rfl, _, isNew | isCall⟩
  · cases answer
  · obtain ⟨new, rfl⟩ := isNew
    refine ⟨receiver, types, onward.nodeTypes (faithful.answers aims),
      Facts.Later.mapM_nodeType? late.facts (faithful.all gathers), ?_⟩
    intro other
    rw [new] at other
    cases other
  · obtain ⟨_, resolves⟩ := isCall
    obtain ⟨rfl, means⟩ := means_of_resolveCall declines
      (late.catalog.trans (early.catalog.trans (first.catalog.trans catalog))) resolves
    exact ⟨receiver, types, onward.nodeTypes (faithful.answers aims),
      Facts.Later.mapM_nodeType? late.facts (faithful.all gathers), fun _ => means⟩

end

end Infer

theorem callJudgement_established
    {setting : Setting σ} (declines : setting.expander.Declines)
    (tree : Arena) (classes : Catalog) :
    (callJudgement setting.scriptClass classes : Judgement σ).Established setting tree
      classes where
  context _ _ known := known
  later {id ty before after} later holds := by
    constructor
    · intro found name parameters closure present kind
      rw [later.arena] at present ⊢
      obtain ⟨receiver, types, stands, known, means⟩ := holds.onSelf present kind
      exact ⟨receiver, types, stands, Facts.Later.mapM_nodeType? later.toExtends known,
        means.mono later.methods⟩
    · intro found target name parameters closure present kind
      rw [later.arena] at present
      obtain ⟨receiver, types, aimed, known, means⟩ := holds.onTarget present kind
      exact ⟨receiver, types, later.nodeTypes aimed,
        Facts.Later.mapM_nodeType? later.toExtends known,
        fun isCall => (means isCall).mono later.methods⟩
  rule {fuel id found ty before after} regular _ _ present intact returned := by
    have faithful : Faithful (node setting fuel) := node_faithful declines.keepsNodes fuel
    have learned := after.facts.extends_setNodeType id ty
    unfold rule at returned
    constructor
    · intro other name parameters closure stored kind
      obtain rfl := intact.eq_of_noted present stored
      rw [kind] at returned
      obtain ⟨receiver, types, stands, known, means⟩ :=
        functionalCall_means faithful declines regular.catalog returned
      rw [regular.arena, ← intact.arena] at stands
      exact ⟨receiver, types, stands, Facts.Later.mapM_nodeType? learned known,
        means.mono List.prefix_rfl⟩
    · intro other target name parameters closure stored kind
      obtain rfl := intact.eq_of_noted present stored
      rw [kind] at returned
      obtain ⟨receiver, types, aimed, known, means⟩ :=
        call_means faithful declines regular.catalog returned
      exact ⟨receiver, types, learned.nodeTypes aimed,
        Facts.Later.mapM_nodeType? learned known,
        fun isCall => (means isCall).mono List.prefix_rfl⟩

/-- A call on this receiver agrees with what is known of methods: it was typed by a
method that was known at some time, and means it still unless an overload was learned
afterwards that takes the arguments. -/
def Session.Agrees (receiver : Ty) (name : String) (types : List Ty) (ty : Ty)
    (session : Session σ) : Prop :=
  ∃ known : MethodTable, known.entries <+: session.facts.methods.entries ∧
    ∃ method, method.returnType = ty ∧
      Members.find { catalog := session.catalog, methods := known } receiver name types =
        .ok (some method) ∧
      ((Typer.methodType receiver name types).run session = (.ok (some method), session) ∨
        ∃ overload ∈ session.facts.methods.entries.drop known.entries.length,
          overload.definingClass ∈ session.catalog.superclassChain receiver ∧
          overload.name = name ∧ overload.takes session.catalog.isParent types = true)

/-- Either nothing that takes the arguments was learned since, or the answer is the
same. -/
theorem Session.agrees_of_means
    {session : Session σ} {receiver : Ty} {name : String} {types : List Ty} {ty : Ty}
    (means : session.facts.Means session.catalog receiver name types ty) :
    session.Agrees receiver name types ty := by
  obtain ⟨known, grown, method, found, same⟩ := means
  refine ⟨known, grown, method, same, found, ?_⟩
  by_cases idle : ∀ overload ∈ session.facts.methods.entries.drop known.entries.length,
      overload.definingClass ∈ session.catalog.superclassChain receiver →
        overload.name = name → overload.takes session.catalog.isParent types = false
  · left
    have still := Members.find_of_prefix session.catalog grown idle
    exact returns_findMethod.mpr ⟨still.trans found, rfl⟩
  · right
    push Not at idle
    obtain ⟨overload, later, onChain, named, taken⟩ := idle
    exact ⟨overload, later, onChain, named, by simpa using taken⟩

namespace Typer

variable {typer : Typer σ}

/-- A call between two overloads, of which the later one is more specific. -/
def overloadedLater : Arena where
  nodes := ⟨[
    (1, { id := 1, parent := none, location := {}, kind := .script "" (some 2) }),
    (2, { id := 2, parent := some 1, location := {}, kind := .body [3, 7, 9] }),
    (3, { id := 3, parent := some 2, location := {},
          kind := .methodDefinition {
            name := "f", arguments := 4, body := some 6
            declared := { parameters := [("x", "Object")], returns := some "int" } } }),
    (4, { id := 4, parent := some 3, location := {},
          kind := .arguments { required := [5] } }),
    (5, { id := 5, parent := some 4, location := {}, kind := .requiredArgument "x" }),
    (6, { id := 6, parent := some 3, location := {}, kind := .fixnum 1 }),
    (7, { id := 7, parent := some 2, location := {},
          kind := .functionalCall "f" [8] none }),
    (8, { id := 8, parent := some 7, location := {}, kind := .str "a" }),
    (9, { id := 9, parent := some 2, location := {},
          kind := .methodDefinition {
            name := "f", arguments := 10, body := some 12
            declared := { parameters := [("x", "String")] } } }),
    (10, { id := 10, parent := some 9, location := {},
           kind := .arguments { required := [11] } }),
    (11, { id := 11, parent := some 10, location := {}, kind := .requiredArgument "x" }),
    (12, { id := 12, parent := some 9, location := {}, kind := .boolean true })]⟩
  nextId := 13

theorem inferTypes_overloadedLater :
    Returns plain.inferTypes (start overloadedLater .builtin ()) ()
      (plain.inferTypes.run (start overloadedLater .builtin ())).2 :=
  returns_of_isOk (by decide +kernel)

theorem nodeType?_of_overloadedLater :
    (plain.inferTypes.run (start overloadedLater .builtin ())).2.facts.nodeType? 7 =
      some .int := by
  decide +kernel

end Typer

end DeferredTyping
