import DeferredTyping.Proofs.Frames
import DeferredTyping.Proofs.MethodLookup
import DeferredTyping.Proofs.Publication

/-!
# Where learned methods come from

The header of a method definition says under which class and name it is published, what it throws
and whether its last parameter is a rest array.  Its parameters take the types that it declares for
all of them, or else the types that they have; it returns the declared type, or else that of its
body.  Whatever a run learns of methods is announced by a method definition of the tree in this
way, so one definition never announces two return types.

Methods that do not go together end a run.  How they may do so is left open: a `Tolerates` lists
what a kind of reason has to admit.
-/

namespace DeferredTyping

variable {σ : Type}

open Infer

/-- What the tree and the catalogue say of a method definition. -/
structure Header where
  method : Method NodeId
  /-- The class around the definition. -/
  lexical : Ty
  list : ArgumentList NodeId
  /-- What the definition declares. -/
  signature : Signature

namespace Header

/-- The class under which the method is published. -/
def definingClass (header : Header) : Ty :=
  if header.method.isStatic then header.lexical.toMeta else header.lexical

/-- The header is read off this method definition. -/
structure Heads (scriptClass : String) (tree : Arena) (classes : Catalog) (header : Header)
    (id : NodeId) : Prop where
  defines : tree.method? id = some header.method
  stands : tree.lexicalClass scriptClass id = .ok header.lexical
  lists : tree.argumentsOf header.method.arguments = .ok header.list
  resolves : classes.resolveSignature header.method.declared = .ok header.signature

theorem Heads.unique
    {scriptClass : String} {tree : Arena} {classes : Catalog} {left right : Header} {id : NodeId}
    (one : left.Heads scriptClass tree classes id)
    (other : right.Heads scriptClass tree classes id) :
    left = right := by
  obtain ⟨method, lexical, list, signature⟩ := left
  obtain ⟨defines, stands, lists, resolves⟩ := one
  dsimp only at defines stands lists resolves
  obtain rfl := Option.some.inj (defines.symm.trans other.defines)
  obtain rfl := Except.ok.inj (stands.symm.trans other.stands)
  obtain rfl := Except.ok.inj (lists.symm.trans other.lists)
  obtain rfl := Except.ok.inj (resolves.symm.trans other.resolves)
  rfl

end Header

namespace Facts

/-- The parameters of the method may take these types. -/
inductive MayTake (facts : Facts) (header : Header) : List Ty → Prop where
  | declared {names : List String} {types : List Ty}
      (named : facts.arena.argumentNames header.list = .ok names)
      (declares : names.mapM header.signature.parameter? = some types) :
      MayTake facts header types
  | inferred {types : List Ty}
      (known : facts.argumentTypes? header.method.arguments = some types) :
      MayTake facts header types

/-- The method may return this type to its callers. -/
inductive MayReturn (facts : Facts) (header : Header) : Ty → Prop where
  | declared {ty : Ty} (declares : declaredReturn? header.signature header.method = some ty) :
      MayReturn facts header ty
  | inferred {bodyType : Ty}
      (undeclared : declaredReturn? header.signature header.method = none)
      (known : facts.optionalType? header.method.body = some bodyType) :
      MayReturn facts header (effectiveReturn header.signature.returnType bodyType)

/-- The method definition announces this method to its callers. -/
structure Announces (facts : Facts) (header : Header) (entry : MethodType) : Prop where
  parameters : ∃ types, facts.MayTake header types ∧
    entry.parameters ∈ (ArgumentLayout.ofArguments header.list).callShapes types
  returns : facts.MayReturn header entry.returnType
  definingClass : entry.definingClass = header.definingClass
  name : entry.name = header.method.name
  throws : entry.throws = header.signature.throws
  varargs : entry.varargs = header.list.rest.isSome

variable {before after facts : Facts} {header : Header}

theorem MayTake.mono
    {types : List Ty} (takes : before.MayTake header types)
    (same : after.arena = before.arena) (extended : before.Extends after) :
    after.MayTake header types := by
  cases takes with
  | declared named declares => exact .declared (same ▸ named) declares
  | inferred known => exact .inferred (extended.argumentTypes known)

theorem MayReturn.mono
    {ty : Ty} (returns : before.MayReturn header ty) (extended : before.Extends after) :
    after.MayReturn header ty := by
  cases returns with
  | declared declares => exact .declared declares
  | inferred undeclared known => exact .inferred undeclared (extended.optionalType? known)

/-- What a method returns is settled by its declaration and its body. -/
theorem MayReturn.unique
    {one other : Ty} (left : facts.MayReturn header one) (right : facts.MayReturn header other) :
    one = other := by
  cases left with
  | declared declares =>
      cases right with
      | declared also => exact Option.some.inj (declares.symm.trans also)
      | inferred undeclared _ => cases declares.symm.trans undeclared
  | inferred undeclared known =>
      cases right with
      | declared declares => cases declares.symm.trans undeclared
      | inferred _ also => rw [Option.some.inj (known.symm.trans also)]

theorem Announces.mono
    {entry : MethodType} (announces : before.Announces header entry)
    (same : after.arena = before.arena) (extended : before.Extends after) :
    after.Announces header entry where
  parameters := announces.parameters.imp fun _ ⟨takes, shape⟩ => ⟨takes.mono same extended, shape⟩
  returns := announces.returns.mono extended
  definingClass := announces.definingClass
  name := announces.name
  throws := announces.throws
  varargs := announces.varargs

end Facts

/-- Methods stand in their classes, and every learned one is announced by a method definition. -/
structure Session.Sourced (scriptClass : String) (tree : Arena) (classes : Catalog)
    (session : Session σ) : Prop extends session.Placed scriptClass tree classes where
  sourced : ∀ {entry}, entry ∈ session.facts.methods.entries →
    ∃ id header, header.Heads scriptClass tree classes id ∧ session.facts.Announces header entry

namespace Session.Sourced

variable {scriptClass : String} {tree : Arena} {classes : Catalog} {session : Session σ}

/-- More is known, and no method is learned. -/
theorem keep
    {facts : Facts} (sourced : session.Sourced scriptClass tree classes)
    (extended : session.facts.Extends facts)
    (placed : { session with facts : Session σ }.Placed scriptClass tree classes)
    (methods : facts.methods = session.facts.methods) :
    { session with facts : Session σ }.Sourced scriptClass tree classes where
  toPlaced := placed
  sourced member := by
    obtain ⟨id, header, heads, announces⟩ := sourced.sourced (methods ▸ member)
    exact ⟨id, header, heads, announces.mono (placed.arena.trans sourced.arena.symm) extended⟩

theorem learn
    {header : Header} {id : NodeId} {method : MethodType} {methods : MethodTable}
    (sourced : session.Sourced scriptClass tree classes)
    (heads : header.Heads scriptClass tree classes id)
    (announces : session.facts.Announces header method)
    (learned : session.facts.methods.learn method = .ok methods) :
    { session with facts := { session.facts with methods } : Session σ }.Sourced
      scriptClass tree classes where
  toPlaced := sourced.toPlaced.keep rfl rfl rfl
  sourced {entry} member := by
    have adds : Facts.Adds scriptClass classes session.facts { session.facts with methods } :=
      .method learned
    rcases MethodTable.mem_entries_of_learn learned member with earlier | rfl
    · obtain ⟨other, found, reads, published⟩ := sourced.sourced earlier
      exact ⟨other, found, reads, published.mono rfl adds.extends⟩
    · exact ⟨id, header, heads, announces.mono rfl adds.extends⟩

theorem drive
    (sourced : session.Sourced scriptClass tree classes)
    (worklist : Worklist) (lastChance : Bool) (passes : Nat) :
    { session with worklist, lastChance, passes : Session σ }.Sourced scriptClass tree classes :=
  ⟨⟨⟨sourced.arena, sourced.unexpanded⟩, sourced.catalog, sourced.standing⟩, sourced.sourced⟩

end Session.Sourced

/-- Whatever is no clash of methods is admitted, and so are the clashes that come up: a method that
is announced with another return type than a learned one, and a call that no method is most
specific for. -/
structure Tolerates (scriptClass : String) (tree : Arena) (classes : Catalog)
    (judgement : Judgement σ) (accepts : Stop → Prop) : Prop where
  calm : ∀ {stop : Stop}, stop.isClash = false → accepts stop
  conflicting : ∀ {session : Session σ} {header : Header} {id : NodeId}
    {method existing : MethodType} {location : Location}, session.Sourced scriptClass tree classes →
    header.Heads scriptClass tree classes id → session.facts.Announces header method →
    session.facts.methods.learn method = .error existing →
      accepts (.failed (.conflictingMethod method.definingClass method.name existing.returnType
        method.returnType location))
  ambiguous : ∀ {session : Session σ} {name : String} {arguments : List Ty} {definingClass : Ty}
    {location : Location}, session.Judged tree classes judgement →
    session.Sourced scriptClass tree classes →
    Overloads.Means session.catalog.isParent
      (session.facts.methods.overloads definingClass name) arguments .ambiguous →
      accepts (.failed (.ambiguousMethod definingClass name arguments location))

namespace Infer

variable {setting : Setting σ} {tree : Arena} {classes : Catalog} {judgement : Judgement σ}
  {accepts : Stop → Prop}
  (tolerates : Tolerates setting.scriptClass tree classes judgement accepts)

include tolerates

theorem calm_sourced {α : Type} {step : Infer σ α} (looks : CalmStep step) :
    Upholds (Session.Sourced setting.scriptClass tree classes) accepts step := by
  intro session sourced
  rw [looks.keeps session]
  exact ⟨sourced, fun stopped => tolerates.calm (looks.calm stopped)⟩

/-- A step that learns no method and finds no clash. -/
theorem quiet_sourced
    {α : Type} {step : Infer σ α} (own : OwnStep setting step)
    (keeps : KeepsView Facts.methods step)
    (calm : ∀ {session stop}, (step.run session).1 = .error stop → stop.isClash = false) :
    Upholds (Session.Sourced setting.scriptClass tree classes) accepts step := by
  intro session sourced
  have placed := sourced.toPlaced.own own
  have methods := keeps session
  refine ⟨?_, fun stopped => tolerates.calm (calm stopped)⟩
  obtain ⟨facts, learned, ended⟩ := own.learns session
  rw [ended] at placed methods ⊢
  exact sourced.keep (Facts.Learned.extends learned) placed methods

theorem learnLocal_sourced (scope : NodeId) (name : String) (ty : Ty) (location : Location) :
    Upholds (Session.Sourced setting.scriptClass tree classes) accepts
      (learnLocal scope name ty location : Infer σ Ty) := by
  refine quiet_sourced tolerates (AddStep.learnLocal _ _ _ _).own
    (.learnLocal (fun _ _ => rfl) scope name ty location) ?_
  intro session stop stopped
  simp only [learnLocal, run_bind, run_get] at stopped
  split at stopped
  · split at stopped
    · cases stopped
    · cases stopped
      rfl
  · cases stopped

theorem bindDefiningClass_sourced (id : NodeId) :
    Upholds (Session.Sourced setting.scriptClass tree classes) accepts
      (bindDefiningClass setting id) := by
  refine quiet_sourced tolerates (AddStep.bindDefiningClass id).own
    (.bindDefiningClass (fun _ _ => rfl) id) ?_
  intro session stop stopped
  simp only [bindDefiningClass, run_bind, run_getFacts] at stopped
  split at stopped
  · cases stopped
  · generalize session.facts.arena.lexicalClass setting.scriptClass id = answer at stopped
    cases answer with
    | ok lexical => cases stopped
    | error cause =>
        cases stopped
        rfl

section

variable {header : Header} {id : NodeId} {session : Session σ}
  (heads : header.Heads setting.scriptClass tree classes id)
  (sourced : session.Sourced setting.scriptClass tree classes)

include heads sourced

theorem learnMethod_sourced
    {method : MethodType} (announces : session.facts.Announces header method)
    (location : Location) :
    UpholdsFrom session (Session.Sourced setting.scriptClass tree classes) accepts
      (learnMethod method location : Infer σ Ty) := by
  cases learned : session.facts.methods.learn method with
  | error existing =>
      have run : (learnMethod method location).run session =
          (.error (.failed (.conflictingMethod method.definingClass method.name
            existing.returnType method.returnType location)), session) := by
        simp [learnMethod, run_bind, learned]
      exact .of_stop run sourced (tolerates.conflicting sourced heads announces learned)
  | ok methods =>
      have run : (learnMethod method location).run session = (.ok method.returnType,
          { session with facts := { session.facts with methods } }) := by
        simp [learnMethod, run_bind, run_map, learned]
      exact .of_run run (sourced.learn heads announces learned)

theorem learnEach_sourced
    {methods : List MethodType}
    (announces : ∀ method ∈ methods, session.facts.Announces header method)
    (location : Location) :
    UpholdsFrom session (Session.Sourced setting.scriptClass tree classes) accepts
      (learnEach location methods : Infer σ Unit) := by
  induction methods generalizing session with
  | nil => exact .of_run rfl sourced
  | cons method rest ih =>
      refine UpholdsFrom.bind (learnMethod_sourced tolerates heads sourced
        (announces method List.mem_cons_self) location) ?_
      intro _ middle returned kept
      obtain ⟨methods, learned, _, rfl⟩ := returns_learnMethod returned
      have adds : Facts.Adds setting.scriptClass classes session.facts
          { session.facts with methods } := .method learned
      exact ih kept fun other member =>
        (announces other (List.mem_cons_of_mem method member)).mono rfl adds.extends

/-- A definition publishes the method for each way of calling it. -/
theorem learnOverloads_sourced
    {types : List Ty} {returnType : Ty} (takes : session.facts.MayTake header types)
    (returns : session.facts.MayReturn header returnType) (location : Location) :
    UpholdsFrom session (Session.Sourced setting.scriptClass tree classes) accepts
      (learnOverloads (.ofArguments header.list)
        { definingClass := header.definingClass, name := header.method.name, parameters := types
          returnType, throws := header.signature.throws, varargs := header.list.rest.isSome }
        location : Infer σ Unit) := by
  by_cases fits : types.length = (ArgumentLayout.ofArguments header.list).positional
      + (if (ArgumentLayout.ofArguments header.list).rest then 1 else 0)
  · rw [learnOverloads, if_pos fits]
    refine learnEach_sourced tolerates heads sourced ?_ location
    intro method member
    obtain ⟨shape, way, rfl⟩ := List.mem_map.mp member
    exact ⟨⟨types, takes, way⟩, returns, rfl, rfl, rfl, rfl⟩
  · rw [learnOverloads, if_neg fits]
    exact .of_stop rfl sourced (tolerates.calm rfl)

end

/-- A method whose types are all declared is published with them. -/
theorem registerDeclared_sourced
    {id : NodeId} {method : Method NodeId} (defines : tree.method? id = some method)
    {signature : Signature} (resolves : classes.resolveSignature method.declared = .ok signature)
    (location : Location) :
    Upholds (Session.Sourced setting.scriptClass tree classes) accepts
      (registerDeclared setting id method signature location) := by
  intro session sourced
  unfold registerDeclared
  split
  · exact UpholdsFrom.of_run rfl sourced
  · rename_i returnType declares
    refine UpholdsFrom.bind (calm_sourced tolerates .getArena sourced) fun read _ => ?_
    obtain ⟨rfl, rfl⟩ := returns_getArena.mp read
    refine UpholdsFrom.bind (calm_sourced tolerates
      (.ofTree (session.facts.arena.argumentsOf_blamesTree _)) sourced) fun listed _ => ?_
    obtain ⟨lists, rfl⟩ := returns_ofTree.mp listed
    refine UpholdsFrom.bind (calm_sourced tolerates .getArena sourced) fun read _ => ?_
    obtain ⟨rfl, rfl⟩ := returns_getArena.mp read
    refine UpholdsFrom.bind (calm_sourced tolerates
      (.ofTree (session.facts.arena.argumentNames_blamesTree _)) sourced) fun naming _ => ?_
    obtain ⟨named, rfl⟩ := returns_ofTree.mp naming
    split
    · exact UpholdsFrom.of_run rfl sourced
    · rename_i types typed
      refine UpholdsFrom.bind (bindDefiningClass_sourced tolerates id sourced) ?_
      intro lexical bound binds kept
      have heads : Header.Heads setting.scriptClass tree classes
          { method, lexical, list := _, signature } id :=
        ⟨defines, sourced.lexicalClass_of_bindDefiningClass binds, sourced.arena ▸ lists, resolves⟩
      rw [sourced.arena, ← kept.arena] at named
      exact learnOverloads_sourced tolerates heads kept (.declared named typed)
        (.declared declares) location

theorem signatureOf_sourced
    {id : NodeId} {method : Method NodeId} (defines : tree.method? id = some method) :
    Upholds (Session.Sourced setting.scriptClass tree classes) accepts
      (signatureOf setting id method) := by
  intro session sourced
  unfold signatureOf
  refine UpholdsFrom.bind (calm_sourced tolerates .getFacts sourced) fun read _ => ?_
  obtain ⟨rfl, rfl⟩ := returns_getFacts.mp read
  split
  · exact UpholdsFrom.of_run rfl sourced
  · rename_i free
    refine UpholdsFrom.bind (calm_sourced tolerates (.locationOf id) sourced) ?_
    intro location session placed sourced
    obtain rfl := (ReadStep.locationOf id).after_eq placed
    refine UpholdsFrom.bind (UpholdsFrom.of_run (run_get _) sourced) fun read _ => ?_
    obtain ⟨rfl, rfl⟩ := returns_get.mp read
    split
    · exact UpholdsFrom.of_stop rfl sourced (tolerates.calm rfl)
    · rename_i signature resolved
      rw [sourced.catalog] at resolved
      have adds : Facts.Adds setting.scriptClass classes session.facts { session.facts with
          signatures := session.facts.signatures.insert id signature } := .signature free resolved
      have kept := sourced.keep adds.extends (sourced.toPlaced.keep rfl rfl rfl) rfl
      refine UpholdsFrom.bind (UpholdsFrom.of_run (run_modifyFacts _ _) kept) fun stored _ => ?_
      obtain rfl := returns_modifyFacts.mp stored
      exact UpholdsFrom.bind (registerDeclared_sourced tolerates defines resolved _ kept)
        fun _ published => .of_run rfl published

theorem declaredType?_sourced (id : NodeId) (name : String) :
    Upholds (Session.Sourced setting.scriptClass tree classes) accepts
      (declaredType? setting id name) := by
  intro session sourced
  unfold declaredType?
  refine UpholdsFrom.bind (calm_sourced tolerates .getArena sourced) fun read _ => ?_
  obtain ⟨rfl, rfl⟩ := returns_getArena.mp read
  refine UpholdsFrom.bind (calm_sourced tolerates
    (.ofTree (session.facts.arena.owningMethod?_blamesTree id)) sourced) fun {owner _} asked _ => ?_
  obtain ⟨owns, rfl⟩ := returns_ofTree.mp asked
  cases owner with
  | none => exact UpholdsFrom.of_run rfl sourced
  | some owner =>
      have defines := (Arena.owningMethod?_ok owns).2
      rw [sourced.arena] at defines
      exact UpholdsFrom.bind (signatureOf_sourced tolerates defines sourced)
        fun _ kept => .of_run rfl kept

end Infer

/-- A judged session in which every learned method has a source. -/
abbrev Session.Traced (scriptClass : String) (tree : Arena) (classes : Catalog)
    (judgement : Judgement σ) (session : Session σ) : Prop :=
  session.Judged tree classes judgement ∧ session.Sourced scriptClass tree classes

namespace Infer

variable {setting : Setting σ} {tree : Arena} {classes : Catalog} {judgement : Judgement σ}
  {accepts : Stop → Prop}

/-- A method returns to its callers what it was published with. -/
theorem mayReturn_of_body
    {facts : Facts} {header : Header} {bodyType : Ty}
    (known : facts.optionalType? header.method.body = some bodyType) :
    facts.MayReturn header (if header.method.isConstructor then .void
      else effectiveReturn header.signature.returnType bodyType) := by
  cases declares : declaredReturn? header.signature header.method with
  | none =>
      have free : header.method.isConstructor = false := by
        unfold declaredReturn? at declares
        split at declares
        · cases declares
        · rename_i other
          simpa using other
      rw [free]
      exact .inferred declares known
  | some ty =>
      refine .declared ?_
      rw [declares]
      unfold declaredReturn? at declares
      split at declares
      · rename_i constructor
        rw [constructor]
        exact declares.symm
      · rename_i other
        obtain ⟨declared, completes⟩ := Option.filter_eq_some_iff.mp declares
        simp [other, declared, effectiveReturn] at completes ⊢
        simp [completes]

section

variable (tolerates : Tolerates setting.scriptClass tree classes judgement accepts)

include tolerates

theorem calm_traced {α : Type} {step : Infer σ α} (looks : CalmStep step) :
    Upholds (Session.Traced setting.scriptClass tree classes judgement) accepts step := by
  intro session traced
  rw [looks.keeps session]
  exact ⟨traced, fun stopped => tolerates.calm (looks.calm stopped)⟩

/-- Looking keeps sources, and so does whatever is put together from steps that do. -/
theorem orderly_traced :
    Orderly fun _ (step : Infer σ _) =>
      Upholds (Session.Traced setting.scriptClass tree classes judgement) accepts step where
  look looks := calm_traced tolerates looks
  bind first second := first.bind second
  fewer upholds _ := upholds

theorem findMethod_traced
    (receiver : Ty) (name : String) (arguments : List Ty) (location : Location) :
    Upholds (Session.Traced setting.scriptClass tree classes judgement) accepts
      (findMethod receiver name arguments location : Infer σ _) := by
  intro session traced
  rw [run_findMethod]
  cases found : session.members.find receiver name arguments with
  | ok method => exact UpholdsFrom.of_run (run_ofLookup_ok _ _ _ _ _) traced
  | error definingClass =>
      exact UpholdsFrom.of_stop (run_ofLookup_error _ _ _ _ _) traced
        (tolerates.ambiguous traced.1 traced.2 (Members.means_of_find_error found))

theorem findConstructor_traced
    (instanceType : Ty) (arguments : List Ty) (location : Location) :
    Upholds (Session.Traced setting.scriptClass tree classes judgement) accepts
      (findConstructor instanceType arguments location : Infer σ _) := by
  intro session traced
  rw [run_findConstructor]
  cases found : session.members.findConstructor instanceType arguments with
  | ok method => exact UpholdsFrom.of_run (run_ofLookup_ok _ _ _ _ _) traced
  | error definingClass =>
      exact UpholdsFrom.of_stop (run_ofLookup_error _ _ _ _ _) traced
        (tolerates.ambiguous traced.1 traced.2 (Members.means_of_findConstructor_error found))

theorem instantiation_traced (id : NodeId) (instanceType : Ty) (types : List Ty) :
    Upholds (Session.Traced setting.scriptClass tree classes judgement) accepts
      (instantiation id instanceType types : Infer σ _) := by
  refine (calm_traced tolerates (.locationOf id)).bind fun location =>
    (findConstructor_traced tolerates _ _ _).bind fun found => ?_
  cases found with
  | some constructor => exact calm_traced tolerates (.pure _)
  | none =>
      refine calm_traced tolerates (.read (fun alike => by rw [alike.declaredConstructors]) ?_)
      intro session
      dsimp only
      split
      · exact .pure _
      · exact .pure _

theorem resolveCall_traced
    {infer : NodeId → Infer σ (Option Ty)} (declines : setting.expander.Declines)
    (id : NodeId) (receiver : Ty) (name : String) (types : List Ty) :
    Upholds (Session.Traced setting.scriptClass tree classes judgement) accepts
      (resolveCall setting infer id receiver name types) := by
  refine (calm_traced tolerates (.locationOf id)).bind fun location =>
    (findMethod_traced tolerates _ _ _ _).bind fun found => ?_
  cases found with
  | some method => exact calm_traced tolerates (.pure _)
  | none =>
      rw [offer_eq_of_declines declines]
      simp only [pure_bind]
      exact calm_traced tolerates (.pure _)

variable (established : judgement.Established setting tree classes) (keyed : tree.Keyed)

include established keyed

omit tolerates in
/-- A step that adds facts leaves the judgement standing. -/
theorem add_traced
    {α : Type} {step : Infer σ α} (adds : AddStep setting step)
    (sourced : Upholds (Session.Sourced setting.scriptClass tree classes) accepts step) :
    Upholds (Session.Traced setting.scriptClass tree classes judgement) accepts step :=
  fun _ traced => UpholdsFrom.both ((judged_building established keyed).add adds traced.1)
    (sourced traced.2)

theorem delegateBound_traced
    (id : NodeId) (method : Method NodeId) (lexical : Ty) (location : Location) :
    Upholds (Session.Traced setting.scriptClass tree classes judgement) accepts
      (delegateBound id method lexical location : Infer σ Bool) := by
  intro session traced
  refine UpholdsFrom.both
    ((judged_building established keyed).add (.delegateBound _ _ _ _) traced.1) ?_
  rcases run_delegateBound id method lexical location session with
    ⟨answer, run, _, refuses⟩ | ⟨given, types, target, _, _, _, free, run⟩
  · rw [UpholdsFrom, run]
    refine ⟨traced.2, ?_⟩
    intro stop stopped
    obtain ⟨definingClass, types, refused, rfl⟩ := refuses stop stopped
    exact tolerates.ambiguous traced.1 traced.2 (Members.means_of_findConstructor_error refused)
  · refine .of_run run (traced.2.keep ?_ (traced.2.toPlaced.keep rfl rfl rfl) rfl)
    exact { Facts.Extends.refl session.facts with
      delegateTargets := fun known => Table.get?_insert_of_known free known }

end

section

variable (tolerates : Tolerates setting.scriptClass tree classes judgement accepts)

include tolerates

omit tolerates in
theorem remember_sourced (id : NodeId) (answer : Option Ty) :
    Upholds (Session.Sourced setting.scriptClass tree classes) accepts
      (remember id answer : Infer σ _) := by
  intro session sourced
  cases answer with
  | none => exact UpholdsFrom.of_run rfl (sourced.drive _ _ _)
  | some ty =>
      exact UpholdsFrom.of_run (run_remember_some id ty session) (sourced.keep
        (session.facts.extends_setNodeType id ty) (sourced.toPlaced.keep rfl rfl rfl) rfl)

/-- A method is published under its header with what was gathered of it. -/
theorem announce_sourced
    {header : Header} {id : NodeId} {parameters : List Ty} {bodyType : Ty} {session : Session σ}
    (heads : header.Heads setting.scriptClass tree classes id)
    (sourced : session.Sourced setting.scriptClass tree classes)
    (listed : session.facts.argumentTypes? header.method.arguments = some parameters)
    (inside : session.facts.optionalType? header.method.body = some bodyType)
    (location : Location) :
    UpholdsFrom session (Session.Sourced setting.scriptClass tree classes) accepts
      (announce id header.method header.lexical header.signature parameters bodyType location) := by
  have learns : UpholdsFrom session (Session.Sourced setting.scriptClass tree classes) accepts
      (learnPublished header.method header.lexical header.signature parameters bodyType
        location) := by
    refine UpholdsFrom.bind (calm_sourced tolerates .getArena sourced) fun read _ => ?_
    obtain ⟨rfl, rfl⟩ := returns_getArena.mp read
    refine UpholdsFrom.bind (calm_sourced tolerates
      (.ofTree (session.facts.arena.argumentsOf_blamesTree _)) sourced) fun found _ => ?_
    obtain ⟨lists, rfl⟩ := returns_ofTree.mp found
    rw [sourced.arena, heads.lists] at lists
    cases lists
    exact learnOverloads_sourced tolerates heads sourced (.inferred listed)
      (mayReturn_of_body inside) location
  refine UpholdsFrom.bind (calm_sourced tolerates .getArena sourced) fun read _ => ?_
  obtain ⟨rfl, rfl⟩ := returns_getArena.mp read
  dsimp only
  split
  · refine UpholdsFrom.bind (calm_sourced tolerates (.isParent _ _) sourced) fun compared _ => ?_
    obtain rfl := (ReadStep.isParent _ _).after_eq compared
    split
    · exact learns
    · exact .of_stop (run_bind_of_error (run_fail _ _)) sourced (tolerates.calm rfl)
  · exact learns

variable (established : judgement.Established setting tree classes) (keyed : tree.Keyed)
  {fuel : Nat} (visits : ∀ child, Upholds
    (Session.Traced setting.scriptClass tree classes judgement) accepts (node setting fuel child))

include established keyed visits

theorem gatherMethod_traced
    {id : NodeId} {method : Method NodeId} (defines : tree.method? id = some method) :
    Upholds (Session.Traced setting.scriptClass tree classes judgement) accepts
      (gatherMethod setting (node setting fuel) id method) := by
  refine (orderly_traced tolerates).gatherMethod ?_ ?_ ?_ fun child _ => visits child
  · exact add_traced established keyed (.bindDefiningClass id)
      (bindDefiningClass_sourced tolerates id)
  · exact add_traced established keyed (.signatureOf id method)
      (signatureOf_sourced tolerates defines)
  · exact delegateBound_traced tolerates established keyed id method

variable (declines : setting.expander.Declines)

include declines

theorem arguments_traced (id : NodeId) :
    Upholds (Session.Traced setting.scriptClass tree classes judgement) accepts
      (arguments (node setting fuel) id) := by
  intro session traced
  refine UpholdsFrom.both (arguments_judged established keyed
    (node_faithful declines.keepsNodes fuel) (node_judged established keyed declines fuel) id
    traced.1) ?_
  rcases run_arguments (node setting fuel) id session with
    ⟨types, _, run⟩ | ⟨cause, refused, run⟩ | ⟨list, unlisted, found, run⟩
  · exact .of_run run traced.2
  · exact .of_stop run traced.2 (tolerates.calm rfl)
  · rw [UpholdsFrom, run]
    have collects : UpholdsFrom session
        (Session.Traced setting.scriptClass tree classes judgement) accepts
        (Infer.all (node setting fuel) list.typed) :=
      (orderly_traced tolerates).all (fun child _ => visits child) traced
    refine collects.onward And.right ?_
    intro answer middle _ kept
    cases answer with
    | none => exact .of_run rfl kept.2
    | some types =>
        exact .of_run rfl (kept.2.keep (middle.facts.extends_setArgumentTypes id types)
          (kept.2.toPlaced.keep rfl rfl rfl) rfl)

/-- A rule learns nothing of methods unless it is that of a method definition. -/
theorem otherRule_traced
    {id : NodeId} {found : Node} (other : ∀ method, found.kind ≠ .methodDefinition method) :
    Upholds (Session.Traced setting.scriptClass tree classes judgement) accepts
      (rule setting (node setting fuel) id found) := by
  have orderly := orderly_traced tolerates
  have declares := fun name => add_traced established keyed (.declaredType? id name)
    (declaredType?_sourced tolerates id name)
  have learns := fun scope name ty location => add_traced established keyed
    (.learnLocal scope name ty location) (learnLocal_sourced tolerates scope name ty location)
  refine orderly.rule ?_ (fun _ _ => instantiation_traced tolerates id _ _)
    (fun _ _ _ => resolveCall_traced tolerates declines id _ _ _) fun child _ => visits child
  intro learning
  unfold rule
  cases kind : found.kind with
  | methodDefinition method => exact absurd kind (other method)
  | arguments list =>
      exact (arguments_traced tolerates established keyed visits declines id).bind
        fun _ => calm_traced tolerates (.pure _)
  | requiredArgument name | restArgument name =>
      exact orderly.requiredArgument (declares name) fun _ _ _ => learns _ _ _ _
  | optionalArgument name value =>
      exact orderly.optionalArgument (declares name) (fun _ _ _ => learns _ _ _ _)
        (visits value)
  | localAssignment name value =>
      exact orderly.localAssignment (fun _ _ => learns _ _ _ _) (visits value)
  | _ =>
      rw [kind] at learning
      cases learning

/-- A method definition announces itself with the types that its parameters and its body have. -/
theorem methodRule_sourced
    {id : NodeId} {found : Node} {session : Session σ}
    (traced : session.Traced setting.scriptClass tree classes judgement)
    (unknown : session.facts.nodeType? id = none) (present : tree.find? id = some found)
    {method : Method NodeId} (kind : found.kind = .methodDefinition method) :
    UpholdsFrom session (Session.Sourced setting.scriptClass tree classes) accepts
      (rule setting (node setting fuel) id found >>= remember id) := by
  have defines : tree.method? id = some method := by
    rw [Arena.method?, present]
    exact Kind.method?_eq_some_iff.mpr kind
  have same := rule_of_methodDefinition setting (node setting fuel) id kind
  rw [same, bind_assoc, bind_assoc]
  refine UpholdsFrom.onward
    (gatherMethod_traced tolerates established keyed visits defines traced) And.right ?_
  intro gathered middle gathers kept
  cases gathered with
  | none => exact remember_sourced id none kept.2
  | some known =>
      have unexpanded : session.facts.expansionOf? id = none := by
        rw [Facts.expansionOf?, traced.1.unexpanded]
        rfl
      have free := untyped_of_gatherMethod declines.keepsNodes unknown unexpanded
        (traced.1.arena ▸ defines) gathers
      obtain ⟨⟨listed, inside, bound⟩, _⟩ :=
        (node_faithful declines.keepsNodes fuel).gathered gathers
      obtain ⟨list, lists, _⟩ := kept.1.lists listed
      have heads : Header.Heads setting.scriptClass tree classes
          { method, lexical := known.lexical, list, signature := known.signature } id :=
        ⟨defines, kept.2.standing bound, lists,
          gathered_declared keyed declines traced.1.toRegular defines gathers free⟩
      have announces := announce_sourced tolerates heads kept.2 listed inside known.location
      refine UpholdsFrom.bind (UpholdsFrom.bind announces fun _ kept => .of_run rfl kept) ?_
      intro answer last _ published
      cases answer with
      | none => exact remember_sourced id none published
      | some ty =>
          have filled : Facts.Learns setting.scriptClass classes last.facts { last.facts with
              signatures := last.facts.signatures.setReturnType id ty } := .returnType
          refine UpholdsFrom.bind (UpholdsFrom.of_run rfl (published.keep filled.extends
            (published.toPlaced.keep rfl rfl rfl) rfl)) fun _ stored => ?_
          exact remember_sourced id _ stored

omit visits

/-- Every visit keeps the sources of methods. -/
theorem node_traced (fuel : Nat) :
    ∀ id, Upholds (Session.Traced setting.scriptClass tree classes judgement) accepts
      (node setting fuel id) := by
  refine node_upholds (fun traced => traced.1.toIntact) (tolerates.calm rfl)
    (fun _ => tolerates.calm rfl) ?_ fuel
  intro fuel id found session visits traced unknown present
  have judges := node_judged established keyed declines fuel
  by_cases defines : ∃ method, found.kind = .methodDefinition method
  · obtain ⟨method, kind⟩ := defines
    exact (methodRule_judged established keyed declines judges traced.1 unknown present kind).both
      (methodRule_sourced tolerates established keyed visits declines traced unknown present kind)
  · push Not at defines
    refine (otherRule_judged established keyed declines judges traced.1 unknown present
      defines).both ?_
    exact UpholdsFrom.onward
      (otherRule_traced tolerates established keyed visits declines defines traced) And.right
      fun _ kept => remember_sourced id _ kept.2

end

end Infer

namespace Typer

variable {typer : Typer σ} {arena : Arena} {catalog : Catalog} {state : σ}
  {judgement : Judgement σ} {accepts : Stop → Prop}

/-- In a run of a fresh typer over all trees every method that is learned has a source, and the run
stops for a reason that is admitted. -/
theorem inferTypes_sourced
    (tolerates : Tolerates typer.setting.scriptClass arena (arena.declare catalog) judgement
      accepts)
    (established : judgement.Established typer.setting arena (arena.declare catalog))
    (onFacts : judgement.OnFacts)
    (context : ∀ {registered : Session σ}, registered.Regular arena (arena.declare catalog) →
      (∀ id, registered.facts.nodeType? id = none) → judgement.context registered)
    (keyed : arena.Keyed) (declines : typer.expander.Declines) :
    UpholdsFrom (start arena catalog state)
      (Session.Sourced typer.setting.scriptClass arena (arena.declare catalog)) accepts
      typer.inferTypes := by
  have sustains : typer.Sustains
      (Session.Traced typer.setting.scriptClass arena (arena.declare catalog) judgement) accepts :=
    { drives := fun {session} worklist lastChance passes _ traced =>
        ⟨⟨traced.1.toRegular.drive worklist lastChance passes,
          onFacts session _ rfl traced.1.context, traced.1.holds⟩, traced.2.drive _ _ _⟩
      givesUp := fun driver => tolerates.calm (Stop.isClash_of_not_isFault driver)
      visits := fun id session traced => by
        rw [run_infer]
        exact node_traced tolerates established keyed declines _ id traced }
  have begins : UpholdsFrom (start arena catalog state)
      (Session.Sourced typer.setting.scriptClass arena (arena.declare catalog)) accepts
      typer.registerTypes := by
    refine registerTypes_upholds keyed ?_ (fun _ calm => tolerates.calm calm) ?_
    · intro declaredConstructors
      refine ⟨.start arena catalog state declaredConstructors, ?_⟩
      intro entry member
      cases member
    · intro id method defines
      have here : arena.method? id = some method := defines
      exact signatureOf_sourced tolerates here
  rcases registers : typer.registerTypes.run (start arena catalog state) with
    ⟨stop | value, registered⟩
  · rw [UpholdsFrom, registers] at begins
    exact .of_stop (run_bind_of_error registers) begins.1 (begins.2 rfl)
  · obtain ⟨regular, untyped⟩ := registered_regular keyed registers
    have judged : registered.Judged arena (arena.declare catalog) judgement := by
      refine ⟨regular, context regular untyped, ?_⟩
      intro id ty known
      rw [untyped] at known
      cases known
    rw [UpholdsFrom, registers] at begins
    obtain ⟨kept, stops⟩ := sustains.inferTypes registers ⟨judged, begins.1⟩
    exact ⟨kept.2, stops⟩

end Typer

end DeferredTyping
