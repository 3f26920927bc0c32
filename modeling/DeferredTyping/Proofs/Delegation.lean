import DeferredTyping.Proofs.Composition
import DeferredTyping.Proofs.Frames
import DeferredTyping.Proofs.MethodLookup

/-!
# Constructors that hand over

A constructor hands over to another one of its class or of the superclass before its body runs.
The arguments were split off the tree, so they are visited apart, before the parameters of the
constructor are known.  A constructor takes no type before all of them have types, and one that
hands over within its class takes none before it is bound to the constructor that its class offers
for these types.
-/

namespace DeferredTyping

variable {σ : Type}

open Infer

/-- A constructor hands over within its class, or else to the superclass. -/
theorem Delegation.ofMethod?_cases
    {method : Method NodeId} {call : Delegation} (hands : ofMethod? method = some call) :
    (∃ given, method.thisArgs = some given ∧ call = .this given) ∨
      ∃ given, method.thisArgs = none ∧ method.superArgs = some given ∧ call = .super given := by
  unfold ofMethod? at hands
  cases within : method.thisArgs with
  | some given =>
      simp only [within] at hands
      exact .inl ⟨given, rfl, (Option.some.inj hands).symm⟩
  | none =>
      cases above : method.superArgs with
      | some given =>
          simp only [within, above] at hands
          exact .inr ⟨given, rfl, rfl, (Option.some.inj hands).symm⟩
      | none =>
          simp only [within, above] at hands
          cases hands

namespace Facts

variable {facts : Facts}

theorem allTyped_append {ids others : List NodeId} :
    facts.AllTyped (ids ++ others) ↔ facts.AllTyped ids ∧ facts.AllTyped others := by
  simp only [AllTyped, List.mapM_append, Option.bind_eq_bind, Option.pure_def,
    Option.bind_eq_some_iff]
  constructor
  · rintro ⟨_, types, known, rest, later, _⟩
    exact ⟨⟨types, known⟩, rest, later⟩
  · rintro ⟨⟨types, known⟩, rest, later⟩
    exact ⟨types ++ rest, types, known, rest, later, rfl⟩

theorem filterMap_nodeType? {ids : List NodeId} {types : List Ty}
    (known : ids.mapM facts.nodeType? = some types) :
    ids.filterMap facts.nodeType? = types := by
  induction ids generalizing types with
  | nil =>
      cases known
      rfl
  | cons id rest ih =>
      rw [List.mapM_cons] at known
      obtain ⟨ty, first, others⟩ := Option.bind_eq_some_iff.mp known
      obtain ⟨later, listed, same⟩ := Option.bind_eq_some_iff.mp others
      cases same
      rw [List.filterMap_cons_some first, ih listed]

/-- What later stages see of a delegation whose arguments have types. -/
theorem delegation?_of_known
    {id : NodeId} {method : Method NodeId} {call : Delegation} {types : List Ty}
    (defines : facts.arena.method? id = some method)
    (hands : Delegation.ofMethod? method = some call)
    (known : call.arguments.mapM facts.nodeType? = some types) :
    facts.delegation? id =
      some { call, argumentTypes := types, target := facts.delegateTargets.get? id } := by
  simp [delegation?, defines, hands, filterMap_nodeType? known]

/-- As long as nothing else is bound, later stages see the same of a delegation. -/
theorem delegation?_of_extends
    {later : Facts} (extended : facts.Extends later) (same : later.arena = facts.arena)
    {id : NodeId} {method : Method NodeId} {call : Delegation} {types : List Ty}
    (defines : facts.arena.method? id = some method)
    (hands : Delegation.ofMethod? method = some call)
    (known : call.arguments.mapM facts.nodeType? = some types)
    (bound : later.delegateTargets.get? id = facts.delegateTargets.get? id) :
    later.delegation? id = facts.delegation? id := by
  rw [delegation?_of_known defines hands known,
    delegation?_of_known (same ▸ defines) hands (Facts.Later.mapM_nodeType? extended known), bound]

/-- A method definition that hands over within its class is bound to a constructor that its class
offers for the types of the arguments. -/
structure HandsOver (scriptClass : String) (classes : Catalog) (facts : Facts) (id : NodeId)
    (target : MethodType) : Prop where
  arguments : ∃ method given types, facts.arena.method? id = some method ∧
    method.thisArgs = some given ∧ given.mapM facts.nodeType? = some types ∧
    (Assignable.TakesEach classes.isParent target.parameters types ∨
      target.TakesSpread classes.isParent types)
  named : target.name = "initialize"
  within : facts.arena.lexicalClass scriptClass id = .ok target.definingClass

theorem HandsOver.mono
    {scriptClass : String} {classes : Catalog} {before after : Facts} {id : NodeId}
    {target : MethodType} (bound : before.HandsOver scriptClass classes id target)
    (same : after.arena = before.arena) (extended : before.Extends after) :
    after.HandsOver scriptClass classes id target where
  arguments := by
    obtain ⟨method, given, types, defines, hands, known, takes⟩ := bound.arguments
    exact ⟨method, given, types, same ▸ defines, hands,
      Facts.Later.mapM_nodeType? extended known, takes⟩
  named := bound.named
  within := same ▸ bound.within

end Facts

/-- Methods stand in their classes, and whatever is bound is what a constructor hands over to. -/
structure Session.BindsTargets (scriptClass : String) (tree : Arena) (classes : Catalog)
    (session : Session σ) : Prop extends session.Placed scriptClass tree classes where
  bound : ∀ {id target}, session.facts.delegateTargets.get? id = some target →
    session.facts.HandsOver scriptClass classes id target

namespace Session.BindsTargets

variable {scriptClass : String} {tree : Arena} {classes : Catalog} {session : Session σ}

/-- More is known, and nothing else is bound. -/
theorem keep
    {facts : Facts} (binds : session.BindsTargets scriptClass tree classes)
    (extended : session.facts.Extends facts)
    (placed : { session with facts : Session σ }.Placed scriptClass tree classes)
    (targets : facts.delegateTargets = session.facts.delegateTargets) :
    { session with facts : Session σ }.BindsTargets scriptClass tree classes where
  toPlaced := placed
  bound known :=
    (binds.bound (targets ▸ known)).mono (placed.arena.trans binds.arena.symm) extended

theorem bind
    {id : NodeId} {target : MethodType} (binds : session.BindsTargets scriptClass tree classes)
    (free : session.facts.delegateTargets.get? id = none)
    (bound : session.facts.HandsOver scriptClass classes id target) :
    { session with facts := { session.facts with
        delegateTargets := session.facts.delegateTargets.insert id target } :
      Session σ }.BindsTargets scriptClass tree classes := by
  have extended : session.facts.Extends { session.facts with
      delegateTargets := session.facts.delegateTargets.insert id target } :=
    { Facts.Extends.refl session.facts with
      delegateTargets := fun known => Table.get?_insert_of_known free known }
  refine ⟨binds.toPlaced.keep rfl rfl rfl, ?_⟩
  intro other known stored
  rcases Table.get?_insert_eq_some stored with ⟨rfl, rfl⟩ | ⟨_, before⟩
  · exact bound.mono rfl extended
  · exact (binds.bound before).mono rfl extended

/-- A method definition that does not hand over within its class is bound to nothing. -/
theorem unbound
    {id : NodeId} {method : Method NodeId} (binds : session.BindsTargets scriptClass tree classes)
    (defines : tree.method? id = some method) (outside : method.thisArgs = none) :
    session.facts.delegateTargets.get? id = none := by
  cases known : session.facts.delegateTargets.get? id with
  | none => rfl
  | some target =>
      obtain ⟨other, given, _, found, hands, _⟩ := (binds.bound known).arguments
      rw [binds.arena, defines] at found
      cases found
      cases outside.symm.trans hands

end Session.BindsTargets

/-- No constructor is bound when a method is published. -/
theorem Facts.delegateTargets_hidesPublishing : Facts.HidesPublishing Facts.delegateTargets :=
  ⟨fun _ _ => rfl, fun _ _ => rfl, fun _ _ => rfl⟩

namespace Infer

variable {setting : Setting σ} {tree : Arena} {classes : Catalog}
  {infer : NodeId → Infer σ (Option Ty)} {id : NodeId}

theorem bindsTargets_of_keepsView
    {α : Type} {step : Infer σ α} (own : OwnStep setting step)
    (keeps : KeepsView Facts.delegateTargets step) :
    Upholds (Session.BindsTargets setting.scriptClass tree classes) (fun _ => True) step := by
  intro session binds
  have placed := binds.toPlaced.own own
  have targets := keeps session
  obtain ⟨facts, learned, ended⟩ := own.learns session
  rw [ended] at placed targets ⊢
  exact ⟨binds.keep (Facts.Learned.extends learned) placed targets, fun _ => trivial⟩

/-- A constructor is bound to what its class offers for the types of the arguments. -/
theorem delegateBound_bindsTargets
    {method : Method NodeId} {lexical : Ty} (defines : tree.method? id = some method)
    (within : tree.lexicalClass setting.scriptClass id = .ok lexical) (location : Location) :
    Upholds (Session.BindsTargets setting.scriptClass tree classes) (fun _ => True)
      (delegateBound id method lexical location : Infer σ Bool) := by
  intro session binds
  refine ⟨?_, fun _ => trivial⟩
  rcases run_delegateBound id method lexical location session with
    ⟨answer, run, _, _⟩ | ⟨given, types, target, hands, known, found, free, run⟩
  · rw [run]
    exact binds
  · rw [run]
    have offers := Members.offers_of_findConstructor found
    have takes := offers.takes
    rw [Session.members, binds.catalog] at takes
    refine binds.bind free ⟨⟨method, given, types, ?_, hands, known, takes⟩, offers.name_eq, ?_⟩
    · rw [binds.arena]
      exact defines
    · rw [binds.arena, offers.definingClass_eq]
      exact within

section

variable (visits : ∀ child,
  Upholds (Session.BindsTargets setting.scriptClass tree classes) (fun _ => True) (infer child))

include visits

theorem methodDefinition_bindsTargets
    {method : Method NodeId} (defines : tree.method? id = some method) :
    Upholds (Session.BindsTargets setting.scriptClass tree classes) (fun _ => True)
      (methodDefinition setting infer id method) := by
  have sequential : Sequential fun _ (step : Infer σ _) =>
      Upholds (Session.BindsTargets setting.scriptClass tree classes) (fun _ => True) step :=
    .ofInvariant _
  have gathers : Upholds (Session.BindsTargets setting.scriptClass tree classes) (fun _ => True)
      (gatherMethod setting infer id method) := by
    intro session binds
    apply UpholdsFrom.bind (sequential.read (.locationOf id) binds)
    intro location there _ kept
    apply UpholdsFrom.bind (sequential.delegationReady (fun child _ => visits child) kept)
    intro ready delegated _ bound
    apply UpholdsFrom.bind (bindsTargets_of_keepsView (AddStep.bindDefiningClass id).own
      (.bindDefiningClass (fun _ _ => rfl) id) bound)
    intro lexical placed binding standing
    -- The target is looked up in the class around the constructor.
    have within := bound.toPlaced.lexicalClass_of_bindDefiningClass binding
    exact sequential.gatherInClass
      (bindsTargets_of_keepsView (AddStep.signatureOf id method).own
        (.signatureOf Facts.delegateTargets_hidesPublishing id method))
      (delegateBound_bindsTargets defines within location) (fun child _ => visits child) standing
  rw [methodDefinition_eq, bind_assoc]
  refine gathers.bind fun gathered => ?_
  refine Upholds.bind (bindsTargets_of_keepsView (announceGathered_own id method gathered)
    (.announceGathered (fun _ _ => rfl) id method gathered)) fun answer => ?_
  exact bindsTargets_of_keepsView (fillGathered_own id answer)
    (.fillGathered (fun _ _ => rfl) id answer)

theorem arguments_bindsTargets (id : NodeId) :
    Upholds (Session.BindsTargets setting.scriptClass tree classes) (fun _ => True)
      (arguments infer id) := by
  apply (Sequential.ofInvariant _).arguments visits
  intro types session binds
  refine ⟨?_, fun _ => trivial⟩
  cases types with
  | none => exact binds
  | some types =>
      exact binds.keep (session.facts.extends_setArgumentTypes id types)
        (binds.toPlaced.keep rfl rfl rfl) rfl

theorem rule_bindsTargets
    (declines : setting.expander.Declines) {found : Node} (present : tree.find? id = some found) :
    Upholds (Session.BindsTargets setting.scriptClass tree classes) (fun _ => True)
      (rule setting infer id found) := by
  have sequential : Sequential fun _ (step : Infer σ _) =>
      Upholds (Session.BindsTargets setting.scriptClass tree classes) (fun _ => True) step :=
    .ofInvariant _
  have learns : ∀ scope name ty location,
      Upholds (Session.BindsTargets setting.scriptClass tree classes) (fun _ => True)
        (learnLocal scope name ty location : Infer σ Ty) :=
    fun scope name ty location => bindsTargets_of_keepsView (AddStep.learnLocal _ _ _ _).own
      (.learnLocal (fun _ _ => rfl) scope name ty location)
  have declares : ∀ name,
      Upholds (Session.BindsTargets setting.scriptClass tree classes) (fun _ => True)
        (declaredType? setting id name) :=
    fun name => bindsTargets_of_keepsView (AddStep.declaredType? id name).own
      (.declaredType? Facts.delegateTargets_hidesPublishing id name)
  refine sequential.rule ?_
    (fun receiver name types => sequential.read (.resolveCall declines id receiver name types))
    fun child _ => visits child
  intro learning
  unfold rule
  cases kind : found.kind with
  | methodDefinition method =>
      refine methodDefinition_bindsTargets visits ?_
      rw [Arena.method?, present]
      exact Kind.method?_eq_some_iff.mpr kind
  | arguments list =>
      exact (arguments_bindsTargets visits id).bind fun _ => sequential.read (.pure _)
  | requiredArgument name | restArgument name =>
      exact sequential.requiredArgument (declares name) fun _ _ _ => learns _ _ _ _
  | optionalArgument name value =>
      exact sequential.optionalArgument (declares name) (fun _ _ _ => learns _ _ _ _)
        (visits value)
  | localAssignment name value =>
      exact sequential.localAssignment (fun _ _ => learns _ _ _ _) (visits value)
  | _ =>
      rw [kind] at learning
      cases learning

end

/-- Every visit binds a constructor to what it hands over to, or binds none. -/
theorem node_bindsTargets (declines : setting.expander.Declines) (fuel : Nat) :
    ∀ id, Upholds (Session.BindsTargets setting.scriptClass tree classes) (fun _ => True)
      (node setting fuel id) := by
  refine node_upholds (fun binds => binds.toIntact) trivial (fun _ => trivial) ?_ fuel
  intro fuel id found session visits binds _ present
  apply UpholdsFrom.bind (rule_bindsTargets visits declines present binds)
  intro answer after _ kept
  cases answer with
  | none =>
      exact .of_run rfl
        ⟨⟨⟨kept.arena, kept.unexpanded⟩, kept.catalog, kept.standing⟩, kept.bound⟩
  | some ty =>
      exact .of_run rfl (kept.keep (after.facts.extends_setNodeType id ty)
        (kept.toPlaced.keep rfl rfl rfl) rfl)

end Infer

/-- A constructor with a type knows the types of what it hands over, and it is bound when it hands
over within its class. -/
def handingJudgement : Judgement σ where
  context _ := True
  holds id _ facts := ∀ ⦃method⦄, facts.arena.method? id = some method →
    method.isConstructor = true →
      facts.AllTyped (method.thisArgs.getD [] ++ method.superArgs.getD []) ∧
      ∀ ⦃given⦄, method.thisArgs = some given →
        ∃ target, facts.delegateTargets.get? id = some target

theorem handingJudgement_established
    {setting : Setting σ} (declines : setting.expander.Declines)
    (tree : Arena) (classes : Catalog) :
    (handingJudgement : Judgement σ).Established setting tree classes where
  context _ _ known := known
  later {id ty before after} later holds := by
    intro method defines isConstructor
    rw [later.arena] at defines
    obtain ⟨typed, bound⟩ := holds defines isConstructor
    exact ⟨typed.mono later.toExtends,
      fun given hands => (bound hands).imp fun _ => later.delegateTargets⟩
  rule {fuel id found ty before after} _ _ _ present intact returned := by
    intro method defines isConstructor
    have here : tree.method? id = some method := by
      rw [← intact.arena]
      exact defines
    rw [Arena.method?, present] at here
    have kind : found.kind = .methodDefinition method := Kind.method?_eq_some_iff.mp here
    unfold rule at returned
    rw [kind] at returned
    have faithful : Faithful (node setting fuel) := node_faithful declines.keepsNodes fuel
    obtain ⟨known, middle, announced, gathers, announces, _, rfl⟩ :=
      returns_methodDefinition_some returned
    obtain ⟨_, delegated, bound, _, delegates, binds, _, extended⟩ := faithful.gathered gathers
    obtain ⟨_, _, _, _, content, location, _, _, _, _, _, last⟩ := returns_gatherMethod gathers
    have binding : Relates Session.Extends (bindDefiningClass setting id) :=
      (traversal_extends setting).toBuilding.add (.bindDefiningClass id)
    have early := (binding.returned binds).trans extended
    have adding : FactStep setting _ Facts.Adds (announce id method known.lexical
        known.signature known.parameters known.bodyType known.location) :=
      announce_adds id method _ _ _ _ _
    have late : middle.facts.Extends announced.facts :=
      Facts.Added.extends (adding.changed announces).1
    have noted := announced.facts.extends_setNodeType id ty
    constructor
    · exact ((allTyped_of_delegationReady faithful delegates).mono
        (early.facts.trans late)).mono noted
    · intro given hands
      have bound : ∃ target, middle.facts.delegateTargets.get? id = some target := by
        rw [Returns] at last
        rcases run_delegateBound id method known.lexical location content with
          ⟨answer, run, settled, _⟩ | ⟨_, _, target, _, _, _, _, run⟩
        · rw [run] at last
          cases last
          exact Table.contains_eq_true_iff.mp (settled rfl isConstructor given hands)
        · rw [run] at last
          cases last
          exact ⟨target, Table.get?_insert_self _ _ _⟩
      exact bound.imp fun _ => late.delegateTargets

namespace Typer

variable {typer : Typer σ} {arena : Arena}

/-- Whatever is asked of a typer, constructors are bound to what they hand over to. -/
theorem maintains_bindsTargets
    (declines : typer.expander.Declines) (keyed : arena.Keyed) {classes : Catalog}
    (declared : arena.declare classes = classes) :
    typer.Maintains (Session.BindsTargets typer.setting.scriptClass arena classes)
      fun _ => True where
  drives _ _ _ _ binds :=
    ⟨⟨⟨binds.arena, binds.unexpanded⟩, binds.catalog, binds.standing⟩, binds.bound⟩
  givesUp _ := trivial
  visits id session binds := by
    rw [run_infer]
    exact node_bindsTargets declines _ id binds
  registers session binds := by
    refine registerTypes_upholds (binds.arena ▸ keyed) ?_ (fun _ _ => trivial) fun _ => ?_
    · exact fun declaredConstructors =>
        ⟨binds.toPlaced.declare declared declaredConstructors, binds.bound⟩
    · exact bindsTargets_of_keepsView (AddStep.signatureOf _ _).own
        (.signatureOf Facts.delegateTargets_hidesPublishing _ _)
  lists id := by
    apply arguments_bindsTargets
    intro child session binds
    rw [run_infer]
    exact node_bindsTargets declines _ child binds
  locals scope name ty :=
    bindsTargets_of_keepsView (typer.learnLocalType_adds scope name ty).own
      (.after (.locationOf scope) fun location =>
        .learnLocal (fun _ _ => rfl) scope name ty location)
  methods method :=
    bindsTargets_of_keepsView (typer.learnMethodType_adds method).own
      (.learnMethod (fun _ _ => rfl) method {})

theorem bindsTargets_of_continues
    (declines : typer.expander.Declines) (keyed : arena.Keyed)
    {catalog : Catalog} {state : σ} {registered session : Session σ}
    (registers : Returns typer.registerTypes (start arena catalog state) () registered)
    (continues : typer.Continues registered session) :
    session.BindsTargets typer.setting.scriptClass arena (arena.declare catalog) := by
  have fresh : UpholdsFrom (start arena catalog state)
      (Session.BindsTargets typer.setting.scriptClass arena (arena.declare catalog))
      (fun _ => True) typer.registerTypes := by
    refine registerTypes_upholds keyed ?_ (fun _ _ => trivial) fun _ => ?_
    · refine fun declaredConstructors => ⟨.start arena catalog state declaredConstructors, ?_⟩
      intro id target known
      cases known
    · exact bindsTargets_of_keepsView (AddStep.signatureOf _ _).own
        (.signatureOf Facts.delegateTargets_hidesPublishing _ _)
  have binds := fresh.1
  rw [registers] at binds
  exact (maintains_bindsTargets declines keyed (arena.declare_declare catalog)).continues binds
    continues

/-- Whatever is asked of a typer that has registered its declarations, a constructor with a type
that hands over to another one knows the type of each argument.  Within its class it is bound to a
constructor that the class itself offers and that takes these types, one for one or spread; to the
superclass it is bound to none.  What is bound stays bound, and so does all that is known of the
delegation. -/
theorem delegations_are_known
    (declines : typer.expander.Declines) (keyed : arena.Keyed)
    {catalog : Catalog} {state : σ} {registered session : Session σ}
    (registers : Returns typer.registerTypes (start arena catalog state) () registered)
    (continues : typer.Continues registered session) :
    (∀ {id method ty call}, session.facts.arena.method? id = some method →
      method.isConstructor = true → session.facts.nodeType? id = some ty →
      Delegation.ofMethod? method = some call →
      ∃ report, session.facts.delegation? id = some report ∧ report.call = call ∧
        call.arguments.mapM session.facts.nodeType? = some report.argumentTypes ∧
        (∀ given, call = .this given → ∃ target, report.target = some target ∧
          target.name = "initialize" ∧
          session.facts.arena.lexicalClass typer.config.scriptClass id =
            .ok target.definingClass ∧
          (Assignable.TakesEach session.catalog.isParent target.parameters
              report.argumentTypes ∨
            target.TakesSpread session.catalog.isParent report.argumentTypes)) ∧
        (∀ given, call = .super given → report.target = none) ∧
        ∀ later, typer.Continues session later → later.facts.delegation? id = some report) ∧
    ∀ {id target later}, session.facts.delegateTargets.get? id = some target →
      typer.Continues session later → later.facts.delegateTargets.get? id = some target := by
  have binds := bindsTargets_of_continues declines keyed registers continues
  have judged := judged_of_continues (handingJudgement_established declines arena _)
    (fun _ _ _ _ => trivial) keyed declines registers trivial continues
  constructor
  · intro id method ty call defines isConstructor typed hands
    obtain ⟨allTyped, bound⟩ := judged.holds typed defines isConstructor
    obtain ⟨within, above⟩ := Facts.allTyped_append.mp allTyped
    have stays : ∀ {types later}, call.arguments.mapM session.facts.nodeType? = some types →
        typer.Continues session later →
        later.facts.delegateTargets.get? id = session.facts.delegateTargets.get? id →
          later.facts.delegation? id = session.facts.delegation? id := by
      intro types later known onward same
      have still := bindsTargets_of_continues declines keyed registers (continues.trans onward)
      exact Facts.delegation?_of_extends (typer.respects_extends.continues onward)
        (still.arena.trans binds.arena.symm) defines hands known same
    rcases Delegation.ofMethod?_cases hands with ⟨given, this, rfl⟩ | ⟨given, other, super, rfl⟩
    · rw [this] at within
      obtain ⟨types, known⟩ := within
      obtain ⟨target, targeted⟩ := bound this
      have handsOver := binds.bound targeted
      obtain ⟨_, _, _, found, handed, typed, takes⟩ := handsOver.arguments
      cases defines.symm.trans found
      cases this.symm.trans handed
      cases known.symm.trans typed
      rw [← binds.catalog] at takes
      have reported := Facts.delegation?_of_known defines hands known
      refine ⟨_, reported, rfl, known, ?_, nofun, ?_⟩
      · exact fun _ _ => ⟨target, targeted, handsOver.named, handsOver.within, takes⟩
      · intro later onward
        have same := (typer.respects_extends.continues onward).delegateTargets targeted
        exact (stays known onward (same.trans targeted.symm)).trans reported
    · rw [super] at above
      obtain ⟨types, known⟩ := above
      have unbound := binds.unbound (binds.arena ▸ defines) other
      have reported := Facts.delegation?_of_known defines hands known
      refine ⟨_, reported, rfl, known, nofun, fun _ _ => unbound, ?_⟩
      intro later onward
      have still := bindsTargets_of_continues declines keyed registers (continues.trans onward)
      have same := still.unbound (binds.arena ▸ defines) other
      exact (stays known onward (same.trans unbound.symm)).trans reported
  · intro id target later known onward
    exact (typer.respects_extends.continues onward).delegateTargets known

/-- A class with a constructor for a number, and one without parameters that hands a number
over to it. -/
def handingOver : Arena where
  nodes := ⟨[
    (1, { id := 1, parent := none, location := {}, kind := .script "" (some 2) }),
    (2, { id := 2, parent := some 1, location := {}, kind := .body [3] }),
    (3, { id := 3, parent := some 2, location := {},
          kind := .classDefinition "Counter" none [] (some 4) }),
    (4, { id := 4, parent := some 3, location := {}, kind := .body [5, 9] }),
    (5, { id := 5, parent := some 4, location := {},
          kind := .methodDefinition {
            name := "initialize", kind := .constructor, arguments := 6, body := some 8
            declared := { parameters := [("start", "int")] } } }),
    (6, { id := 6, parent := some 5, location := {}, kind := .arguments { required := [7] } }),
    (7, { id := 7, parent := some 6, location := {}, kind := .requiredArgument "start" }),
    (8, { id := 8, parent := some 5, location := {}, kind := .noop }),
    (9, { id := 9, parent := some 4, location := {},
          kind := .methodDefinition {
            name := "initialize", kind := .constructor, arguments := 10, body := some 13
            thisArgs := some [12] } }),
    (10, { id := 10, parent := some 9, location := {}, kind := .arguments {} }),
    (11, { id := 11, parent := some 9, location := {},
           kind := .functionalCall "initialize" [12] none }),
    (12, { id := 12, parent := some 11, location := {}, kind := .fixnum 1 }),
    (13, { id := 13, parent := some 9, location := {}, kind := .noop })]⟩
  nextId := 14

theorem delegations_are_known_of_handingOver :
    plain.expander.Declines ∧ handingOver.Keyed ∧
      ∃ registered, Returns plain.registerTypes (start handingOver {} ()) () registered ∧
        plain.Continues registered (plain.perform registered .inferTypes) ∧
        (plain.perform registered .inferTypes).facts.nodeType? 9 = some .void ∧
        ∃ report target,
          (plain.perform registered .inferTypes).facts.delegation? 9 = some report ∧
          report.call = .this [12] ∧ report.argumentTypes = [.int] ∧
          report.target = some target ∧ target.name = "initialize" ∧
          target.definingClass = .object "Counter" := by
  have keyed : handingOver.Keyed := ⟨by decide, by decide⟩
  have registers : Returns plain.registerTypes (start handingOver {} ()) ()
      (plain.registerTypes.run (start handingOver {} ())).2 :=
    returns_of_isOk (by decide)
  have continues : plain.Continues (plain.registerTypes.run (start handingOver {} ())).2
      (plain.perform (plain.registerTypes.run (start handingOver {} ())).2 .inferTypes) :=
    .step .refl .inferTypes
  have typed : (plain.perform (plain.registerTypes.run (start handingOver {} ())).2
      .inferTypes).facts.nodeType? 9 = some .void := by decide +kernel
  have known : (plain.perform (plain.registerTypes.run (start handingOver {} ())).2
      .inferTypes).facts.nodeType? 12 = some .int := by decide +kernel
  have defines : (plain.perform (plain.registerTypes.run (start handingOver {} ())).2
      .inferTypes).facts.arena.method? 9 = some {
        name := "initialize", kind := .constructor, arguments := 10, body := some 13
        thisArgs := some [12] } := by decide +kernel
  have standing : (plain.perform (plain.registerTypes.run (start handingOver {} ())).2
      .inferTypes).facts.arena.lexicalClass plain.config.scriptClass 9 =
      .ok (.object "Counter") := by decide +kernel
  obtain ⟨report, reported, call, types, within, _⟩ :=
    (delegations_are_known plain_declines keyed registers continues).1 defines rfl typed rfl
  obtain ⟨target, bound, named, lexical, _⟩ := within _ rfl
  have argument : report.argumentTypes = [.int] := by
    simp [Delegation.arguments, known] at types
    exact types.symm
  refine ⟨plain_declines, keyed, _, registers, continues, typed, report, target, reported, call,
    argument, bound, named, ?_⟩
  rw [standing] at lexical
  exact (Except.ok.inj lexical).symm

end Typer

end DeferredTyping
