import DeferredTyping.Proofs.Reachable
import DeferredTyping.Proofs.Reentry
import DeferredTyping.Proofs.Visibility

/-!
# What a type says of its node

A judgement says something of every node that has a type.  It holds in every
session that is reached when two things do: what is learned later never takes it
back, and the rule of a node establishes it.  `Session.Regular` is what rules rely
on meanwhile: the types of a list of parameters are those of its parameters, and
the signature of a method without a type is the declared one.

Between filling a return slot and keeping the type of the method neither holds for
that method, so both are taken as one step.
-/

namespace DeferredTyping

variable {σ : Type}

open Infer

theorem Expander.Declines.keepsNodes
    {expander : Expander σ} (declines : expander.Declines) : expander.KeepsNodes := by
  intro arena call receiver state id node present
  rw [declines]
  exact present

/-- The type of a node that may be left out; without it there is no value. -/
def Facts.optionalType? (facts : Facts) : Option NodeId → Option Ty
  | some id => facts.nodeType? id
  | none => some .void

theorem Facts.Extends.optionalType?
    {before after : Facts} (extended : before.Extends after)
    {id : Option NodeId} {ty : Ty} (known : before.optionalType? id = some ty) :
    after.optionalType? id = some ty := by
  cases id with
  | none => exact known
  | some id => exact extended.nodeTypes known

theorem Facts.Extends.optionalType?_eq_none
    {before after : Facts} (extended : before.Extends after)
    {id : Option NodeId} (unknown : after.optionalType? id = none) :
    before.optionalType? id = none := by
  cases id with
  | none => exact unknown
  | some id => exact extended.nodeType?_eq_none unknown

/-- More is known, the tree is the same, visible names keep their types, and the
signature of a node that has a type stays. -/
structure Facts.Later (before after : Facts) : Prop extends before.Extends after where
  arena : after.arena = before.arena
  locals : ∀ {scope name ty}, before.localType? scope name = some ty →
    after.localType? scope name = some ty
  typed : ∀ {id ty signature}, before.nodeType? id = some ty →
    before.signature? id = some signature → after.signature? id = some signature

namespace Facts.Later

theorem refl (facts : Facts) : facts.Later facts where
  toExtends := .refl facts
  arena := rfl
  locals visible := visible
  typed _ known := known

theorem trans
    {first second third : Facts}
    (early : first.Later second)
    (late : second.Later third) :
    first.Later third where
  toExtends := early.toExtends.trans late.toExtends
  arena := late.arena.trans early.arena
  locals visible := late.locals (early.locals visible)
  typed known signed := late.typed (early.nodeTypes known) (early.typed known signed)

theorem mapM_nodeType?
    {before after : Facts}
    (extended : before.Extends after)
    {ids : List NodeId} {types : List Ty}
    (known : ids.mapM before.nodeType? = some types) :
    ids.mapM after.nodeType? = some types := by
  induction ids generalizing types with
  | nil => exact known
  | cons id rest ih =>
      rw [List.mapM_cons] at known ⊢
      obtain ⟨ty, first, others⟩ := Option.bind_eq_some_iff.mp known
      obtain ⟨later, listed, same⟩ := Option.bind_eq_some_iff.mp others
      rw [extended.nodeTypes first, Option.bind_eq_bind, Option.bind_some, ih listed]
      exact same

end Facts.Later

theorem Facts.Adds.later
    {scriptClass : String} {catalog : Catalog} {before after : Facts}
    (adds : Facts.Adds scriptClass catalog before after)
    (keyed : before.arena.Keyed) :
    before.Later after where
  toExtends := adds.extends
  arena := (Facts.Learns.adds adds).sameNodes.arena
  locals := adds.localType? keyed
  typed {id ty signature} _ known := by
    cases adds with
    | signature free _ => exact Table.get?_insert_of_known free known
    | definingClass _ _ | «local» _ | method _ | delegateTarget _ _ => exact known

theorem Facts.Added.later
    {scriptClass : String} {catalog : Catalog} {before after : Facts}
    (added : Facts.Added scriptClass catalog before after)
    (keyed : before.arena.Keyed) :
    before.Later after := by
  induction added with
  | refl => exact .refl before
  | tail _ last ih => exact ih.trans (last.later (ih.arena ▸ keyed))

theorem Facts.Adds.distinct
    {scriptClass : String} {catalog : Catalog} {before after : Facts}
    (adds : Facts.Adds scriptClass catalog before after)
    (distinct : before.methods.Distinct) :
    after.methods.Distinct := by
  cases adds with
  | method learned => exact distinct.learn learned
  | definingClass _ _ | «local» _ | signature _ _ | delegateTarget _ _ => exact distinct

theorem Facts.Added.distinct
    {scriptClass : String} {catalog : Catalog} {before after : Facts}
    (added : Facts.Added scriptClass catalog before after)
    (distinct : before.methods.Distinct) :
    after.methods.Distinct := by
  induction added with
  | refl => exact distinct
  | tail _ last ih => exact last.distinct ih

namespace Facts

theorem later_setNodeType (facts : Facts) (id : NodeId) (ty : Ty) :
    facts.Later (facts.setNodeType id ty) :=
  { Later.refl facts with toExtends := facts.extends_setNodeType id ty }

theorem later_setArgumentTypes (facts : Facts) (id : NodeId) (types : List Ty) :
    facts.Later (facts.setArgumentTypes id types) :=
  { Later.refl facts with toExtends := facts.extends_setArgumentTypes id types }

/-- A method takes its type, and its return slot is filled. -/
def conclude (facts : Facts) (id : NodeId) (ty : Ty) : Facts :=
  { facts with signatures := facts.signatures.setReturnType id ty }.setNodeType id ty

theorem later_conclude
    {facts : Facts} {id : NodeId} (unknown : facts.nodeType? id = none) (ty : Ty) :
    facts.Later (facts.conclude id ty) := by
  have filled : Facts.Learns "" {} facts
      { facts with signatures := facts.signatures.setReturnType id ty } := .returnType
  refine {
    toExtends := filled.extends.trans (extends_setNodeType _ id ty)
    arena := rfl
    locals := fun visible => visible
    typed := ?_ }
  intro other found signature known signed
  have different : other ≠ id := by
    rintro rfl
    rw [unknown] at known
    cases known
  rw [← signed]
  exact Table.get?_insert_of_ne _ different _

end Facts

/-- A node keeps its kind when its type is noted. -/
theorem Session.Intact.eq_of_noted
    {tree : Arena} {session : Session σ} (intact : session.Intact tree) {id : NodeId}
    {found : Node} (present : tree.find? id = some found) {ty : Ty} {other : Node}
    (stored : (session.facts.setNodeType id ty).arena.find? id = some other) :
    other = found := by
  rw [Facts.setNodeType, intact.arena, present] at stored
  exact (Option.some.inj stored).symm

/-- A session whose tree and catalogue are the given ones, and in which lists of
parameters, signatures and published methods are what they ought to be. -/
structure Session.Regular (tree : Arena) (classes : Catalog) (session : Session σ) :
    Prop extends session.Intact tree where
  catalog : session.catalog = classes
  lists : ∀ {id types}, session.facts.argumentTypes? id = some types →
    ∃ list, tree.argumentsOf id = .ok list ∧
      list.typed.mapM session.facts.nodeType? = some types
  signed : ∀ {id method}, tree.method? id = some method →
    ∃ declared signature, classes.resolveSignature method.declared = .ok declared ∧
      session.facts.signature? id = some signature ∧
      (session.facts.nodeType? id = none → signature = declared)
  distinct : session.facts.methods.Distinct

namespace Session.Regular

variable {tree : Arena} {classes : Catalog} {session : Session σ}

/-- The types that are kept for a list of parameters are those of its parameters. -/
theorem types_of_argumentTypes?
    (regular : session.Regular tree classes) {id : NodeId} {types : List Ty}
    (known : session.facts.argumentTypes? id = some types)
    {list : ArgumentList NodeId} (listed : session.facts.arena.argumentsOf id = .ok list) :
    list.typed.mapM session.facts.nodeType? = some types := by
  obtain ⟨other, found, types⟩ := regular.lists known
  rw [regular.arena, found] at listed
  cases listed
  exact types

theorem drive
    (regular : session.Regular tree classes)
    (worklist : Worklist) (lastChance : Bool) (passes : Nat) :
    { session with worklist, lastChance, passes : Session σ }.Regular tree classes :=
  ⟨⟨regular.arena, regular.unexpanded⟩, regular.catalog, regular.lists, regular.signed,
    regular.distinct⟩

theorem adds
    {scriptClass : String} {catalog : Catalog} {facts : Facts}
    (regular : session.Regular tree classes)
    (adds : Facts.Adds scriptClass catalog session.facts facts) :
    { session with facts : Session σ }.Regular tree classes := by
  have same := (Facts.Learns.adds adds).sameNodes
  constructor
  · exact ⟨same.arena.trans regular.arena, same.expansions.trans regular.unexpanded⟩
  · exact regular.catalog
  · intro id listed known
    rw [Facts.argumentTypes?, same.argumentTypes] at known
    rw [same.nodeType?_eq]
    exact regular.lists known
  · intro id method defines
    obtain ⟨declared, signature, resolved, known, untyped⟩ := regular.signed defines
    refine ⟨declared, signature, resolved, ?_, same.nodeType?_eq ▸ untyped⟩
    cases adds with
    | signature free _ => exact Table.get?_insert_of_known free known
    | definingClass _ _ | «local» _ | method _ | delegateTarget _ _ => exact known
  · exact adds.distinct regular.distinct

theorem added
    {scriptClass : String} {catalog : Catalog} {facts : Facts}
    (regular : session.Regular tree classes)
    (added : Facts.Added scriptClass catalog session.facts facts) :
    { session with facts : Session σ }.Regular tree classes := by
  induction added with
  | refl => exact regular
  | tail _ last ih => exact ih.adds last

theorem setNodeType
    (regular : session.Regular tree classes) (id : NodeId) (ty : Ty) :
    { session with facts := session.facts.setNodeType id ty : Session σ }.Regular
      tree classes where
  toIntact := ⟨regular.arena, regular.unexpanded⟩
  catalog := regular.catalog
  lists known := by
    obtain ⟨list, found, types⟩ := regular.lists known
    exact ⟨list, found,
      Facts.Later.mapM_nodeType? (session.facts.extends_setNodeType id ty) types⟩
  signed {other method} defines := by
    obtain ⟨declared, signature, resolved, known, untyped⟩ := regular.signed defines
    exact ⟨declared, signature, resolved, known, fun unknown =>
      untyped ((session.facts.extends_setNodeType id ty).nodeType?_eq_none unknown)⟩
  distinct := regular.distinct

theorem setArgumentTypes
    {id : NodeId} {list : ArgumentList NodeId} {types : List Ty}
    (regular : session.Regular tree classes)
    (found : tree.argumentsOf id = .ok list)
    (known : list.typed.mapM session.facts.nodeType? = some types) :
    { session with facts := session.facts.setArgumentTypes id types : Session σ }.Regular
      tree classes where
  toIntact := ⟨regular.arena, regular.unexpanded⟩
  catalog := regular.catalog
  lists {other others} listed := by
    by_cases kept : session.facts.argumentTypes? other = some others
    · exact regular.lists kept
    · have same : other = id := by
        by_contra different
        have before : session.facts.argumentTypes? other = some others := by
          rw [← listed]
          exact (Table.get?_insertIfNew_of_ne _ different types).symm
        exact kept before
      subst same
      cases earlier : session.facts.argumentTypes? other with
      | some old =>
          rw [(session.facts.extends_setArgumentTypes other types).argumentTypes earlier]
            at listed
          cases listed
          exact absurd earlier kept
      | none =>
          have stored : (session.facts.setArgumentTypes other types).argumentTypes? other =
              some types := Table.get?_insertIfNew_self earlier types
          rw [stored] at listed
          cases listed
          exact ⟨list, found, known⟩
  signed := regular.signed
  distinct := regular.distinct

theorem conclude
    (regular : session.Regular tree classes)
    {id : NodeId} (unknown : session.facts.nodeType? id = none) (ty : Ty) :
    { session with facts := session.facts.conclude id ty : Session σ }.Regular
      tree classes where
  toIntact := ⟨regular.arena, regular.unexpanded⟩
  catalog := regular.catalog
  lists known := by
    obtain ⟨list, found, types⟩ := regular.lists known
    exact ⟨list, found,
      Facts.Later.mapM_nodeType? (Facts.later_conclude unknown ty).toExtends types⟩
  signed {other method} defines := by
    obtain ⟨declared, signature, resolved, known, untyped⟩ := regular.signed defines
    have later := Facts.later_conclude unknown ty
    by_cases same : other = id
    · subst same
      obtain ⟨filled, kept, _⟩ := later.signatures known
      refine ⟨declared, filled, resolved, kept, ?_⟩
      intro still
      have stored : (session.facts.conclude other ty).nodeType? other = some ty :=
        Table.get?_insertIfNew_self unknown ty
      rw [stored] at still
      cases still
    · refine ⟨declared, signature, resolved, ?_, ?_⟩
      · rw [← known]
        exact Table.get?_insert_of_ne _ same _
      · intro still
        apply untyped
        rw [← still]
        exact (Table.get?_insertIfNew_of_ne _ same ty).symm
  distinct := regular.distinct

end Session.Regular

/-- The step ended for anything but a method with another number of types than of
parameters. -/
def Stop.isProper : Stop → Bool
  | .failed (.broken (.parameterCount ..)) => false
  | _ => true

theorem Stop.isProper_of_isOrdinary {stop : Stop} (ordinary : stop.isOrdinary = true) :
    stop.isProper = true := by
  unfold isProper
  split
  · cases ordinary
  · rfl

theorem Stop.isProper_of_not_isFault {stop : Stop} (driver : stop.isFault = false) :
    stop.isProper = true := by
  unfold isProper
  split
  · cases driver
  · rfl

/-- Something that a type says of its node, in sessions of a kind. -/
structure Judgement (σ : Type) where
  context : Session σ → Prop
  holds : NodeId → Ty → Facts → Prop

/-- Nothing that is learned takes the judgement back, and rules establish it. -/
structure Judgement.Established (judgement : Judgement σ) (setting : Setting σ)
    (tree : Arena) (classes : Catalog) : Prop where
  context : ∀ {before after}, before.Extends after → before.facts.Later after.facts →
    judgement.context before → judgement.context after
  later : ∀ {id ty before after}, before.Later after → judgement.holds id ty before →
    judgement.holds id ty after
  rule : ∀ {fuel id found ty before after}, before.Regular tree classes →
    judgement.context before → before.facts.nodeType? id = none →
    tree.find? id = some found → after.Intact tree →
    Returns (rule setting (node setting fuel) id found) before (some ty) after →
      judgement.holds id ty (after.facts.setNodeType id ty)

/-- A regular session in which the judgement holds of every node with a type. -/
structure Session.Judged (tree : Arena) (classes : Catalog) (judgement : Judgement σ)
    (session : Session σ) : Prop extends session.Regular tree classes where
  context : judgement.context session
  holds : ∀ {id ty}, session.facts.nodeType? id = some ty →
    judgement.holds id ty session.facts

section

variable {setting : Setting σ} {tree : Arena} {classes : Catalog}
  {judgement : Judgement σ} {session : Session σ}

namespace Session.Judged

theorem learn
    (established : judgement.Established setting tree classes)
    (judged : session.Judged tree classes judgement)
    {facts : Facts}
    (regular : { session with facts : Session σ }.Regular tree classes)
    (later : session.facts.Later facts)
    (fresh : ∀ {id ty}, facts.nodeType? id = some ty →
      session.facts.nodeType? id = some ty ∨ judgement.holds id ty facts) :
    { session with facts : Session σ }.Judged tree classes judgement where
  toRegular := regular
  context := established.context (.ofFacts later.toExtends) later judged.context
  holds known := by
    rcases fresh known with earlier | now
    · exact established.later later (judged.holds earlier)
    · exact now

theorem added
    (established : judgement.Established setting tree classes)
    (keyed : tree.Keyed)
    (judged : session.Judged tree classes judgement)
    {scriptClass : String} {catalog : Catalog} {facts : Facts}
    (added : Facts.Added scriptClass catalog session.facts facts) :
    { session with facts : Session σ }.Judged tree classes judgement := by
  apply judged.learn established (judged.toRegular.added added)
    (Facts.Added.later added (judged.arena ▸ keyed))
  intro id ty known
  left
  rw [Facts.nodeType?, (Facts.Learned.sameNodes (Facts.Added.learned added)).nodeTypes]
    at known
  exact known

theorem defer
    (established : judgement.Established setting tree classes)
    (judged : session.Judged tree classes judgement) (id : NodeId) :
    { session with worklist := session.worklist.push id : Session σ }.Judged tree classes
      judgement where
  toRegular := judged.toRegular.drive _ _ _
  context := established.context (.defer session id) (.refl _) judged.context
  holds := judged.holds

/-- The judgement holds of a node that takes a type. -/
theorem settle
    (established : judgement.Established setting tree classes)
    (judged : session.Judged tree classes judgement)
    {facts : Facts} {id : NodeId} {ty : Ty}
    (regular : { session with facts : Session σ }.Regular tree classes)
    (later : session.facts.Later facts)
    (others : ∀ {other}, other ≠ id → facts.nodeType? other = session.facts.nodeType? other)
    (here : ∀ {found}, facts.nodeType? id = some found →
      session.facts.nodeType? id = some found ∨ found = ty)
    (holds : judgement.holds id ty facts) :
    { session with facts : Session σ }.Judged tree classes judgement := by
  apply judged.learn established regular later
  intro other found known
  by_cases same : other = id
  · subst same
    refine (here known).imp_right ?_
    rintro rfl
    exact holds
  · exact .inl ((others same).symm.trans known)

end Session.Judged

namespace Infer

/-- Visits that add to what is known and answer with the type that the node has
then. -/
structure Faithful (infer : NodeId → Infer σ (Option Ty)) : Prop where
  adds : ∀ id, Relates Session.Extends (infer id)
  answers : ∀ {id before answer after}, Returns (infer id) before answer after →
    after.facts.nodeType? id = answer

theorem node_faithful
    (keeps : setting.expander.KeepsNodes) (fuel : Nat) :
    Faithful (node setting fuel) where
  adds := node_extends setting fuel
  answers := node_answers keeps

section

variable {infer : NodeId → Infer σ (Option Ty)}

theorem Faithful.adds_all
    (faithful : Faithful infer) (ids : List NodeId) :
    Relates Session.Extends (all infer ids) :=
  sequential_extends.all fun id _ => faithful.adds id

theorem Faithful.adds_optional
    (faithful : Faithful infer) (id : Option NodeId) :
    Relates Session.Extends (Infer.optional infer id) :=
  sequential_extends.optional fun child _ => faithful.adds child

theorem Faithful.adds_blockReady
    (faithful : Faithful infer) (closure : Option NodeId) :
    Relates Session.Extends (blockReady infer closure) :=
  sequential_extends.blockReady fun id _ => faithful.adds id

/-- The types of all nodes are the types that they have in the end. -/
theorem Faithful.all
    (faithful : Faithful infer) {ids : List NodeId} {types : List Ty}
    {before after : Session σ}
    (returned : Returns (all infer ids) before (some types) after) :
    ids.mapM after.facts.nodeType? = some types := by
  induction ids generalizing types before with
  | nil =>
      cases returned
      rfl
  | cons id rest ih =>
      obtain ⟨first, middle, visit, later⟩ := returns_bind.mp returned
      obtain ⟨others, collects, same⟩ := returns_map.mp later
      obtain ⟨ty, rfl, listed⟩ := Option.bind_eq_some_iff.mp same
      obtain ⟨others, rfl, rfl⟩ := Option.map_eq_some_iff.mp listed
      have here := (faithful.adds_all rest).returned collects |>.facts.nodeTypes
        (faithful.answers visit)
      rw [List.mapM_cons, here, ih collects]
      rfl

/-- A node that may be left out has the type of no value without it. -/
theorem Faithful.optional
    (faithful : Faithful infer) {id : Option NodeId} {before after : Session σ}
    {answer : Option Ty}
    (returned : Returns (optional infer id) before answer after) :
    after.facts.optionalType? id = answer := by
  cases id with
  | none =>
      cases returned
      rfl
  | some id => exact faithful.answers returned

/-- What was gathered of a method is what is known of its parameters, its body and
its class then; its signature was looked up once its class was bound. -/
theorem Faithful.gathered
    (faithful : Faithful infer) {id : NodeId} {method : Method NodeId} {known : Gathered}
    {before after : Session σ}
    (returned : Returns (gatherMethod setting infer id method) before (some known) after) :
    (after.facts.argumentTypes? method.arguments = some known.parameters ∧
      after.facts.optionalType? method.body = some known.bodyType ∧
      after.facts.definingClasses.get? id = some known.lexical) ∧
    ∃ delegated bound signed, Returns (delegationReady infer method) before true delegated ∧
      Returns (bindDefiningClass setting id) delegated known.lexical bound ∧
      Returns (signatureOf setting id method) bound known.signature signed ∧
      bound.Extends after := by
  have traversal : Traversal setting fun _ step => Relates Session.Extends step :=
    traversal_extends setting
  obtain ⟨delegated, bound, signed, listed, content, location, delegates, binds, resolves,
    lists, inside, last⟩ := returns_gatherMethod returned
  have signing : Relates Session.Extends (signatureOf setting id method) :=
    traversal.toBuilding.add (.signatureOf id method)
  have listing : Relates Session.Extends (Infer.argumentList infer method.arguments) :=
    traversal.argumentList (faithful.adds _)
  have visiting : Relates Session.Extends (Infer.optional infer method.body) :=
    traversal.optional fun child _ => faithful.adds child
  have binding : Relates Session.Extends
      (delegateBound id method known.lexical location) :=
    traversal.toBuilding.add (.delegateBound id method _ location)
  have final := binding.returned last
  have visited := (visiting.returned inside).trans final
  have gathered := ((signing.returned resolves).trans (listing.returned lists)).trans visited
  exact ⟨⟨visited.facts.argumentTypes (returns_argumentList lists),
    final.facts.optionalType? (faithful.optional inside),
    gathered.facts.definingClasses (bindDefiningClass_bound binds)⟩,
    delegated, bound, signed, delegates, binds, resolves, gathered⟩

end

/-- Announcing a method that has as many types as parameters stops for ordinary
faults alone. -/
theorem announce_ordinary
    (setting : Setting σ) {id : NodeId} {method : Method NodeId} {lexical : Ty}
    {signature : Signature} {parameters : List Ty} {bodyType : Ty} {location : Location}
    {session : Session σ} {stop : Stop}
    (fits : ∀ list, session.facts.arena.argumentsOf method.arguments = .ok list →
      parameters.length = list.typed.length)
    (stopped : ((announce id method lexical signature parameters bodyType location).run
      session).1 = .error stop) :
    stop.isOrdinary = true := by
  have learns : ∀ {stop}, ((learnPublished method lexical signature parameters bodyType
      location).run session).1 = .error stop → stop.isOrdinary = true := by
    intro stop stopped
    unfold learnPublished at stopped
    rw [run_bind, run_getArena] at stopped
    dsimp only at stopped
    cases found : session.facts.arena.argumentsOf method.arguments with
    | error cause =>
        rw [found, run_bind_of_error (run_ofTree_error cause session)] at stopped
        cases stopped
        exact session.facts.arena.argumentsOf_blamesTree _ found
    | ok list =>
        rw [found, run_bind, run_ofTree_ok] at stopped
        have count : parameters.length = _ :=
          (fits list found).trans (ArgumentLayout.length_typed list)
        have adds : AddStep setting (learnOverloads (.ofArguments list)
            (publishedMethod method lexical signature parameters bodyType list) location) :=
          .learnOverloads count location
        exact adds.answers stopped
  unfold announce at stopped
  rw [run_bind, run_getArena] at stopped
  dsimp only at stopped
  split at stopped
  · have compared : (isParent (effectiveReturn signature.returnType bodyType) bodyType :
        Infer σ Bool).run session = (.ok _, session) := rfl
    rw [run_bind, compared] at stopped
    dsimp only at stopped
    split at stopped
    · exact learns stopped
    · rw [run_bind_of_error (run_fail _ session)] at stopped
      cases stopped
      rfl
  · exact learns stopped

variable (established : judgement.Established setting tree classes)

include established

/-- What a rule answers is kept, or the node is deferred. -/
theorem remember_judged
    {id : NodeId} {answer : Option Ty} {session : Session σ}
    (judged : session.Judged tree classes judgement)
    (holds : ∀ {ty}, answer = some ty → judgement.holds id ty (session.facts.setNodeType id ty)) :
    UpholdsFrom session (Session.Judged tree classes judgement)
      (fun stop => stop.isProper = true) (remember id answer) := by
  cases answer with
  | none => exact .of_run rfl (judged.defer established id)
  | some ty =>
      apply UpholdsFrom.of_run (run_remember_some id ty session)
      apply judged.settle established (judged.toRegular.setNodeType id ty)
        (Facts.later_setNodeType _ id ty) _ _ (holds rfl)
      · intro other different
        exact Table.get?_insertIfNew_of_ne _ different ty
      · intro found known
        cases unknown : session.facts.nodeType? id with
        | some earlier =>
            left
            rw [← known]
            exact ((session.facts.extends_setNodeType id ty).nodeTypes unknown).symm
        | none =>
            right
            have stored : (session.facts.setNodeType id ty).nodeType? id = some ty :=
              Table.get?_insertIfNew_self unknown ty
            rw [known] at stored
            cases stored
            rfl

/-- A method that was announced has its slot filled and takes its type at once. -/
theorem fillGathered_judged
    {id : NodeId} {answer : Option Ty} {session : Session σ}
    (judged : session.Judged tree classes judgement)
    (unknown : session.facts.nodeType? id = none)
    (holds : ∀ {ty}, answer = some ty → judgement.holds id ty (session.facts.conclude id ty)) :
    UpholdsFrom session (Session.Judged tree classes judgement)
      (fun stop => stop.isProper = true) (fillGathered id answer >>= remember id) := by
  cases answer with
  | none => exact .of_run rfl (judged.defer established id)
  | some ty =>
      have stored : (session.facts.conclude id ty).nodeType? id = some ty :=
        Table.get?_insertIfNew_self unknown ty
      apply UpholdsFrom.of_run rfl
      apply judged.settle established (judged.toRegular.conclude unknown ty)
        (Facts.later_conclude unknown ty) _ _ (holds rfl)
      · intro other different
        exact Table.get?_insertIfNew_of_ne _ different ty
      · intro found known
        rw [known] at stored
        cases stored
        exact .inr rfl

variable (keyed : tree.Keyed)

include keyed

theorem judged_building :
    Building setting fun _ step => Upholds (Session.Judged tree classes judgement)
      (fun stop => stop.isProper = true) step where
  add adds session judged := by
    obtain ⟨facts, added, ended⟩ := adds.learns session
    refine ⟨?_, fun stopped => Stop.isProper_of_isOrdinary (adds.answers stopped)⟩
    rw [ended]
    exact judged.added established keyed added
  bind first second := first.bind second
  fewer upholds _ := upholds

/-- The types of a list of parameters are those of its parameters. -/
theorem arguments_judged
    {infer : NodeId → Infer σ (Option Ty)}
    (faithful : Faithful infer)
    (visits : ∀ child, Upholds (Session.Judged tree classes judgement)
      (fun stop => stop.isProper = true) (infer child))
    (id : NodeId) :
    Upholds (Session.Judged tree classes judgement) (fun stop => stop.isProper = true)
      (arguments infer id) := by
  have building := judged_building established keyed
  intro session judged
  rcases run_arguments infer id session with
    ⟨types, _, run⟩ | ⟨cause, refused, run⟩ | ⟨list, unlisted, found, run⟩
  · exact UpholdsFrom.of_run run judged
  · apply UpholdsFrom.of_stop run judged
    exact Stop.isProper_of_isOrdinary
      (session.facts.arena.argumentsOf_blamesTree id refused)
  · rw [run]
    have collects : UpholdsFrom session (Session.Judged tree classes judgement)
        (fun stop => stop.isProper = true) (Infer.all infer list.typed) :=
      building.all (fun child _ => visits child) judged
    apply collects.bind
    intro answer middle collected kept
    cases answer with
    | none => exact .of_run rfl kept
    | some types =>
        apply UpholdsFrom.of_run rfl
        have placed : tree.argumentsOf id = .ok list := judged.arena ▸ found
        exact kept.learn established
          (kept.toRegular.setArgumentTypes placed (faithful.all collected))
          (Facts.later_setArgumentTypes _ id types) fun known => .inl known

/-- A gathered method is announced with as many types as it has parameters. -/
theorem announceGathered_judged
    {infer : NodeId → Infer σ (Option Ty)}
    (faithful : Faithful infer)
    {id : NodeId} {method : Method NodeId} {known : Gathered} {before middle : Session σ}
    (gathered : Returns (gatherMethod setting infer id method) before (some known) middle)
    (judged : middle.Judged tree classes judgement) :
    UpholdsFrom middle (Session.Judged tree classes judgement)
      (fun stop => stop.isProper = true) (announceGathered id method (some known)) := by
  obtain ⟨⟨listed, _⟩, _⟩ := faithful.gathered gathered
  have fits : ∀ list, middle.facts.arena.argumentsOf method.arguments = .ok list →
      known.parameters.length = list.typed.length := fun list placed =>
    length_of_mapM_some (judged.types_of_argumentTypes? listed placed)
  have adding : FactStep setting _ Facts.Adds (announce id method known.lexical
      known.signature known.parameters known.bodyType known.location) :=
    announce_adds id method _ _ _ _ _
  have announces : UpholdsFrom middle (Session.Judged tree classes judgement)
      (fun stop => stop.isProper = true) (announce id method known.lexical known.signature
        known.parameters known.bodyType known.location) := by
    obtain ⟨facts, added, ended⟩ := adding.learns middle
    refine ⟨?_, fun stopped => Stop.isProper_of_isOrdinary (announce_ordinary setting fits stopped)⟩
    rw [ended]
    exact judged.added established keyed added
  exact announces.bind fun _ kept => .of_run rfl kept

section

variable (declines : setting.expander.Declines) {fuel : Nat}
  (visits : ∀ child, Upholds (Session.Judged tree classes judgement)
    (fun stop => stop.isProper = true) (node setting fuel child))
  {id : NodeId} {found : Node} {session : Session σ}
  (judged : session.Judged tree classes judgement)
  (unknown : session.facts.nodeType? id = none) (present : tree.find? id = some found)

include declines visits judged unknown present

/-- A method definition takes its type together with the announcement. -/
theorem methodRule_judged
    {method : Method NodeId} (kind : found.kind = .methodDefinition method) :
    UpholdsFrom session (Session.Judged tree classes judgement)
      (fun stop => stop.isProper = true)
      (rule setting (node setting fuel) id found >>= remember id) := by
  have keeps := declines.keepsNodes
  have building := judged_building established keyed
  have faithful : Faithful (node setting fuel) := node_faithful keeps fuel
  have unexpanded : session.facts.expansionOf? id = none := by
    rw [Facts.expansionOf?, judged.unexpanded]
    rfl
  have same := rule_of_methodDefinition setting (node setting fuel) id kind
  have gathering : UpholdsFrom session (Session.Judged tree classes judgement)
      (fun stop => stop.isProper = true)
      (gatherMethod setting (node setting fuel) id method) :=
    building.gatherMethod (fun child _ => visits child) judged
  rw [same, bind_assoc, bind_assoc]
  apply gathering.bind
  intro gathered middle gathers kept
  cases gathered with
  | none => exact .of_run rfl (kept.defer established id)
  | some known =>
      apply (announceGathered_judged established keyed faithful gathers kept).bind
      intro answer last announces announced
      cases answer with
      | none => exact .of_run rfl (announced.defer established id)
      | some ty =>
          have filled : Returns (rule setting (node setting fuel) id found) session (some ty)
              { last with facts := { last.facts with
                signatures := last.facts.signatures.setReturnType id ty } } := by
            rw [same]
            exact returns_bind.mpr ⟨some ty, last,
              returns_bind.mpr ⟨some known, middle, gathers, announces⟩, rfl⟩
          have free := untyped_of_rule keeps unknown unexpanded (judged.arena ▸ present) filled
          have intact : Session.Intact tree { last with facts := { last.facts with
              signatures := last.facts.signatures.setReturnType id ty } } :=
            ⟨announced.arena, announced.unexpanded⟩
          have holds := established.rule judged.toRegular judged.context unknown present intact
            filled
          apply fillGathered_judged established announced free
          rintro other ⟨⟩
          exact holds

/-- Every other node keeps what its rule answers. -/
theorem otherRule_judged
    (other : ∀ method, found.kind ≠ .methodDefinition method) :
    UpholdsFrom session (Session.Judged tree classes judgement)
      (fun stop => stop.isProper = true)
      (rule setting (node setting fuel) id found >>= remember id) := by
  have building := judged_building established keyed
  have faithful : Faithful (node setting fuel) := node_faithful declines.keepsNodes fuel
  have ruled : Upholds (Session.Judged tree classes judgement)
      (fun stop => stop.isProper = true) (rule setting (node setting fuel) id found) := by
    apply building.rule
    · intro method defines
      exact absurd defines (other method)
    · intro receiver name types
      exact building.read (.resolveCall declines id receiver name types)
    · intro list _
      exact arguments_judged established keyed faithful visits id
    · intro child _
      exact visits child
  have begun : UpholdsFrom session (Session.Judged tree classes judgement)
      (fun stop => stop.isProper = true) (rule setting (node setting fuel) id found) :=
    ruled judged
  apply begun.bind
  intro answer after returned kept
  apply remember_judged established kept
  rintro ty rfl
  exact established.rule judged.toRegular judged.context unknown present kept.toIntact
    returned

end

/-- Every visit leaves a judgement standing that rules establish. -/
theorem node_judged
    (declines : setting.expander.Declines) (fuel : Nat) :
    ∀ id, Upholds (Session.Judged tree classes judgement)
      (fun stop => stop.isProper = true) (node setting fuel id) := by
  refine node_upholds (fun judged => judged.toIntact) ?_ ?_ ?_ fuel
  · rfl
  · exact fun ordinary => Stop.isProper_of_isOrdinary ordinary
  · intro fuel id found session visits judged unknown present
    by_cases defines : ∃ method, found.kind = .methodDefinition method
    · obtain ⟨method, kind⟩ := defines
      exact methodRule_judged established keyed declines visits judged unknown present kind
    · push Not at defines
      exact otherRule_judged established keyed declines visits judged unknown present defines

end Infer

end

end DeferredTyping
