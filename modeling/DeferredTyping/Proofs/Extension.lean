import DeferredTyping.Proofs.Traversal

/-!
# Facts are only ever added

Whatever a visit does, and whether it ends with a value or not, the facts that
were known before are known afterwards.  `Facts.Extends` says so table by
table; nothing is said about the tree itself, which an expander may rebuild.
-/

namespace DeferredTyping

variable {σ : Type}

/-- Everything known before is known afterwards.  Of a signature only the
return slot may change. -/
structure Facts.Extends (before after : Facts) : Prop where
  nodeTypes : ∀ {id ty}, before.nodeType? id = some ty →
    after.nodeType? id = some ty
  argumentTypes : ∀ {id types}, before.argumentTypes? id = some types →
    after.argumentTypes? id = some types
  bindings : ∀ {scope name ty}, before.scopes.own? scope name = some ty →
    after.scopes.own? scope name = some ty
  signatures : ∀ {id signature}, before.signature? id = some signature →
    ∃ later, after.signature? id = some later ∧
      later.parameters = signature.parameters ∧ later.throws = signature.throws
  methods : before.methods.entries <+: after.methods.entries
  definingClasses : ∀ {id lexical}, before.definingClasses.get? id = some lexical →
    after.definingClasses.get? id = some lexical
  delegateTargets : ∀ {id target}, before.delegateTargets.get? id = some target →
    after.delegateTargets.get? id = some target

namespace Facts.Extends

theorem refl (facts : Facts) : facts.Extends facts where
  nodeTypes known := known
  argumentTypes known := known
  bindings known := known
  signatures known := ⟨_, known, rfl, rfl⟩
  methods := List.prefix_rfl
  definingClasses known := known
  delegateTargets known := known

theorem trans
    {first second third : Facts}
    (early : first.Extends second)
    (late : second.Extends third) :
    first.Extends third where
  nodeTypes known := late.nodeTypes (early.nodeTypes known)
  argumentTypes known := late.argumentTypes (early.argumentTypes known)
  bindings known := late.bindings (early.bindings known)
  signatures known := by
    obtain ⟨signature, between, parameters, throws⟩ := early.signatures known
    obtain ⟨later, known, sameParameters, sameThrows⟩ := late.signatures between
    exact ⟨later, known, sameParameters.trans parameters,
      sameThrows.trans throws⟩
  methods := early.methods.trans late.methods
  definingClasses known := late.definingClasses (early.definingClasses known)
  delegateTargets known := late.delegateTargets (early.delegateTargets known)

theorem nodeType?_eq_none
    {before after : Facts}
    (extended : before.Extends after)
    {id : NodeId} (unknown : after.nodeType? id = none) :
    before.nodeType? id = none := by
  cases known : before.nodeType? id with
  | none => rfl
  | some ty =>
      rw [extended.nodeTypes known] at unknown
      cases unknown

end Facts.Extends

namespace Facts

theorem Adds.extends
    {scriptClass : String} {catalog : Catalog} {before after : Facts}
    (adds : Facts.Adds scriptClass catalog before after) :
    before.Extends after := by
  cases adds with
  | definingClass free _ =>
      exact { Extends.refl before with
        definingClasses := fun known => Table.get?_insert_of_known free known }
  | @signature id declared signature free _ =>
      refine { Extends.refl before with signatures := ?_ }
      intro other earlier known
      exact ⟨earlier, Table.get?_insert_of_known free known, rfl, rfl⟩
  | «local» free =>
      exact { Extends.refl before with
        bindings := fun known => Scopes.own?_bind_of_known free known }
  | method success =>
      exact { Extends.refl before with
        methods := MethodTable.entries_prefix_of_learn success }
  | @delegateTarget id _ _ _ free _ =>
      have absent : before.delegateTargets.get? id = none := by
        simpa [Table.contains] using free
      exact { Extends.refl before with
        delegateTargets := fun known => Table.get?_insert_of_known absent known }

theorem Learns.extends
    {scriptClass : String} {catalog : Catalog} {before after : Facts}
    (learns : Facts.Learns scriptClass catalog before after) :
    before.Extends after := by
  cases learns with
  | adds added => exact added.extends
  | @returnType id ty =>
      refine { Extends.refl before with signatures := ?_ }
      intro other signature known
      by_cases same : other = id
      · subst same
        refine ⟨{ signature with returnType := some ty }, ?_, rfl, rfl⟩
        have present : before.signatures.get? other = some signature := known
        show (before.signatures.signatures.insert other _).get? other = _
        rw [present, Table.get?_insert_self]
        rfl
      · refine ⟨signature, ?_, rfl, rfl⟩
        rw [← known]
        exact Table.get?_insert_of_ne _ same _

theorem Learned.extends
    {scriptClass : String} {catalog : Catalog} {before after : Facts}
    (learned : Facts.Learned scriptClass catalog before after) :
    before.Extends after := by
  induction learned with
  | refl => exact Extends.refl before
  | tail _ last ih => exact ih.trans last.extends

theorem Added.extends
    {scriptClass : String} {catalog : Catalog} {before after : Facts}
    (added : Facts.Added scriptClass catalog before after) :
    before.Extends after :=
  Learned.extends (Added.learned added)

theorem extends_setNodeType
    (facts : Facts) (id : NodeId) (ty : Ty) :
    facts.Extends (facts.setNodeType id ty) :=
  { Extends.refl facts with
    nodeTypes := fun known => Table.get?_insertIfNew_of_get?_eq_some known ty }

theorem extends_setArgumentTypes
    (facts : Facts) (id : NodeId) (types : List Ty) :
    facts.Extends (facts.setArgumentTypes id types) :=
  { Extends.refl facts with
    argumentTypes := fun known =>
      Table.get?_insertIfNew_of_get?_eq_some known types }

end Facts

/-- A session that knows more.  What a pass is given stays as it is, and nodes are pushed
onto the worklist. -/
structure Session.Extends (before after : Session σ) : Prop where
  facts : before.facts.Extends after.facts
  catalog : after.catalog = before.catalog
  declaredConstructors : after.declaredConstructors = before.declaredConstructors
  lastChance : after.lastChance = before.lastChance
  passes : after.passes = before.passes
  worklist : before.worklist.Grows after.worklist

namespace Session.Extends

theorem refl (session : Session σ) : session.Extends session where
  facts := .refl session.facts
  catalog := rfl
  declaredConstructors := rfl
  lastChance := rfl
  passes := rfl
  worklist := .refl

theorem trans
    {first second third : Session σ}
    (early : first.Extends second)
    (late : second.Extends third) :
    first.Extends third where
  facts := early.facts.trans late.facts
  catalog := late.catalog.trans early.catalog
  declaredConstructors :=
    late.declaredConstructors.trans early.declaredConstructors
  lastChance := late.lastChance.trans early.lastChance
  passes := late.passes.trans early.passes
  worklist := early.worklist.trans late.worklist

theorem ofFacts
    {session : Session σ} {facts : Facts}
    (extended : session.facts.Extends facts) :
    session.Extends { session with facts } :=
  { refl session with facts := extended }

theorem defer (session : Session σ) (id : NodeId) :
    session.Extends { session with worklist := session.worklist.push id } :=
  { refl session with worklist := .push .refl id }

theorem queue {before after : Session σ} (extended : before.Extends after) :
    before.worklist.queue <+: after.worklist.queue :=
  extended.worklist.queue

end Session.Extends

namespace Infer

theorem sequential_extends :
    Sequential fun _ (step : Infer σ _) => Relates Session.Extends step where
  read reads session := by
    rw [reads.keeps session]
    exact .refl session
  bind first second := first.bind (fun _ _ _ => Session.Extends.trans) second
  fewer relates _ := relates

variable (setting : Setting σ)

theorem traversal_extends :
    Traversal setting fun _ step => Relates Session.Extends step :=
  .ofRelation (fun _ _ _ => Session.Extends.trans) fun learned => .ofFacts learned.extends

theorem remember_extends
    {step : Infer σ (Option Ty)}
    (visited : Relates Session.Extends step)
    (id : NodeId) :
    Relates Session.Extends (step >>= remember id) := by
  apply visited.bind (fun _ _ _ => Session.Extends.trans)
  intro answer middle
  cases answer with
  | some ty => exact .ofFacts (Facts.extends_setNodeType _ id ty)
  | none => exact .defer middle id

/-- An expander changes the tree and its own state alone. -/
theorem offer_extends (id : NodeId) (receiver : Ty) :
    Relates Session.Extends (offer setting id receiver) := by
  intro session
  exact { Session.Extends.refl session with
    facts := { Facts.Extends.refl session.facts with } }

theorem splice_extends (id expansion : NodeId) :
    Relates Session.Extends (splice id expansion : Infer σ Unit) := by
  intro session
  obtain ⟨arena, expansions, ended, _⟩ := run_splice id expansion session
  rw [ended]
  exact .ofFacts { Facts.Extends.refl session.facts with }

theorem keepArgumentTypes_extends
    {id : NodeId} (types : Option (List Ty)) :
    Relates Session.Extends (keepArgumentTypes id types : Infer σ _) := by
  intro session
  cases types with
  | none => exact .refl session
  | some types =>
      exact .ofFacts (Facts.extends_setArgumentTypes _ id types)

theorem rule_extends {infer : NodeId → Infer σ (Option Ty)}
    (visits : ∀ child, Relates Session.Extends (infer child)) (id : NodeId) (found : Node) :
    Relates Session.Extends (rule setting infer id found) := by
  have traversal := traversal_extends setting
  refine traversal.rule ?_ ?_ fun child _ => visits child
  · intro receiver name types
    exact traversal.resolveCall (offer_extends setting id receiver) (splice_extends id) visits
  · intro list _
    exact traversal.arguments visits keepArgumentTypes_extends

/-- Visiting a node only adds to what is known, also when the visit fails. -/
theorem node_extends (fuel : Nat) :
    ∀ id, Relates Session.Extends (node setting fuel id) := by
  refine node_relates .refl ?_ ?_ fuel
  · intro fuel id expansion session visits _
    exact remember_extends (visits expansion) id session
  · intro fuel id found session visits _ _
    exact remember_extends (rule_extends setting visits id found) id session

variable {setting}

theorem bindDefiningClass_bound
    {id : NodeId} {lexical : Ty} {before after : Session σ}
    (returned : Returns (bindDefiningClass setting id) before lexical after) :
    after.facts.definingClasses.get? id = some lexical := by
  unfold bindDefiningClass at returned
  obtain ⟨facts, middle, read, bound⟩ := returns_bind.mp returned
  obtain ⟨rfl, rfl⟩ := returns_getFacts.mp read
  cases known : before.facts.definingClasses.get? id with
  | some other =>
      rw [known] at bound
      obtain ⟨rfl, rfl⟩ := returns_pure.mp bound
      exact known
  | none =>
      rw [known] at bound
      obtain ⟨other, middle, stands, binds⟩ := returns_bind.mp bound
      obtain ⟨_, rfl⟩ := returns_ofTree.mp stands
      obtain ⟨_, kept, rfl⟩ := returns_map.mp binds
      cases returns_modifyFacts.mp kept
      exact Table.get?_insert_self _ _ _

/-- A method definition whose rule ends with a value knows its class. -/
theorem methodDefinition_bound
    {infer : NodeId → Infer σ (Option Ty)}
    (visits : ∀ id, Relates Session.Extends (infer id))
    {id : NodeId} {method : Method NodeId} {answer : Option Ty}
    {before after : Session σ}
    (returned : Returns (methodDefinition setting infer id method) before answer after) :
    ∃ lexical, after.facts.definingClasses.get? id = some lexical := by
  unfold methodDefinition at returned
  obtain ⟨location, _, _, delegated⟩ := returns_bind.mp returned
  obtain ⟨ready, _, _, binds⟩ := returns_bind.mp delegated
  obtain ⟨lexical, bound, binding, typed⟩ := returns_bind.mp binds
  have extended : Relates Session.Extends
      (methodInClass setting infer id method location ready lexical) :=
    (traversal_extends setting).methodInClass fun child _ => visits child
  have onward := extended bound
  rw [typed] at onward
  exact ⟨lexical, onward.facts.definingClasses (bindDefiningClass_bound binding)⟩

end Infer

end DeferredTyping
