import DeferredTyping.Proofs.Completeness
import DeferredTyping.Proofs.Reachable
import DeferredTyping.Proofs.Reentry

/-!
# What is known stays known

An operation on a typer keeps every fact that was known before it, whether it
fails or not and whatever the expander does.  Two tables take more than a look at
the way in which facts are added.  An expansion is recorded without a look at
what is recorded for the call, but only by the rule of a call that had none.  A
return slot is filled whatever it holds, but a slot that holds a type decides the
type of its method and is filled with the same type again.
-/

namespace DeferredTyping

variable {σ : Type}

theorem Expander.OnlyAdds.keepsNodes
    {expander : Expander σ} (adds : expander.OnlyAdds) :
    expander.KeepsNodes :=
  fun arena call receiver state => (adds arena call receiver state).kept

theorem Catalog.arrayOf_completes
    (depth : Nat) {ty : Ty} (completes : ty.isUnreachable = false) :
    (Catalog.arrayOf depth ty).isUnreachable = false := by
  cases depth with
  | zero => exact completes
  | succ depth => rfl

/-- No written name stands for the type of what never completes. -/
theorem Catalog.resolve_completes
    {catalog : Catalog} {name : String} {ty : Ty}
    (resolved : catalog.resolve name = some ty) :
    ty.isUnreachable = false := by
  unfold Catalog.resolve at resolved
  obtain ⟨element, found, rfl⟩ := Option.map_eq_some_iff.mp resolved
  apply Catalog.arrayOf_completes
  cases Catalog.standsFor_of_resolveElement found with
  | void | primitive _ | object _ => rfl

theorem Catalog.resolveSignature_completes
    {catalog : Catalog} {declared : DeclaredSignature} {signature : Signature} {ty : Ty}
    (resolved : catalog.resolveSignature declared = .ok signature)
    (returns : signature.returnType = some ty) :
    ty.isUnreachable = false := by
  obtain ⟨text, _, stands⟩ := (written_of_resolveSignature resolved).2 returns
  exact resolve_completes stands

/-- Every type that a method takes completes. -/
theorem Infer.effectiveReturn_completes (declared : Option Ty) (bodyType : Ty) :
    (effectiveReturn declared bodyType).isUnreachable = false := by
  unfold effectiveReturn
  dsimp only
  split
  · rfl
  · rename_i completes
    simpa using completes

theorem Infer.effectiveReturn_of_declared
    {declared : Ty} (completes : declared.isUnreachable = false) (bodyType : Ty) :
    effectiveReturn (some declared) bodyType = declared := by
  simp [effectiveReturn, completes]

namespace Facts

/-- What the return slot of a method definition holds. -/
def returnType? (facts : Facts) (id : NodeId) : Option Ty :=
  (facts.signature? id).bind Signature.returnType

/-- Every type in a return slot completes. -/
def Completing (facts : Facts) : Prop :=
  ∀ {id ty}, facts.returnType? id = some ty → ty.isUnreachable = false

/-- Expansions and filled return slots stay as they are, the expansions of some
nodes aside. -/
structure Retains (aside : NodeId → Prop) (before after : Facts) : Prop where
  expansions : ∀ {id expansion}, ¬ aside id → before.Expands id expansion →
    after.Expands id expansion
  completing : before.Completing → after.Completing
  returnTypes : before.Completing → ∀ {id ty}, before.returnType? id = some ty →
    after.returnType? id = some ty

namespace Retains

variable {aside : NodeId → Prop}

/-- Neither expansions nor signatures change. -/
theorem ofSame
    {before after : Facts}
    (expansions : after.expansions = before.expansions)
    (signatures : after.signatures = before.signatures) :
    before.Retains aside after where
  expansions _ known := by rwa [Expands, expansionOf?, expansions]
  completing completing {id ty} known := by
    rw [returnType?, signature?, signatures] at known
    exact completing known
  returnTypes _ {id ty} known := by rwa [returnType?, signature?, signatures]

theorem refl (facts : Facts) : facts.Retains aside facts :=
  .ofSame rfl rfl

theorem trans
    {first second third : Facts}
    (early : first.Retains aside second)
    (late : second.Retains aside third) :
    first.Retains aside third where
  expansions outside known := late.expansions outside (early.expansions outside known)
  completing completing := late.completing (early.completing completing)
  returnTypes completing _ _ known :=
    late.returnTypes (early.completing completing) (early.returnTypes completing known)

theorem mono
    {wider : NodeId → Prop} {before after : Facts}
    (retains : before.Retains aside after)
    (included : ∀ {id}, aside id → wider id) :
    before.Retains wider after where
  expansions outside known :=
    retains.expansions (fun inside => outside (included inside)) known
  completing := retains.completing
  returnTypes := retains.returnTypes

end Retains

theorem returnType?_insert_self
    (facts : Facts) (id : NodeId) (signature : Signature) :
    { facts with signatures := facts.signatures.insert id signature }.returnType? id =
      signature.returnType := by
  have stored : (facts.signatures.insert id signature).get? id = some signature :=
    Table.get?_insert_self _ _ _
  simp only [returnType?, signature?, stored, Option.bind_some]

theorem returnType?_insert_of_ne
    (facts : Facts) {id other : NodeId} (different : other ≠ id) (signature : Signature) :
    { facts with signatures := facts.signatures.insert id signature }.returnType? other =
      facts.returnType? other := by
  have stored : (facts.signatures.insert id signature).get? other =
      facts.signatures.get? other := Table.get?_insert_of_ne _ different _
  simp only [returnType?, signature?, stored]

/-- A return slot that is empty, or holds the same already, takes a type. -/
theorem Retains.insert
    {aside : NodeId → Prop} {before middle : Facts} {id : NodeId} {signature : Signature}
    (retains : before.Retains aside middle)
    (completes : ∀ {ty}, signature.returnType = some ty → ty.isUnreachable = false)
    (same : before.Completing → ∀ {ty}, before.returnType? id = some ty →
      signature.returnType = some ty) :
    before.Retains aside { middle with
      signatures := middle.signatures.insert id signature } where
  expansions := retains.expansions
  completing completing {other ty} known := by
    by_cases here : other = id
    · subst here
      rw [returnType?_insert_self] at known
      exact completes known
    · rw [returnType?_insert_of_ne _ here] at known
      exact retains.completing completing known
  returnTypes completing {other ty} known := by
    by_cases here : other = id
    · subst here
      rw [returnType?_insert_self]
      exact same completing known
    · rw [returnType?_insert_of_ne _ here]
      exact retains.returnTypes completing known

theorem Adds.retains
    {aside : NodeId → Prop} {scriptClass : String} {catalog : Catalog}
    {before after : Facts}
    (adds : Facts.Adds scriptClass catalog before after) :
    before.Retains aside after := by
  cases adds with
  | signature free resolved =>
      apply (Retains.refl before).insert
      · exact Catalog.resolveSignature_completes resolved
      · intro _ ty known
        rw [returnType?, free] at known
        cases known
  | definingClass _ _ | «local» _ | method _ | delegateTarget _ _ => exact .ofSame rfl rfl

theorem Added.retains
    {aside : NodeId → Prop} {scriptClass : String} {catalog : Catalog}
    {before after : Facts}
    (added : Facts.Added scriptClass catalog before after) :
    before.Retains aside after := by
  induction added with
  | refl => exact .refl before
  | tail _ last ih => exact ih.trans last.retains

end Facts

namespace Infer

/-- The step retains expansions and return slots, the expansions of some nodes
aside. -/
abbrev Retaining (aside : NodeId → Prop) {α : Type} (step : Infer σ α) : Prop :=
  Relates (fun before after => before.facts.Retains aside after.facts) step

variable {setting : Setting σ} {aside : NodeId → Prop}
  {infer : NodeId → Infer σ (Option Ty)}

theorem building_retaining (setting : Setting σ) :
    Building setting fun _ step => Retaining aside step :=
  .ofRelation (fun _ _ _ => Facts.Retains.trans) fun added => Facts.Added.retains added

theorem announceGathered_retaining
    (setting : Setting σ) (id : NodeId) (method : Method NodeId)
    (gathered : Option Gathered) :
    Retaining aside (announceGathered id method gathered : Infer σ _) := by
  cases gathered with
  | none => exact fun session => .refl session.facts
  | some known =>
      have announces : Retaining aside (announce id method known.lexical known.signature
          known.parameters known.bodyType known.location : Infer σ Unit) := by
        intro session
        have adding : FactStep setting _ Facts.Adds (announce id method known.lexical
            known.signature known.parameters known.bodyType known.location) :=
          announce_adds id method _ _ _ _ _
        obtain ⟨facts, added, ended⟩ := adding.learns session
        rw [ended]
        exact Facts.Added.retains added
      exact announces.bind (fun _ _ _ => Facts.Retains.trans) fun _ session =>
        .refl session.facts

/-- When the return slot of a method is filled before it is gathered, its
signature is read with that type. -/
theorem signature_of_gatherMethod
    (visits : ∀ child, Retaining aside (infer child))
    {id : NodeId} {method : Method NodeId} {known : Gathered} {before after : Session σ}
    {ty : Ty}
    (completing : before.facts.Completing)
    (filled : before.facts.returnType? id = some ty)
    (returned : Returns (gatherMethod setting infer id method) before (some known) after) :
    known.signature.returnType = some ty := by
  have building : Building setting fun _ step => Retaining aside step :=
    building_retaining setting
  obtain ⟨delegated, bound, signed, _, _, _, delegates, binds, resolves, _⟩ :=
    returns_gatherMethod returned
  have visited : Retaining aside (delegationReady infer method) :=
    building.delegationReady fun child _ => visits child
  have binding : Retaining aside (bindDefiningClass setting id) :=
    building.add (.bindDefiningClass id)
  have onward := (visited.returned delegates).trans (binding.returned binds)
  have slot := onward.returnTypes completing filled
  rcases returns_signatureOf resolves with ⟨stored, _⟩ | ⟨missing, _⟩
  · rwa [Facts.returnType?, stored] at slot
  · rw [Facts.returnType?, missing] at slot
    cases slot

theorem methodDefinition_retaining
    (visits : ∀ child, Retaining aside (infer child))
    (id : NodeId) (method : Method NodeId) :
    Retaining aside (methodDefinition setting infer id method) := by
  have building : Building setting fun _ step => Retaining aside step :=
    building_retaining setting
  have announced : Retaining aside
      (gatherMethod setting infer id method >>= announceGathered id method) :=
    Relates.bind (building.gatherMethod fun child _ => visits child)
      (fun _ _ _ => Facts.Retains.trans) (announceGathered_retaining setting id method)
  rw [methodDefinition_eq]
  intro session
  have retains := announced session
  rw [run_bind]
  rcases run : (gatherMethod setting infer id method >>= announceGathered id method).run
    session with ⟨answer, middle⟩
  rw [run] at retains
  rcases answer with stop | _ | returnType
  · exact retains
  · exact retains
  · obtain ⟨gathered, _, gathers, announces⟩ := returns_bind.mp run
    cases gathered with
    | none => cases (returns_pure.mp announces).1
    | some known =>
        obtain ⟨_, _, _, finishes⟩ := returns_bind.mp announces
        obtain ⟨same, _⟩ := returns_pure.mp finishes
        cases same
        refine retains.insert ?_ ?_
        · rintro ty ⟨⟩
          exact effectiveReturn_completes _ _
        · intro completing ty filled
          have declared := signature_of_gatherMethod visits completing filled gathers
          rw [declared, effectiveReturn_of_declared (completing filled)]

/-- A rule retains the expansions of all nodes but its own. -/
theorem rule_retaining
    {id : NodeId} {node : Node}
    (visits : ∀ child, Retaining (fun _ => False) (infer child)) :
    Retaining (fun other => other = id) (rule setting infer id node) := by
  have building : Building setting fun _ step => Retaining (fun other => other = id) step :=
    building_retaining setting
  have inner : ∀ child, Retaining (fun other => other = id) (infer child) :=
    fun child session => (visits child session).mono False.elim
  refine building.rule ?_ ?_ ?_ fun child _ => inner child
  · intro method _
    exact methodDefinition_retaining inner id method
  · intro receiver name types
    refine building.resolveCall ?_ ?_ inner
    · intro session
      exact .ofSame rfl rfl
    · intro expansion session
      obtain ⟨arena, expansions, ended, others⟩ := run_splice id expansion session
      rw [ended]
      have retains : session.facts.Retains (fun other => other = id) session.facts := .refl _
      refine { retains with expansions := ?_ }
      intro other found outside known
      rwa [Facts.Expands, Facts.expansionOf?, others outside]
  · intro list _
    refine building.arguments inner ?_
    intro types session
    cases types <;> exact .ofSame rfl rfl

/-- A visit retains all expansions and all return slots. -/
theorem node_retaining (fuel : Nat) :
    ∀ id, Retaining (fun _ => False) (node setting fuel id) := by
  have remembers : ∀ {aside : NodeId → Prop} (id : NodeId) (answer : Option Ty),
      Retaining aside (remember id answer : Infer σ _) := by
    intro aside id answer session
    cases answer <;> exact .ofSame rfl rfl
  refine node_relates (fun session => .refl session.facts) ?_ ?_ fuel
  · intro fuel id expansion session visits _
    exact (visits expansion).bind (fun _ _ _ => Facts.Retains.trans) (remembers id) session
  · intro fuel id found session visits unexpanded _
    have rules : Retaining (fun other => other = id)
        (rule setting (node setting fuel) id found >>= remember id) :=
      Relates.bind (rule_retaining visits) (fun _ _ _ => Facts.Retains.trans) (remembers id)
    have retains := rules session
    refine { retains with expansions := ?_ }
    intro other expansion _ known
    apply retains.expansions ?_ known
    rintro rfl
    rw [Facts.Expands, unexpanded] at known
    cases known

/-- A node that a visit answered for has a type. -/
theorem typed_of_node
    {fuel : Nat} {before after : Session σ} {id : NodeId} {ty : Ty}
    (returned : Returns (node setting fuel id) before (some ty) after) :
    ∃ kept, after.facts.nodeType? id = some kept := by
  have remembered : ∀ {middle : Session σ} {inferred : Option Ty},
      Returns (remember id inferred) middle (some ty) after →
        ∃ kept, after.facts.nodeType? id = some kept := by
    intro middle inferred kept
    cases inferred with
    | none => cases (returns_remember_none.mp kept).1
    | some inferred =>
        obtain ⟨_, rfl⟩ := returns_remember_some.mp kept
        exact Table.contains_eq_true_iff.mp (Table.contains_insertIfNew_self _ _ _)
  cases fuel with
  | zero => cases returned
  | succ fuel =>
      rcases returns_node returned with
        ⟨kept, known, _, rfl⟩ | ⟨_, _, _, _, _, _, kept⟩ | ⟨_, _, _, _, _, _, _, kept⟩
      · exact ⟨kept, known⟩
      · exact remembered kept
      · exact remembered kept

end Infer

namespace Facts

/-- Every fact of the first is a fact of the second: lists of overloads are longer
at their ends at most, and return slots are filled at most. -/
structure KeptBy (before after : Facts) : Prop where
  nodeTypes : ∀ {id ty}, before.nodeType? id = some ty → after.nodeType? id = some ty
  argumentTypes : ∀ {id types}, before.argumentTypes? id = some types →
    after.argumentTypes? id = some types
  bindings : ∀ {scope name ty}, before.scopes.own? scope name = some ty →
    after.scopes.own? scope name = some ty
  definingClasses : ∀ {id lexical}, before.definingClasses.get? id = some lexical →
    after.definingClasses.get? id = some lexical
  delegateTargets : ∀ {id target}, before.delegateTargets.get? id = some target →
    after.delegateTargets.get? id = some target
  expansions : ∀ {id expansion}, before.expansionOf? id = some expansion →
    after.expansionOf? id = some expansion
  overloads : ∀ definingClass name,
    before.methods.overloads definingClass name <+: after.methods.overloads definingClass name
  signatures : ∀ {id signature}, before.signature? id = some signature →
    ∃ later, after.signature? id = some later ∧
      later.parameters = signature.parameters ∧ later.throws = signature.throws ∧
      ∀ {ty}, signature.returnType = some ty → later.returnType = some ty

theorem Extends.keptBy
    {before after : Facts}
    (extended : before.Extends after)
    (retains : before.Retains (fun _ => False) after)
    (completing : before.Completing) :
    before.KeptBy after where
  nodeTypes := extended.nodeTypes
  argumentTypes := extended.argumentTypes
  bindings := extended.bindings
  definingClasses := extended.definingClasses
  delegateTargets := extended.delegateTargets
  expansions := retains.expansions id
  overloads definingClass name := extended.methods.filter _
  signatures {id signature} known := by
    obtain ⟨later, kept, parameters, throws⟩ := extended.signatures known
    refine ⟨later, kept, parameters, throws, ?_⟩
    intro ty filled
    have slot : before.returnType? id = some ty := by
      rw [returnType?, known]
      exact filled
    have still := retains.returnTypes completing slot
    rwa [returnType?, kept] at still

end Facts

namespace Typer

open Infer

variable (typer : Typer σ)

theorem respects_retains :
    typer.Respects fun before after => before.facts.Retains (fun _ => False) after.facts where
  trans _ _ _ := Facts.Retains.trans
  drives session _ _ _ := .refl session.facts
  registers session := by
    rcases registers : typer.registerTypes.run session with ⟨answer, after⟩
    obtain ⟨catalog, declaredConstructors, facts, added, rfl, _⟩ :=
      typer.registerTypes_added registers
    exact Facts.Added.retains added
  visits id session := by
    rw [run_infer]
    exact node_retaining _ id session
  keeps id types session := by
    cases types <;> exact .ofSame rfl rfl
  adds adds := (building_retaining typer.setting).add adds

theorem respects_extends :
    typer.Respects fun before after => before.facts.Extends after.facts where
  trans _ _ _ := Facts.Extends.trans
  drives session _ _ _ := .refl session.facts
  registers session := by
    rcases registers : typer.registerTypes.run session with ⟨answer, after⟩
    obtain ⟨catalog, declaredConstructors, facts, added, rfl, _⟩ :=
      typer.registerTypes_added registers
    exact Facts.Added.extends added
  visits id session := (typer.infer_extends id session).facts
  keeps id types session := (keepArgumentTypes_extends types session).facts
  adds adds session := ((traversal_extends typer.setting).own adds.own session).facts

variable {typer}

/-- In every session that is reached, types in return slots complete. -/
theorem Reachable.completing
    {arena : Arena} {catalog : Catalog} {state : σ} {session : Session σ}
    (reached : typer.Reachable arena catalog state session) :
    session.facts.Completing := by
  induction reached with
  | start =>
      intro id ty known
      cases known
  | step _ operation completing =>
      exact (typer.respects_retains.perform _ operation).completing completing

/-- A node with a type is not visited again. -/
theorem run_infer_of_typed
    {session : Session σ} {id : NodeId} {ty : Ty}
    (known : session.facts.nodeType? id = some ty) :
    (typer.infer id).run session = (.ok (some ty), session) := by
  rw [run_infer]
  simp [node, run_bind, known]

/-- An expansion of `boom` in the body of node 2: a constructor with that very body,
whose leading call is split off when the constructor is built. -/
def splittingRule : ExpansionRule where
  callName := some "boom"
  template := .node none false (.block
    (.node none false (.arguments {
      block := some (.constructor none {} .noArguments (some (.ref (.node 2)))) }))
    (some (.ref (.node 2))))

def splitting : Typer ExpansionRules where
  expander := ExpansionRules.expander [splittingRule]

/-- A script that calls `initialize` with the answer of `boom`. -/
def delegatingScript : Arena where
  nodes := ⟨[
    (1, { id := 1, parent := none, location := {}, kind := .script "" (some 2) }),
    (2, { id := 2, parent := some 1, location := {}, kind := .body [3] }),
    (3, { id := 3, parent := some 2, location := {},
          kind := .functionalCall "initialize" [4] none }),
    (4, { id := 4, parent := some 3, location := {},
          kind := .functionalCall "boom" [] none })]⟩
  nextId := 5

/-- The class of scripts has a library method `initialize`. -/
def initializing : Catalog :=
  Catalog.builtin.withMethod {
    owner := (Ty.object "Script").toMeta, name := "initialize"
    parameters := [.void], returnType := .int }

def delegatingStart : Session ExpansionRules :=
  start delegatingScript initializing (.ofList [splittingRule])

end Typer

end DeferredTyping
