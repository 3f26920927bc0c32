import DeferredTyping.Proofs.Extension
import DeferredTyping.Proofs.Joins
import DeferredTyping.Proofs.Overloads
import DeferredTyping.Proofs.Resolution

/-!
# What a step did when it answered

A step that ends with a value took one way through its definition.  The
theorems below name that way for the steps that look up, learn or decide
something: which visits were made in between, what was found and what the
session is afterwards.  Arguments about answers start from them and never
unfold a rule.
-/

namespace DeferredTyping

variable {σ : Type}

open Infer

namespace Catalog

variable {catalog : Catalog}

/-- The types of a signature are what the written ones stand for. -/
theorem written_of_resolveSignature
    {declared : DeclaredSignature} {signature : Signature}
    (resolved : catalog.resolveSignature declared = .ok signature) :
    (∀ {name ty}, signature.parameter? name = some ty →
      ∃ text ∈ declared.texts, catalog.resolve text = some ty) ∧
    ∀ {ty}, signature.returnType = some ty →
      ∃ text ∈ declared.texts, catalog.resolve text = some ty := by
  have resolves := catalog.resolves_resolveSignature declared
  rw [resolved] at resolves
  have agrees := resolves.of_ok
  constructor
  · intro name ty found
    obtain ⟨text, last, stands⟩ := agrees.parameters.mp found
    exact ⟨text, DeclaredSignature.mem_texts_of_lastParameter? last, stands⟩
  · intro ty returned
    have written := agrees.returns
    rw [returned, Option.map_some, eq_comm, Option.map_eq_some_iff] at written
    obtain ⟨text, stated, stands⟩ := written
    refine ⟨text, ?_, stands⟩
    simp [DeclaredSignature.texts, stated]

end Catalog

theorem ReadStep.after_eq
    {α : Type} {step : Infer σ α} {before after : Session σ} {value : α}
    (reads : ReadStep step)
    (returned : Returns step before value after) :
    after = before := by
  have kept := reads.keeps before
  rwa [returned] at kept

theorem FactStep.changed
    {α : Type} {setting : Setting σ} {accepts : Stop → Prop}
    {changes : String → Catalog → Facts → Facts → Prop} {step : Infer σ α}
    {before after : Session σ} {value : α}
    (known : FactStep setting accepts changes step)
    (returned : Returns step before value after) :
    Relation.ReflTransGen (changes setting.scriptClass before.catalog) before.facts
        after.facts ∧
      after = { before with facts := after.facts } := by
  obtain ⟨facts, changed, ended⟩ := known.learns before
  rw [returned] at ended
  cases ended
  exact ⟨changed, rfl⟩

theorem AddStep.added
    {α : Type} {setting : Setting σ} {step : Infer σ α} {before after : Session σ}
    {value : α}
    (adds : AddStep setting step)
    (returned : Returns step before value after) :
    Facts.Added setting.scriptClass before.catalog before.facts after.facts ∧
      after = { before with facts := after.facts } :=
  adds.changed returned

namespace Infer

variable {setting : Setting σ} {infer : NodeId → Infer σ (Option Ty)}
  {before after : Session σ} {id : NodeId}

/-- The owner of the name accepts the new type, or nobody owned the name. -/
theorem returns_learnLocal
    {scope : NodeId} {name : String} {ty bound : Ty} {location : Location}
    (returned : Returns (learnLocal scope name ty location) before bound after) :
    (before.facts.scopes.own?
        (before.facts.scopes.owner before.facts.arena scope name) name = some bound ∧
      (bound = ty ∨ before.catalog.isParent bound ty = true) ∧ after = before) ∨
    (before.facts.scopes.own?
        (before.facts.scopes.owner before.facts.arena scope name) name = none ∧
      bound = ty ∧ after = { before with facts := { before.facts with
        scopes := before.facts.scopes.bind
          (before.facts.scopes.owner before.facts.arena scope name) name ty } }) := by
  unfold learnLocal at returned
  obtain ⟨session, _, read, learned⟩ := returns_bind.mp returned
  obtain ⟨rfl, rfl⟩ := returns_get.mp read
  dsimp only at learned
  split at learned
  · rename_i existing known
    split at learned
    · rename_i accepted
      obtain ⟨rfl, rfl⟩ := returns_pure.mp learned
      refine .inl ⟨known, ?_, rfl⟩
      simpa using accepted
    · exact absurd learned returns_fail
  · rename_i free
    obtain ⟨_, _, bind, kept⟩ := returns_bind.mp learned
    obtain rfl := returns_modifyFacts.mp bind
    obtain ⟨rfl, rfl⟩ := returns_pure.mp kept
    exact .inr ⟨free, rfl, rfl⟩

theorem returns_learnMethod
    {method : MethodType} {ty : Ty} {location : Location}
    (returned : Returns (learnMethod method location) before ty after) :
    ∃ methods, before.facts.methods.learn method = .ok methods ∧
      ty = method.returnType ∧
      after = { before with facts := { before.facts with methods } } := by
  unfold learnMethod at returned
  obtain ⟨facts, _, read, learned⟩ := returns_bind.mp returned
  obtain ⟨rfl, rfl⟩ := returns_getFacts.mp read
  split at learned
  · rename_i methods success
    obtain ⟨_, _, stored, kept⟩ := returns_bind.mp learned
    obtain rfl := returns_modifyFacts.mp stored
    obtain ⟨rfl, rfl⟩ := returns_pure.mp kept
    exact ⟨methods, success, rfl, rfl⟩
  · exact absurd learned returns_fail

/-- The class is bound already, or it is read off the tree. -/
theorem returns_bindDefiningClass
    {lexical : Ty}
    (returned : Returns (bindDefiningClass setting id) before lexical after) :
    (before.facts.definingClasses.get? id = some lexical ∧ after = before) ∨
    (before.facts.definingClasses.get? id = none ∧
      before.facts.arena.lexicalClass setting.scriptClass id = .ok lexical ∧
      after = { before with facts := { before.facts with
        definingClasses := before.facts.definingClasses.insert id lexical } }) := by
  unfold bindDefiningClass at returned
  obtain ⟨facts, _, read, bound⟩ := returns_bind.mp returned
  obtain ⟨rfl, rfl⟩ := returns_getFacts.mp read
  split at bound
  · rename_i other known
    obtain ⟨rfl, rfl⟩ := returns_pure.mp bound
    exact .inl ⟨known, rfl⟩
  · rename_i unknown
    obtain ⟨other, _, found, binds⟩ := returns_bind.mp bound
    obtain ⟨stands, rfl⟩ := returns_ofTree.mp found
    obtain ⟨_, _, kept, named⟩ := returns_bind.mp binds
    obtain rfl := returns_modifyFacts.mp kept
    obtain ⟨rfl, rfl⟩ := returns_pure.mp named
    exact .inr ⟨unknown, stands, rfl⟩

/-- The signature is resolved already, or it is resolved and published now. -/
theorem returns_signatureOf
    {method : Method NodeId} {signature : Signature}
    (returned : Returns (signatureOf setting id method) before signature after) :
    (before.facts.signature? id = some signature ∧ after = before) ∨
    (before.facts.signature? id = none ∧
      before.catalog.resolveSignature method.declared = .ok signature ∧
      ∃ location, Returns (registerDeclared setting id method signature location)
        { before with facts := { before.facts with
          signatures := before.facts.signatures.insert id signature } } () after) := by
  unfold signatureOf at returned
  obtain ⟨facts, _, read, looked⟩ := returns_bind.mp returned
  obtain ⟨rfl, rfl⟩ := returns_getFacts.mp read
  split at looked
  · rename_i known
    obtain ⟨rfl, rfl⟩ := returns_pure.mp looked
    exact .inl ⟨known, rfl⟩
  · rename_i unknown
    obtain ⟨location, _, place, placed⟩ := returns_bind.mp looked
    obtain rfl := (ReadStep.locationOf id).after_eq place
    obtain ⟨session, _, get, resolves⟩ := returns_bind.mp placed
    obtain ⟨rfl, rfl⟩ := returns_get.mp get
    split at resolves
    · exact absurd resolves returns_fail
    · rename_i resolved success
      obtain ⟨_, _, stored, publishes⟩ := returns_bind.mp resolves
      obtain rfl := returns_modifyFacts.mp stored
      obtain ⟨_, _, registers, kept⟩ := returns_bind.mp publishes
      obtain ⟨rfl, rfl⟩ := returns_pure.mp kept
      exact .inr ⟨unknown, success, location, registers⟩

/-- A parameter of a method has the type that the method's signature gives it,
if any; a parameter of a block has none. -/
theorem returns_declaredType?
    {argument : NodeId} {name : String} {declared : Option Ty}
    (returned : Returns (declaredType? setting argument name) before declared after) :
    (before.facts.arena.owningMethod? argument = .ok none ∧ declared = none ∧
      after = before) ∨
    ∃ owner method signature,
      before.facts.arena.owningMethod? argument = .ok (some (owner, method)) ∧
      Returns (signatureOf setting owner method) before signature after ∧
      declared = signature.parameter? name := by
  unfold declaredType? at returned
  obtain ⟨tree, _, read, owned⟩ := returns_bind.mp returned
  obtain ⟨rfl, rfl⟩ := returns_getArena.mp read
  obtain ⟨owner, _, found, asked⟩ := returns_bind.mp owned
  obtain ⟨owns, rfl⟩ := returns_ofTree.mp found
  cases owner with
  | none =>
      obtain ⟨rfl, rfl⟩ := returns_pure.mp asked
      exact .inl ⟨owns, rfl, rfl⟩
  | some owner =>
      obtain ⟨signature, looked, rfl⟩ := returns_map.mp asked
      exact .inr ⟨owner.1, owner.2, signature, owns, looked, rfl⟩

theorem returns_localAssignment
    {name : String} {value : NodeId} {location : Location} {answer : Option Ty}
    (returned : Returns (localAssignment infer id name value location) before answer after) :
    ∃ given middle, Returns (infer value) before given middle ∧
      ((given = none ∧ answer = none ∧ after = middle) ∨
        ∃ valueType scope ty, given = some valueType ∧
          middle.facts.arena.scopeOf id = .ok scope ∧
          Returns (learnLocal scope name valueType location) middle ty after ∧
          answer = some ty) := by
  unfold localAssignment at returned
  obtain ⟨given, middle, visit, assigned⟩ := returns_bind.mp returned
  refine ⟨given, middle, visit, ?_⟩
  cases given with
  | none =>
      obtain ⟨rfl, rfl⟩ := returns_pure.mp assigned
      exact .inl ⟨rfl, rfl, rfl⟩
  | some valueType =>
      obtain ⟨tree, _, read, looked⟩ := returns_bind.mp assigned
      obtain ⟨rfl, rfl⟩ := returns_getArena.mp read
      obtain ⟨scope, _, found, binds⟩ := returns_bind.mp looked
      obtain ⟨stands, rfl⟩ := returns_ofTree.mp found
      obtain ⟨ty, learned, rfl⟩ := returns_map.mp binds
      exact .inr ⟨valueType, scope, ty, rfl, stands, learned, rfl⟩

theorem returns_localRead
    {name : String} {answer : Option Ty}
    (returned : Returns (localRead id name) before answer after) :
    ∃ scope, before.facts.arena.scopeOf id = .ok scope ∧
      answer = before.facts.localType? scope name ∧ after = before := by
  unfold localRead at returned
  obtain ⟨tree, _, read, looked⟩ := returns_bind.mp returned
  obtain ⟨rfl, rfl⟩ := returns_getArena.mp read
  obtain ⟨scope, _, found, named⟩ := returns_bind.mp looked
  obtain ⟨stands, rfl⟩ := returns_ofTree.mp found
  obtain ⟨_, facts, rfl⟩ := returns_map.mp named
  obtain ⟨rfl, rfl⟩ := returns_getFacts.mp facts
  exact ⟨scope, stands, rfl, rfl⟩

theorem returns_requiredArgument
    {name : String} {answer : Option Ty}
    (returned : Returns (requiredArgument setting id name) before answer after) :
    ∃ scope declared middle, before.facts.arena.scopeOf id = .ok scope ∧
      Returns (declaredType? setting id name) before declared middle ∧
      ((declared = none ∧ answer = middle.facts.scopes.own? scope name ∧
          after = middle) ∨
        ∃ given location ty, declared = some given ∧
          Returns (learnLocal scope name given location) middle ty after ∧
          answer = some ty) := by
  unfold requiredArgument at returned
  obtain ⟨tree, _, read, looked⟩ := returns_bind.mp returned
  obtain ⟨rfl, rfl⟩ := returns_getArena.mp read
  obtain ⟨scope, _, found, asked⟩ := returns_bind.mp looked
  obtain ⟨stands, rfl⟩ := returns_ofTree.mp found
  obtain ⟨declared, middle, declares, typed⟩ := returns_bind.mp asked
  refine ⟨scope, declared, middle, stands, declares, ?_⟩
  cases declared with
  | none =>
      obtain ⟨_, facts, rfl⟩ := returns_map.mp typed
      obtain ⟨rfl, rfl⟩ := returns_getFacts.mp facts
      exact .inl ⟨rfl, rfl, rfl⟩
  | some given =>
      obtain ⟨location, _, place, binds⟩ := returns_bind.mp typed
      obtain rfl := (ReadStep.locationOf id).after_eq place
      obtain ⟨ty, learned, rfl⟩ := returns_map.mp binds
      exact .inr ⟨given, location, ty, rfl, learned, rfl⟩

/-- A declared type accepts the default value, and is bound instead of its
type. -/
theorem returns_optionalArgument
    {name : String} {value : NodeId} {answer : Option Ty}
    (returned : Returns (optionalArgument setting infer id name value) before answer after) :
    ∃ scope declared declaredAt given middle,
      before.facts.arena.scopeOf id = .ok scope ∧
      Returns (declaredType? setting id name) before declared declaredAt ∧
      Returns (infer value) declaredAt given middle ∧
      ((given = none ∧ answer = none ∧ after = middle) ∨
        ∃ valueType location ty, given = some valueType ∧
          (∀ expected, declared = some expected →
            middle.catalog.isParent expected valueType = true) ∧
          Returns (learnLocal scope name (declared.getD valueType) location)
            middle ty after ∧
          answer = some ty) := by
  unfold optionalArgument at returned
  obtain ⟨tree, _, read, looked⟩ := returns_bind.mp returned
  obtain ⟨rfl, rfl⟩ := returns_getArena.mp read
  obtain ⟨scope, _, found, asked⟩ := returns_bind.mp looked
  obtain ⟨stands, rfl⟩ := returns_ofTree.mp found
  obtain ⟨location, _, place, placed⟩ := returns_bind.mp asked
  obtain rfl := (ReadStep.locationOf id).after_eq place
  obtain ⟨declared, declaredAt, declares, visited⟩ := returns_bind.mp placed
  obtain ⟨given, middle, visit, typed⟩ := returns_bind.mp visited
  refine ⟨scope, declared, declaredAt, given, middle, stands, declares, visit, ?_⟩
  cases given with
  | none =>
      obtain ⟨rfl, rfl⟩ := returns_pure.mp typed
      exact .inl ⟨rfl, rfl, rfl⟩
  | some valueType =>
      right
      cases declared with
      | none =>
          obtain ⟨ty, learned, rfl⟩ := returns_map.mp typed
          exact ⟨valueType, location, ty, rfl, nofun, learned, rfl⟩
      | some expected =>
          obtain ⟨accepted, _, compares, binds⟩ := returns_bind.mp typed
          obtain ⟨_, read, rfl⟩ := returns_map.mp compares
          obtain ⟨rfl, rfl⟩ := returns_get.mp read
          split at binds
          · rename_i accepts
            obtain ⟨ty, learned, rfl⟩ := returns_map.mp binds
            refine ⟨valueType, location, ty, rfl, ?_, learned, rfl⟩
            rintro _ ⟨⟩
            exact accepts
          · obtain ⟨_, _, failed, _⟩ := returns_bind.mp binds
            exact absurd failed returns_fail

/-- The constructor of a delegation is bound when it is known. -/
theorem returns_delegateBound_false
    {method : Method NodeId} {lexical : Ty} {location : Location}
    (returned : Returns (delegateBound id method lexical location) before false after) :
    after = before := by
  unfold delegateBound at returned
  split at returned
  · unfold bindDelegateTarget at returned
    split at returned
    · cases (returns_pure.mp returned).1
    · obtain ⟨facts, _, read, looked⟩ := returns_bind.mp returned
      obtain ⟨rfl, rfl⟩ := returns_getFacts.mp read
      split at looked
      · cases (returns_pure.mp looked).1
      · split at looked
        · exact (returns_pure.mp looked).2.symm
        · obtain ⟨target, _, found, bound⟩ := returns_bind.mp looked
          obtain ⟨_, rfl⟩ := returns_findConstructor.mp found
          split at bound
          · exact (returns_pure.mp bound).2.symm
          · obtain ⟨_, _, same⟩ := returns_map.mp bound
            cases same
  · cases (returns_pure.mp returned).1

/-- A method in a class is published once its parameters, its body and its
delegation are known.  Nothing is learned after its visits otherwise. -/
theorem returns_methodInClass
    {method : Method NodeId} {location : Location} {ready : Bool} {lexical : Ty}
    {answer : Option Ty}
    (returned : Returns (methodInClass setting infer id method location ready lexical)
      before answer after) :
    ∃ signature signed parameters listed bodyType content,
      Returns (signatureOf setting id method) before signature signed ∧
      Returns (argumentList infer method.arguments) signed parameters listed ∧
      Returns (optional infer method.body) listed bodyType content ∧
      ((answer = none ∧ after = content) ∨
        ∃ types ty bound published, parameters = some types ∧ bodyType = some ty ∧
          ready = true ∧
          Returns (delegateBound id method lexical location) content true bound ∧
          Returns (publish id method lexical signature types ty location)
            bound published after ∧
          answer = some published) := by
  unfold methodInClass at returned
  obtain ⟨signature, signed, resolves, visited⟩ := returns_bind.mp returned
  obtain ⟨parameters, listed, lists, inside⟩ := returns_bind.mp visited
  obtain ⟨bodyType, content, visits, concludes⟩ := returns_bind.mp inside
  refine ⟨signature, signed, parameters, listed, bodyType, content,
    resolves, lists, visits, ?_⟩
  split at concludes
  · rename_i _ _ _ types ty
    obtain ⟨known, bound, binds, finishes⟩ := returns_bind.mp concludes
    cases known with
    | false =>
        obtain ⟨rfl, rfl⟩ := returns_pure.mp finishes
        exact .inl ⟨rfl, returns_delegateBound_false binds⟩
    | true =>
        obtain ⟨published, publishes, rfl⟩ := returns_map.mp finishes
        exact .inr ⟨types, ty, bound, published, rfl, rfl, rfl, binds, publishes, rfl⟩
  · obtain ⟨rfl, rfl⟩ := returns_pure.mp concludes
    exact .inl ⟨rfl, rfl⟩

theorem returns_methodDefinition
    {method : Method NodeId} {answer : Option Ty}
    (returned : Returns (methodDefinition setting infer id method) before answer after) :
    ∃ location ready delegated lexical bound,
      Returns (delegationReady infer method) before ready delegated ∧
      Returns (bindDefiningClass setting id) delegated lexical bound ∧
      Returns (methodInClass setting infer id method location ready lexical)
        bound answer after := by
  unfold methodDefinition at returned
  obtain ⟨location, _, place, delegates⟩ := returns_bind.mp returned
  obtain rfl := (ReadStep.locationOf id).after_eq place
  obtain ⟨ready, delegated, visits, binds⟩ := returns_bind.mp delegates
  obtain ⟨lexical, bound, binding, typed⟩ := returns_bind.mp binds
  exact ⟨location, ready, delegated, lexical, bound, visits, binding, typed⟩

/-- A method that takes a type was gathered and announced, and its slot was
filled. -/
theorem returns_methodDefinition_some
    {method : Method NodeId} {ty : Ty}
    (returned : Returns (methodDefinition setting infer id method) before (some ty) after) :
    ∃ known middle announced,
      Returns (gatherMethod setting infer id method) before (some known) middle ∧
      Returns (announce id method known.lexical known.signature known.parameters
        known.bodyType known.location) middle () announced ∧
      ty = effectiveReturn known.signature.returnType known.bodyType ∧
      after = { announced with facts := { announced.facts with
        signatures := announced.facts.signatures.setReturnType id ty } } := by
  rw [methodDefinition_eq] at returned
  obtain ⟨answer, announced, publishes, fills⟩ := returns_bind.mp returned
  obtain ⟨gathered, middle, gathers, announces⟩ := returns_bind.mp publishes
  cases gathered with
  | none =>
      obtain ⟨rfl, rfl⟩ := returns_pure.mp announces
      cases (returns_pure.mp fills).1
  | some known =>
      obtain ⟨_, _, learns, answers⟩ := returns_bind.mp announces
      obtain ⟨rfl, rfl⟩ := returns_pure.mp answers
      obtain ⟨filled, stores, same⟩ := returns_map.mp fills
      cases same
      obtain ⟨_, _, stored, kept⟩ := returns_bind.mp stores
      obtain rfl := returns_modifyFacts.mp stored
      obtain ⟨rfl, rfl⟩ := returns_pure.mp kept
      exact ⟨known, middle, _, gathers, learns, rfl, rfl⟩

/-- The types of a parameter list are kept once they are known. -/
theorem returns_argumentList
    {types : List Ty}
    (returned : Returns (argumentList infer id) before (some types) after) :
    after.facts.argumentTypes? id = some types := by
  obtain ⟨answer, middle, visit, looked⟩ := returns_bind.mp returned
  cases answer with
  | none => cases (returns_pure.mp looked).1
  | some _ =>
      obtain ⟨_, read, known⟩ := returns_map.mp looked
      obtain ⟨rfl, rfl⟩ := returns_getFacts.mp read
      exact known

/-- What was gathered of a method came from its own steps and visits. -/
theorem returns_gatherInClass
    {method : Method NodeId} {location : Location} {ready : Bool} {lexical : Ty}
    {known : Gathered}
    (returned : Returns (gatherInClass setting infer id method location ready lexical)
      before (some known) after) :
    ∃ signed listed content,
      Returns (signatureOf setting id method) before known.signature signed ∧
      Returns (argumentList infer method.arguments) signed (some known.parameters) listed ∧
      Returns (optional infer method.body) listed (some known.bodyType) content ∧
      Returns (delegateBound id method lexical location) content true after ∧
      ready = true ∧ known.lexical = lexical := by
  unfold gatherInClass at returned
  obtain ⟨signature, signed, resolves, visited⟩ := returns_bind.mp returned
  obtain ⟨parameters, listed, lists, inside⟩ := returns_bind.mp visited
  obtain ⟨bodyType, content, visits, concludes⟩ := returns_bind.mp inside
  split at concludes
  · obtain ⟨bound, _, binds, finishes⟩ := returns_bind.mp concludes
    cases bound with
    | false => cases (returns_pure.mp finishes).1
    | true =>
        obtain ⟨same, rfl⟩ := returns_pure.mp finishes
        cases same
        exact ⟨signed, listed, content, resolves, lists, visits, binds, rfl, rfl⟩
  · cases (returns_pure.mp concludes).1

theorem returns_gatherMethod
    {method : Method NodeId} {known : Gathered}
    (returned : Returns (gatherMethod setting infer id method) before (some known) after) :
    ∃ delegated bound signed listed content location,
      Returns (delegationReady infer method) before true delegated ∧
      Returns (bindDefiningClass setting id) delegated known.lexical bound ∧
      Returns (signatureOf setting id method) bound known.signature signed ∧
      Returns (argumentList infer method.arguments) signed (some known.parameters) listed ∧
      Returns (optional infer method.body) listed (some known.bodyType) content ∧
      Returns (delegateBound id method known.lexical location) content true after := by
  unfold gatherMethod at returned
  obtain ⟨location, _, place, delegates⟩ := returns_bind.mp returned
  obtain rfl := (ReadStep.locationOf id).after_eq place
  obtain ⟨ready, delegated, visits, binds⟩ := returns_bind.mp delegates
  obtain ⟨lexical, bound, binding, gathers⟩ := returns_bind.mp binds
  obtain ⟨signed, listed, content, resolves, lists, inside, last, rfl, rfl⟩ :=
    returns_gatherInClass gathers
  exact ⟨delegated, bound, signed, listed, content, location, visits, binding,
    resolves, lists, inside, last⟩

theorem returns_learnOverloads
    {layout : ArgumentLayout} {method : MethodType} {location : Location}
    (returned : Returns (learnOverloads layout method location) before () after) :
    Returns (learnEach location <| (layout.callShapes method.parameters).map
      fun parameters => { method with parameters }) before () after := by
  by_cases fits : method.parameters.length
      = layout.positional + (if layout.rest then 1 else 0)
  · rwa [learnOverloads, if_pos fits] at returned
  · rw [learnOverloads, if_neg fits] at returned
    exact absurd returned returns_fail

/-- A method that is announced has an acceptable body, and it is learned for each
way of calling it. -/
theorem returns_announce
    {method : Method NodeId} {lexical : Ty} {signature : Signature}
    {parameters : List Ty} {bodyType : Ty} {location : Location}
    (returned : Returns (announce id method lexical signature parameters bodyType location)
      before () after) :
    (checksBody signature.returnType (before.facts.arena.isAbstract id) = true →
      before.catalog.isParent (effectiveReturn signature.returnType bodyType) bodyType =
        true) ∧
    Returns (learnPublished method lexical signature parameters bodyType location)
      before () after := by
  unfold announce at returned
  obtain ⟨tree, _, read, checked⟩ := returns_bind.mp returned
  obtain ⟨rfl, rfl⟩ := returns_getArena.mp read
  dsimp only at checked
  split at checked
  · obtain ⟨accepted, _, compares, concludes⟩ := returns_bind.mp checked
    obtain ⟨_, got, rfl⟩ := returns_map.mp compares
    obtain ⟨rfl, rfl⟩ := returns_get.mp got
    split at concludes
    · rename_i accepts
      exact ⟨fun _ => accepts, concludes⟩
    · obtain ⟨_, _, failed, _⟩ := returns_bind.mp concludes
      exact absurd failed returns_fail
  · rename_i unchecked
    exact ⟨fun checks => absurd checks unchecked, checked⟩

theorem returns_learnPublished
    {method : Method NodeId} {lexical : Ty} {signature : Signature}
    {parameters : List Ty} {bodyType : Ty} {location : Location}
    (returned : Returns (learnPublished method lexical signature parameters bodyType location)
      before () after) :
    ∃ list, before.facts.arena.argumentsOf method.arguments = .ok list ∧
      Returns (learnEach location <| ((ArgumentLayout.ofArguments list).callShapes parameters).map
        fun shape => { publishedMethod method lexical signature parameters bodyType list with
          parameters := shape }) before () after := by
  unfold learnPublished at returned
  obtain ⟨tree, _, read, listed⟩ := returns_bind.mp returned
  obtain ⟨rfl, rfl⟩ := returns_getArena.mp read
  obtain ⟨list, _, found, learns⟩ := returns_bind.mp listed
  obtain ⟨lists, rfl⟩ := returns_ofTree.mp found
  exact ⟨list, lists, returns_learnOverloads learns⟩

/-- Methods that are learned one after another are all in the table then. -/
theorem returns_learnEach
    (setting : Setting σ) {methods : List MethodType} {location : Location}
    (returned : Returns (learnEach location methods) before () after) :
    ∀ method ∈ methods, after.facts.methods.Offers method := by
  induction methods generalizing before with
  | nil => exact fun _ member => (List.not_mem_nil member).elim
  | cons first rest ih =>
      obtain ⟨_, middle, learns, others⟩ := returns_bind.mp returned
      intro method member
      rcases List.mem_cons.mp member with rfl | later
      · obtain ⟨methods, learned, _, rfl⟩ := returns_learnMethod learns
        have adds : AddStep setting (learnEach location rest) := .learnEach location rest
        obtain ⟨added, _⟩ := adds.added others
        exact (MethodTable.offers_of_learn learned).mono (Facts.Added.extends added).methods
      · exact ih others method later

/-- A call means a method, or it is offered to the expander, whose answer takes
its place. -/
theorem returns_resolveCall
    {receiver : Ty} {name : String} {types : List Ty} {answer : Option Ty}
    (returned : Returns (resolveCall setting infer id receiver name types)
      before answer after) :
    (∃ method, before.members.find receiver name types = .ok (some method) ∧
      answer = some method.returnType ∧ after = before) ∨
    (before.members.find receiver name types = .ok none ∧
      ∃ reply offered, Returns (offer setting id receiver) before reply offered ∧
        ((reply = none ∧ answer = none ∧ after = offered) ∨
          ∃ expansion spliced, reply = some expansion ∧
            Returns (splice id expansion) offered () spliced ∧
            Returns (infer expansion) spliced answer after)) := by
  unfold resolveCall at returned
  obtain ⟨location, _, place, found⟩ := returns_bind.mp returned
  obtain rfl := (ReadStep.locationOf id).after_eq place
  obtain ⟨method, _, finds, meant⟩ := returns_bind.mp found
  obtain ⟨means, rfl⟩ := returns_findMethod.mp finds
  cases method with
  | some method =>
      obtain ⟨rfl, rfl⟩ := returns_pure.mp meant
      exact .inl ⟨method, means, rfl, rfl⟩
  | none =>
      obtain ⟨reply, offered, offers, replied⟩ := returns_bind.mp meant
      refine .inr ⟨means, reply, offered, offers, ?_⟩
      cases reply with
      | none =>
          obtain ⟨rfl, rfl⟩ := returns_pure.mp replied
          exact .inl ⟨rfl, rfl, rfl⟩
      | some expansion =>
          obtain ⟨⟨⟩, spliced, splices, visited⟩ := returns_bind.mp replied
          exact .inr ⟨expansion, spliced, rfl, splices, visited⟩

/-- What is taken during a last chance only is taken during one. -/
theorem eq_of_returns_lastChance
    {known ty : Ty}
    (returned : Returns (do return if (← get).lastChance then some known else none) before
      (some ty) after) :
    before = after ∧ after.lastChance = true ∧ ty = known := by
  obtain ⟨session, _, read, taken⟩ := returns_bind.mp returned
  obtain ⟨rfl, rfl⟩ := returns_get.mp read
  obtain ⟨same, rfl⟩ := returns_pure.mp taken
  split at same
  · rename_i lastChance
    exact ⟨rfl, lastChance, (Option.some.inj same).symm⟩
  · cases same

/-- A choice with an alternative takes a type that joins those of its branches, or
the type of its only known branch while a last chance is on. -/
theorem returns_ifElse_some
    {condition elseBody : NodeId} {thenBody : Option NodeId} {location : Location} {ty : Ty}
    (returned : Returns (ifElse infer condition thenBody (some elseBody) location) before
      (some ty) after) :
    ∃ conditionType decided thenType chosen elseType,
      Returns (infer condition) before (some conditionType) decided ∧
      Returns (optional infer thenBody) decided thenType chosen ∧
      Returns (infer elseBody) chosen elseType after ∧
      ((∃ known other, thenType = some known ∧ elseType = some other ∧
          Assignable.join? after.catalog.isParent known other = some ty) ∨
        after.lastChance = true ∧
          (thenType = some ty ∧ elseType = none ∨ thenType = none ∧ elseType = some ty)) := by
  unfold ifElse at returned
  obtain ⟨conditionType, decided, decides, chooses⟩ := returns_bind.mp returned
  obtain ⟨thenType, chosen, visits, turns⟩ := returns_bind.mp chooses
  obtain ⟨elseType, middle, alternates, concludes⟩ := returns_bind.mp turns
  split at concludes
  · cases (returns_pure.mp concludes).1
  · rename_i undecided
    obtain ⟨conditionType, rfl⟩ :=
      Option.ne_none_iff_exists'.mp (mt Option.isNone_iff_eq_none.mpr undecided)
    split at concludes
    · rename_i known other
      obtain ⟨session, _, read, joins⟩ := returns_bind.mp concludes
      obtain ⟨rfl, rfl⟩ := returns_get.mp read
      split at joins
      · rename_i joined success
        obtain ⟨same, rfl⟩ := returns_pure.mp joins
        cases same
        exact ⟨conditionType, decided, some known, chosen, some other, decides, visits,
          alternates, .inl ⟨known, other, rfl, rfl, success⟩⟩
      · exact absurd joins returns_fail
    · obtain ⟨rfl, lastChance, rfl⟩ := eq_of_returns_lastChance concludes
      exact ⟨conditionType, decided, some ty, chosen, none, decides, visits, alternates,
        .inr ⟨lastChance, .inl ⟨rfl, rfl⟩⟩⟩
    · obtain ⟨rfl, lastChance, rfl⟩ := eq_of_returns_lastChance concludes
      exact ⟨conditionType, decided, none, chosen, some ty, decides, visits, alternates,
        .inr ⟨lastChance, .inr ⟨rfl, rfl⟩⟩⟩
    · cases (returns_pure.mp concludes).1

theorem returns_functionalCall
    {name : String} {parameters : List NodeId} {closure : Option NodeId}
    {answer : Option Ty}
    (returned : Returns (functionalCall setting infer id name parameters closure)
      before answer after) :
    ∃ receiver types given ready attached,
      before.facts.arena.selfType setting.scriptClass id = .ok receiver ∧
      Returns (all infer parameters) before types given ∧
      Returns (blockReady infer closure) given ready attached ∧
      ((answer = none ∧ after = attached) ∨
        ∃ known, types = some known ∧ ready = true ∧
          Returns (resolveCall setting infer id receiver name known)
            attached answer after) := by
  unfold functionalCall at returned
  obtain ⟨tree, _, read, asked⟩ := returns_bind.mp returned
  obtain ⟨rfl, rfl⟩ := returns_getArena.mp read
  obtain ⟨receiver, _, found, visited⟩ := returns_bind.mp asked
  obtain ⟨stands, rfl⟩ := returns_ofTree.mp found
  obtain ⟨types, given, visits, attaches⟩ := returns_bind.mp visited
  obtain ⟨ready, attached, closes, concludes⟩ := returns_bind.mp attaches
  refine ⟨receiver, types, given, ready, attached, stands, visits, closes, ?_⟩
  split at concludes
  · exact .inr ⟨_, rfl, rfl, concludes⟩
  · obtain ⟨rfl, rfl⟩ := returns_pure.mp concludes
    exact .inl ⟨rfl, rfl⟩

theorem returns_call
    {target : NodeId} {name : String} {parameters : List NodeId}
    {closure : Option NodeId} {answer : Option Ty}
    (returned : Returns (call setting infer id target name parameters closure)
      before answer after) :
    ∃ receiver aimed types given ready attached,
      Returns (infer target) before receiver aimed ∧
      Returns (all infer parameters) aimed types given ∧
      Returns (blockReady infer closure) given ready attached ∧
      ((answer = none ∧ after = attached) ∨
        ∃ known knownTypes, receiver = some known ∧ types = some knownTypes ∧
          ready = true ∧
          (((name == "new" && known.isMeta) = true ∧ after = attached) ∨
            ((name == "new" && known.isMeta) = false ∧
              Returns (resolveCall setting infer id known name knownTypes)
                attached answer after))) := by
  unfold call at returned
  obtain ⟨receiver, aimed, aims, visited⟩ := returns_bind.mp returned
  obtain ⟨types, given, visits, attaches⟩ := returns_bind.mp visited
  obtain ⟨ready, attached, closes, concludes⟩ := returns_bind.mp attaches
  refine ⟨receiver, aimed, types, given, ready, attached, aims, visits, closes, ?_⟩
  split at concludes
  · rename_i _ _ _ known knownTypes
    refine .inr ⟨known, knownTypes, rfl, rfl, rfl, ?_⟩
    split at concludes
    · rename_i isNew
      exact .inl ⟨isNew, (ReadStep.instantiation _ _ _).after_eq concludes⟩
    · rename_i isNew
      exact .inr ⟨by simpa using isNew, concludes⟩
  · obtain ⟨rfl, rfl⟩ := returns_pure.mp concludes
    exact .inl ⟨rfl, rfl⟩

/-- A constructor is bound unless it is bound already, nothing is found for it or its class offers
several. -/
theorem run_delegateBound
    (id : NodeId) (method : Method NodeId) (lexical : Ty) (location : Location)
    (session : Session σ) :
    (∃ answer, (delegateBound id method lexical location).run session = (answer, session) ∧
      (answer = .ok true → method.isConstructor = true →
        ∀ given, method.thisArgs = some given →
          session.facts.delegateTargets.contains id = true) ∧
      ∀ stop, answer = .error stop → ∃ definingClass types,
        session.members.findConstructor lexical types = .error definingClass ∧
        stop = .failed (.ambiguousMethod definingClass "initialize" types location)) ∨
    ∃ given types target, method.thisArgs = some given ∧
      given.mapM session.facts.nodeType? = some types ∧
      session.members.findConstructor lexical types = .ok (some target) ∧
      session.facts.delegateTargets.get? id = none ∧
      (delegateBound id method lexical location).run session =
        (.ok true, { session with facts := { session.facts with
          delegateTargets := session.facts.delegateTargets.insert id target } }) := by
  unfold delegateBound
  split
  · unfold bindDelegateTarget
    cases hands : method.thisArgs with
    | none => exact .inl ⟨.ok true, rfl, by simp, by simp⟩
    | some given =>
        cases bound : session.facts.delegateTargets.contains id with
        | true => exact .inl ⟨.ok true, by simp [run_bind, bound], fun _ _ _ _ => rfl, by simp⟩
        | false =>
            cases known : given.mapM session.facts.nodeType? with
            | none => exact .inl ⟨.ok false, by simp [run_bind, bound, known], by simp, by simp⟩
            | some types =>
                rcases found : session.members.findConstructor lexical types with
                  definingClass | _ | target
                · refine .inl
                    ⟨.error (.failed (.ambiguousMethod definingClass "initialize" types location)),
                      by simp [run_bind, bound, known, run_findConstructor, found], by simp, ?_⟩
                  rintro stop ⟨⟩
                  exact ⟨definingClass, types, found, rfl⟩
                · exact .inl ⟨.ok false,
                    by simp [run_bind, bound, known, run_findConstructor, found], by simp, by simp⟩
                · refine .inr ⟨given, types, target, rfl, known, found, ?_, ?_⟩
                  · simpa [Table.contains] using bound
                  · simp [run_bind, run_map, bound, known, run_findConstructor, found]
  · rename_i other
    exact .inl ⟨.ok true, rfl, fun _ isConstructor => absurd isConstructor other, by simp⟩

end Infer

end DeferredTyping
