import DeferredTyping.Inference.Methods

/-!
# The rule of each kind of node

A rule types a node from the types of the nodes it depends on, which it asks
for through `infer`.  It answers `none` when something it needs is not known
yet.  A rule visits everything it depends on even after one dependency was
found unknown, so that every pass learns as much as it can.
-/

namespace DeferredTyping.Infer

variable {σ : Type} (setting : Setting σ) (infer : NodeId → Infer σ (Option Ty))

/-- The type of a node that may be left out; without it there is no value. -/
def optional : Option NodeId → Infer σ (Option Ty)
  | some id => infer id
  | none => pure (some .void)

/-- The types of all nodes, when all are known.  Every node is visited. -/
def all : List NodeId → Infer σ (Option (List Ty))
  | [] => pure (some [])
  | id :: rest => do
      let first ← infer id
      let others ← all rest
      return first.bind fun ty => others.map (ty :: ·)

/-- Whether a block that may be left out has a type. -/
def blockReady : Option NodeId → Infer σ Bool
  | some id => do return (← infer id).isSome
  | none => pure true

/-- Statements one after another have the type of the last one. -/
def body (statements : List NodeId) : Infer σ (Option Ty) := do
  return (← all infer statements).map fun types => types.getLast?.getD .void

/-- A block has the type of its body once its parameters are known. -/
def block (parameters : NodeId) (content : Option NodeId) :
    Infer σ (Option Ty) := do
  let parameterType ← infer parameters
  let contentType ← optional infer content
  return parameterType.bind fun _ => contentType

/-- A local has the type that is bound to it as seen from its scope. -/
def localRead (id : NodeId) (name : String) : Infer σ (Option Ty) := do
  let scope ← ofTree ((← getArena).scopeOf id)
  return (← getFacts).localType? scope name

/-- An assignment binds its local to the type of the value. -/
def localAssignment (id : NodeId) (name : String) (value : NodeId)
    (location : Location) : Infer σ (Option Ty) := do
  match ← infer value with
  | none => return none
  | some valueType =>
      let scope ← ofTree ((← getArena).scopeOf id)
      return some (← learnLocal scope name valueType location)

/-- Offers a call to the expander.  The answer names the root of what the
expander added for it. -/
def offer (id : NodeId) (receiver : Ty) : Infer σ (Option NodeId) := do
  let session ← get
  let (answer, arena, expanderState) :=
    setting.expander.expand session.facts.arena id receiver session.expanderState
  set { session with
    facts := { session.facts with arena }, expanderState := expanderState }
  return answer

/-- Puts an expansion in the slot of its call. -/
def splice (id expansion : NodeId) : Infer σ Unit := do
  let arena ← getArena
  match arena.parent? id with
  | none => fail (.broken (.callWithoutParent id))
  | some parent =>
      let arena ← ofTree ((arena.replaceChild parent id expansion).mapError .tree)
      modifyFacts fun facts => { facts with
        arena, expansions := facts.expansions.insert id expansion }

/-- A call has the return type of the method it means.  A call that means no
method is offered to the expander; an expansion takes the call's slot and is
typed in its place. -/
def resolveCall (id : NodeId) (receiver : Ty) (name : String)
    (parameters : List Ty) : Infer σ (Option Ty) := do
  let location ← locationOf id
  match ← findMethod receiver name parameters location with
  | some method => return some method.returnType
  | none =>
      match ← offer setting id receiver with
      | none => return none
      | some expansion =>
          splice id expansion
          infer expansion

/-- An unqualified call goes to `self`. -/
def functionalCall (id : NodeId) (name : String) (parameters : List NodeId)
    (closure : Option NodeId) : Infer σ (Option Ty) := do
  let receiver ← ofTree ((← getArena).selfType setting.scriptClass id)
  let parameterTypes ← all infer parameters
  let ready ← blockReady infer closure
  match parameterTypes, ready with
  | some parameterTypes, true =>
      resolveCall setting infer id receiver name parameterTypes
  | _, _ => return none

/-- Making an instance of a class has the type of the class.  A class that
declares no constructor can be made without arguments. -/
def instantiation (id : NodeId) (instanceType : Ty) (parameters : List Ty) :
    Infer σ (Option Ty) := do
  let location ← locationOf id
  match ← findConstructor instanceType parameters location with
  | some _ => return some instanceType
  | none =>
      let declared := (← get).declaredConstructors.contains instanceType
      if parameters.isEmpty && !declared then return some instanceType
      else return none

/-- A call on a target; `new` on a class object makes an instance. -/
def call (id target : NodeId) (name : String) (parameters : List NodeId)
    (closure : Option NodeId) : Infer σ (Option Ty) := do
  let targetType ← infer target
  let parameterTypes ← all infer parameters
  let ready ← blockReady infer closure
  match targetType, parameterTypes, ready with
  | some targetType, some parameterTypes, true =>
      if name == "new" && targetType.isMeta then
        instantiation id targetType.unmeta parameterTypes
      else
        resolveCall setting infer id targetType name parameterTypes
  | _, _, _ => return none

/-- A choice without an alternative has the type of its branch.  One with an
alternative joins both branches; while a last chance is on, it may take the
type of the only branch that is known. -/
def ifElse (condition : NodeId) (thenBody elseBody : Option NodeId)
    (location : Location) : Infer σ (Option Ty) := do
  let conditionType ← infer condition
  let thenType ← optional infer thenBody
  match elseBody with
  | none => return conditionType.bind fun _ => thenType
  | some elseBody =>
      let elseType ← infer elseBody
      if conditionType.isNone then
        return none
      match thenType, elseType with
      | some thenType, some elseType =>
          match Assignable.join? (← get).catalog.isParent thenType elseType with
          | some joined => return some joined
          | none => fail (.mismatch thenType elseType .branches location)
      | some known, none | none, some known =>
          return if (← get).lastChance then some known else none
      | none, none => return none

/-- A required or rest parameter takes its declared type; without one, its
own scope has to know its name already. -/
def requiredArgument (id : NodeId) (name : String) : Infer σ (Option Ty) := do
  let scope ← ofTree ((← getArena).scopeOf id)
  match ← declaredType? setting id name with
  | some declared =>
      let location ← locationOf id
      return some (← learnLocal scope name declared location)
  | none => return (← getFacts).scopes.own? scope name

/-- An optional parameter takes its declared type, which has to accept the
default value, or else the type of the default value. -/
def optionalArgument (id : NodeId) (name : String) (value : NodeId) :
    Infer σ (Option Ty) := do
  let scope ← ofTree ((← getArena).scopeOf id)
  let location ← locationOf id
  let declared ← declaredType? setting id name
  match ← infer value with
  | none => return none
  | some valueType =>
      let ty ← match declared with
        | some declared =>
            if ← isParent declared valueType then pure declared
            else fail (.mismatch declared valueType (.defaultValue name) location)
        | none => pure valueType
      return some (← learnLocal scope name ty location)

/-- The types of a list of parameters: required, optional, rest. -/
def arguments (id : NodeId) : Infer σ (Option (List Ty)) := do
  match (← getFacts).argumentTypes? id with
  | some types => return some types
  | none =>
      let list ← ofTree ((← getArena).argumentsOf id)
      match ← all infer list.typed with
      | some types =>
          modifyFacts fun facts => facts.setArgumentTypes id types
          return some types
      | none => return none

/-- The types of a list of parameters that is typed as a node of its own, so
that it is kept or deferred like any other. -/
def argumentList (id : NodeId) : Infer σ (Option (List Ty)) := do
  match ← infer id with
  | none => return none
  | some _ => return (← getFacts).argumentTypes? id

/-- Visits the arguments of a delegation; true once all are known. -/
def delegationReady (method : Method NodeId) : Infer σ Bool := do
  let types ← all infer (method.thisArgs.getD [] ++ method.superArgs.getD [])
  return types.isSome

/-- Binds the constructor that a delegation to the same class calls; false
while that constructor is not known. -/
def bindDelegateTarget (id : NodeId) (method : Method NodeId) (lexical : Ty)
    (location : Location) : Infer σ Bool := do
  match method.thisArgs with
  | none => return true
  | some thisArgs =>
      let facts ← getFacts
      if facts.delegateTargets.contains id then
        return true
      match thisArgs.mapM facts.nodeType? with
      | none => return false
      | some types =>
          match ← findConstructor lexical types location with
          | none => return false
          | some target =>
              modifyFacts fun facts => { facts with
                delegateTargets := facts.delegateTargets.insert id target }
              return true

/-- The delegation of a constructor is bound before it takes a type; other
methods have none. -/
def delegateBound (id : NodeId) (method : Method NodeId) (lexical : Ty)
    (location : Location) : Infer σ Bool :=
  if method.isConstructor then bindDelegateTarget id method lexical location
  else pure true

/-- The type of a method: the declared one, or else the type of its body; a
body that never completes gives no value. -/
def effectiveReturn (declared : Option Ty) (bodyType : Ty) : Ty :=
  let returnType := declared.getD bodyType
  if returnType.isUnreachable then .void else returnType

/-- Whether the declared return type has to accept the body: not when no
value is declared, nor inside an interface. -/
def checksBody (declared : Option Ty) (isAbstract : Bool) : Bool :=
  match declared with
  | some declared => !declared.isVoid && !isAbstract
  | none => false

/-- Publishes a method whose body has a type, and fills its return slot. -/
def publish (id : NodeId) (method : Method NodeId) (lexical : Ty)
    (signature : Signature) (parameters : List Ty) (bodyType : Ty)
    (location : Location) : Infer σ Ty := do
  let returnType := effectiveReturn signature.returnType bodyType
  if checksBody signature.returnType ((← getArena).isAbstract id) then
    unless ← isParent returnType bodyType do
      fail (.mismatch returnType bodyType (.methodReturn method.name) location)
  let list ← ofTree ((← getArena).argumentsOf method.arguments)
  learnOverloads (.ofArguments list)
    { definingClass := if method.isStatic then lexical.toMeta else lexical
      name := method.name, parameters
      returnType := if method.isConstructor then .void else returnType
      throws := signature.throws, varargs := list.rest.isSome }
    location
  modifyFacts fun facts =>
    { facts with signatures := facts.signatures.setReturnType id returnType }
  return returnType

/-- A method definition has a type once its parameters, its body and its
delegation have.  Its class is bound already and its delegation visited. -/
def methodInClass (id : NodeId) (method : Method NodeId) (location : Location)
    (ready : Bool) (lexical : Ty) : Infer σ (Option Ty) := do
  let signature ← signatureOf setting id method
  let parameters ← argumentList infer method.arguments
  let bodyType ← optional infer method.body
  match parameters, bodyType, ready with
  | some parameters, some bodyType, true =>
      if ← delegateBound id method lexical location then
        return some
          (← publish id method lexical signature parameters bodyType location)
      else
        return none
  | _, _, _ => return none

/-- A method definition visits its delegation and binds its class before it is
typed. -/
def methodDefinition (id : NodeId) (method : Method NodeId) :
    Infer σ (Option Ty) := do
  let location ← locationOf id
  let ready ← delegationReady infer method
  let lexical ← bindDefiningClass setting id
  methodInClass setting infer id method location ready lexical

/-- The rule of a node. -/
def rule (id : NodeId) (node : Node) : Infer σ (Option Ty) := do
  match node.kind with
  | .script _ content => optional infer content
  | .classDefinition name _ _ content =>
      return (← optional infer content).map fun _ => .object name
  | .interfaceDeclaration name _ content =>
      return (← optional infer content).map fun _ => .object name
  | .methodDefinition method => methodDefinition setting infer id method
  | .arguments _ => return (← arguments infer id).map fun _ => .void
  | .requiredArgument name => requiredArgument setting id name
  | .optionalArgument name value => optionalArgument setting infer id name value
  | .restArgument name => requiredArgument setting id name
  | .blockArgument _ => fail (.broken (.blockArgument id))
  | .block parameters content => block infer parameters content
  | .body statements => body infer statements
  | .noop => return some .void
  | .fixnum _ => return some .int
  | .float _ => return some (.primitive .double)
  | .str _ => return some (.object stringName)
  | .boolean _ => return some .boolean
  | .null => return some .null
  | .selfRef =>
      return some (← ofTree ((← getArena).selfType setting.scriptClass id))
  | .localRead name => localRead id name
  | .localAssignment name value => localAssignment infer id name value node.location
  | .functionalCall name parameters closure =>
      functionalCall setting infer id name parameters closure
  | .call target name parameters closure =>
      call setting infer id target name parameters closure
  | .superCall parameters => return (← all infer parameters).map fun _ => .void
  | .constant name => return ((← get).catalog.resolve name).map Ty.toMeta
  | .ifElse condition thenBody elseBody =>
      ifElse infer condition thenBody elseBody node.location
  | .returning value => optional infer value
  | .raise exception => return (← infer exception).map fun _ => .unreachable

end DeferredTyping.Infer
