import DeferredTyping.Tree.Edit

/-!
# Drafts of trees

A draft describes a tree that is to be built.  Building reserves the id of
a node before its children, so ids come out in pre-order, and adds the node
after them.  A node takes the position in force when its id was reserved;
a position set by a draft stays in force for everything built after it.

Leaves of a draft may refer to nodes that exist already; `ρ` is the type of
such references.
-/

namespace DeferredTyping

/-- A tree to be built. -/
inductive Draft (ρ : Type) where
  /-- A node that is not built here. -/
  | ref (target : ρ)
  /-- A node of this kind.  A given line and column are set before the node;
  `splits` asks for the delegation of a constructor to be split off as soon
  as the node is there. -/
  | node (position : Option (Nat × Nat)) (splits : Bool) (kind : Kind (Draft ρ))

/-- An arena under construction, with the position given to new nodes. -/
structure Builder where
  arena : Arena
  source : String
  line : Nat := 1
  column : Nat := 0
deriving Repr

/-- A step of construction.  A refused step keeps what was built before. -/
abbrev Build := ExceptT TreeError (StateM Builder)

namespace Build

/-- Sets the position of the nodes built from now on. -/
def moveTo : Option (Nat × Nat) → Build Unit
  | some (line, column) => modify fun builder => { builder with line, column }
  | none => pure ()

/-- Hands out the id and the place of a new node. -/
def reserve : Build (NodeId × Location) := do
  let builder ← get
  let (id, arena) := builder.arena.reserve
  set { builder with arena }
  return (id, {
    offset := 0, line := builder.line, column := builder.column
    source := builder.source })

/-- Applies an edit to the arena under construction. -/
def edit (change : Arena → Except TreeError Arena) : Build Unit := do
  let builder ← get
  match change builder.arena with
  | .ok arena => set { builder with arena }
  | .error cause => throw cause

end Build

namespace Draft

variable {ρ : Type}

section Building

variable (resolve : ρ → NodeId)

mutual

/-- Builds a draft under a parent and returns the id of its root. -/
def build (parent : Option NodeId) : Draft ρ → Build NodeId
  | .ref target => pure (resolve target)
  | .node position splits kind => do
      Build.moveTo position
      let (id, location) ← Build.reserve
      let kind ← buildKind id kind
      Build.edit fun arena => arena.add { id, parent, location, kind }
      if splits then
        Build.edit fun arena => arena.extractDelegation id
      return id

/-- Builds the children of a node, slot after slot. -/
def buildKind (parent : NodeId) : Kind (Draft ρ) → Build (Kind NodeId)
  | .script name content => do
      return .script name (← buildOption parent content)
  | .classDefinition name superclass interfaces content => do
      return .classDefinition name superclass interfaces
        (← buildOption parent content)
  | .interfaceDeclaration name interfaces content => do
      return .interfaceDeclaration name interfaces (← buildOption parent content)
  | .methodDefinition method => do
      return .methodDefinition (← buildMethod parent method)
  | .arguments list => do
      return .arguments (← buildArguments parent list)
  | .requiredArgument name => pure (.requiredArgument name)
  | .optionalArgument name value => do
      return .optionalArgument name (← build (some parent) value)
  | .restArgument name => pure (.restArgument name)
  | .blockArgument name => pure (.blockArgument name)
  | .block parameters content => do
      let parameters ← build (some parent) parameters
      return .block parameters (← buildOption parent content)
  | .body statements => do
      return .body (← buildList parent statements)
  | .noop => pure .noop
  | .fixnum value => pure (.fixnum value)
  | .float value => pure (.float value)
  | .str value => pure (.str value)
  | .boolean value => pure (.boolean value)
  | .null => pure .null
  | .selfRef => pure .selfRef
  | .localRead name => pure (.localRead name)
  | .localAssignment name value => do
      return .localAssignment name (← build (some parent) value)
  | .functionalCall name parameters closure => do
      let parameters ← buildList parent parameters
      return .functionalCall name parameters (← buildOption parent closure)
  | .call target name parameters closure => do
      let target ← build (some parent) target
      let parameters ← buildList parent parameters
      return .call target name parameters (← buildOption parent closure)
  | .superCall parameters => do
      return .superCall (← buildList parent parameters)
  | .constant name => pure (.constant name)
  | .ifElse condition thenBody elseBody => do
      let condition ← build (some parent) condition
      let thenBody ← buildOption parent thenBody
      return .ifElse condition thenBody (← buildOption parent elseBody)
  | .returning value => do
      return .returning (← buildOption parent value)
  | .raise exception => do
      return .raise (← build (some parent) exception)

/-- Builds the parts of a method: arguments, body, and the arguments of a
delegation that the draft gives as split off already. -/
def buildMethod (parent : NodeId) : Method (Draft ρ) → Build (Method NodeId)
  | ⟨name, kind, declared, arguments, body, thisArgs, superArgs⟩ => do
      let arguments ← build (some parent) arguments
      let body ← buildOption parent body
      let thisArgs ← buildDelegation parent thisArgs
      let superArgs ← buildDelegation parent superArgs
      return { name, kind, declared, arguments, body, thisArgs, superArgs }

/-- Builds a list of parameters. -/
def buildArguments (parent : NodeId) :
    ArgumentList (Draft ρ) → Build (ArgumentList NodeId)
  | ⟨required, optional, rest, block⟩ => do
      let required ← buildList parent required
      let optional ← buildList parent optional
      let rest ← buildOption parent rest
      let block ← buildOption parent block
      return { required, optional, rest, block }

/-- Builds drafts one after another. -/
def buildList (parent : NodeId) : List (Draft ρ) → Build (List NodeId)
  | [] => pure []
  | draft :: rest => do
      let id ← build (some parent) draft
      let ids ← buildList parent rest
      return id :: ids

/-- Builds a draft if there is one. -/
def buildOption (parent : NodeId) : Option (Draft ρ) → Build (Option NodeId)
  | none => pure none
  | some draft => do return some (← build (some parent) draft)

/-- Builds the arguments of a delegation if there is one. -/
def buildDelegation (parent : NodeId) :
    Option (List (Draft ρ)) → Build (Option (List NodeId))
  | none => pure none
  | some drafts => do return some (← buildList parent drafts)

end

end Building

/-- The draft of a list of parameters without parameters. -/
def noArguments : Draft ρ := .node none false (.arguments {})

/-- The draft of a list of required parameters. -/
def requiredArguments (names : List String) : Draft ρ :=
  .node none false (.arguments {
    required := names.map fun name => .node none false (.requiredArgument name) })

/-- The draft of a constructor.  It always has the same name, and its
delegation is split off as soon as it is built. -/
def constructor (position : Option (Nat × Nat)) (declared : DeclaredSignature)
    (arguments : Draft ρ) (body : Option (Draft ρ)) : Draft ρ :=
  .node position true (.methodDefinition {
    name := "initialize", kind := .constructor, declared, arguments, body })

end Draft

/-- Builds drafts as trees of their own, one after another. -/
def Draft.buildRoots : List (Draft NodeId) → Build (List NodeId)
  | [] => pure []
  | draft :: rest => do
      let id ← draft.build id none
      let ids ← buildRoots rest
      return id :: ids

namespace Arena

/-- Runs a construction with a builder of its own.  What was built before a
refusal stays in the arena. -/
def construct {α : Type} (arena : Arena) (source : String) (construction : Build α) :
    Except TreeError α × Arena :=
  let (result, builder) := construction.run.run { arena, source }
  (result, builder.arena)

/-- Builds a draft under a parent, or as a root. -/
def build (arena : Arena) (source : String) (parent : Option NodeId)
    (draft : Draft NodeId) : Except TreeError NodeId × Arena :=
  arena.construct source (draft.build id parent)

end Arena

end DeferredTyping
