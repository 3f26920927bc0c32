import DeferredTyping.Inference.Rules

/-!
# Driving the inference

`Typer.infer` types one node: a kept type is returned as it is, an expanded
call is typed by its expansion, and any other node by its rule.  `resolve`
drives the deferred nodes pass after pass until none is left or nothing
changes.  `inferTypes` does both for every tree of the arena.

Children are assumed to form no cycle.  A path of nodes that are typed for
one another then holds each node at most once, and every third pass at the
latest gives some node its type; both bounds are where the fuel comes from.
-/

namespace DeferredTyping

variable {σ : Type}

namespace Infer

/-- Types a node, with a bound on how deep nodes are typed for one
another. -/
def node (setting : Setting σ) : Nat → NodeId → Infer σ (Option Ty)
  | 0, _ => throw .exhausted
  | fuel + 1, id => do
      let facts ← getFacts
      match facts.nodeType? id, facts.expansionOf? id with
      | some ty, _ => return some ty
      | none, some expansion => remember id (← node setting fuel expansion)
      | none, none =>
          let found ← ofTree (facts.arena.require id)
          remember id (← rule setting (node setting fuel) id found)

/-- The class or interface that a node declares. -/
def declarationOf? (node : Node) : Option TypeDeclaration :=
  match node.kind with
  | .classDefinition name superclass interfaces _ =>
      some { name, superclass, interfaces }
  | .interfaceDeclaration name interfaces _ =>
      some { name, interfaces, isInterface := true }
  | _ => none

/-- Makes the classes and interfaces of the tree known, in the order of their
nodes. -/
def declareTypes : Infer σ Unit := do
  let declarations := (← getArena).nodes.values.filterMap declarationOf?
  modify fun session =>
    { session with catalog := declarations.foldl Catalog.define session.catalog }

/-- Records the classes that declare a constructor. -/
def declareConstructors (setting : Setting σ) :
    List (NodeId × Method NodeId) → Infer σ Unit
  | [] => pure ()
  | (id, method) :: rest => do
      if method.isConstructor then
        let lexical ← ofTree ((← getArena).lexicalClass setting.scriptClass id)
        modify fun session =>
          { session with
            declaredConstructors := session.declaredConstructors.insert lexical }
      declareConstructors setting rest

/-- Resolves the signature of every method definition. -/
def declareSignatures (setting : Setting σ) :
    List (NodeId × Method NodeId) → Infer σ Unit
  | [] => pure ()
  | (id, method) :: rest => do
      let _ ← signatureOf setting id method
      declareSignatures setting rest

/-- Makes the classes and interfaces of the tree known, then the classes that
declare constructors, then every signature. -/
def registerTypes (setting : Setting σ) : Infer σ Unit := do
  declareTypes
  let methods := (← getArena).methods
  declareConstructors setting methods
  declareSignatures setting methods

/-- Types nodes one after another. -/
def each (infer : NodeId → Infer σ (Option Ty)) : List NodeId → Infer σ Unit
  | [] => pure ()
  | id :: rest => do
      let _ ← infer id
      each infer rest

/-- The error that lists every node still pending. -/
def cannotInfer (session : Session σ) : TypeError :=
  .cannotInfer <|
    (session.worklist.ascending.filterMap session.facts.arena.find?).map
      fun node =>
        { id := node.id, description := node.kind.describe
          location := node.location }

/-- Takes all deferred nodes off the worklist and counts a pass. -/
def startPass : Infer σ (List NodeId) := do
  let session ← get
  set { session with worklist := {}, passes := session.passes + 1 }
  return session.worklist.queue

/-- One pass over the deferred nodes; true when one of them has a type
afterwards. -/
def pass (infer : NodeId → Infer σ (Option Ty)) : Infer σ Bool := do
  let pending ← startPass
  each infer pending
  let facts ← getFacts
  return pending.any fun id => facts.nodeTypes.contains id

end Infer

/-- An inference engine: the settings and the expander of calls. -/
structure Typer (σ : Type) where
  config : Config := {}
  expander : Expander σ

namespace Typer

/-- What the rules depend on. -/
def setting (typer : Typer σ) : Setting σ where
  scriptClass := typer.config.scriptClass
  expander := typer.expander

/-- A bound on the number of nodes, expansions of the run included. -/
def nodeBound (typer : Typer σ) (session : Session σ) : Nat :=
  session.facts.arena.size + typer.expander.growth

/-- A session before anything is inferred. -/
def start (arena : Arena) (catalog : Catalog) (expanderState : σ) : Session σ where
  facts := { arena }
  catalog
  expanderState

open Infer (getArena getFacts)

/-- Types a node, or defers it.  The answer is none when something it depends
on is not known yet. -/
def infer (typer : Typer σ) (id : NodeId) : Infer σ (Option Ty) := do
  Infer.node typer.setting (typer.nodeBound (← get) + 2) id

/-- The types of a list of parameters. -/
def inferArguments (typer : Typer σ) (id : NodeId) :
    Infer σ (Option (List Ty)) :=
  Infer.arguments typer.infer id

/-- Makes the declarations of the tree known; fully declared methods are
callable from then on. -/
def registerTypes (typer : Typer σ) : Infer σ Unit :=
  Infer.registerTypes typer.setting

/-- Drives the deferred nodes for at most so many passes.  A pass without
progress is followed by one in which a choice may take the type of its only
known branch; when that one makes no progress either, nothing ever will. -/
def resolveWithin (typer : Typer σ) : Nat → Infer σ Unit
  | 0 => throw .exhausted
  | fuel + 1 => do
      let session ← get
      if session.worklist.isEmpty then
        return
      match typer.config.maxPasses with
      | some limit =>
          if limit ≤ session.passes then
            Infer.fail (.passLimitExceeded limit)
      | none => pure ()
      if ← Infer.pass typer.infer then
        modify fun session => { session with lastChance := false }
        typer.resolveWithin fuel
      else if typer.config.lastChance && !(← get).lastChance then
        modify fun session => { session with lastChance := true }
        typer.resolveWithin fuel
      else
        Infer.fail (Infer.cannotInfer (← get))

/-- Drives the deferred nodes until none is left or nothing changes. -/
def resolve (typer : Typer σ) : Infer σ Unit := do
  typer.resolveWithin (3 * (typer.nodeBound (← get) + 1) + 2)

/-- Types every tree of the arena. -/
def inferTypes (typer : Typer σ) : Infer σ Unit := do
  typer.registerTypes
  let roots := (← getArena).roots
  Infer.each typer.infer (roots.map Node.id)
  typer.resolve

/-- Binds a local as seen from a scope. -/
def learnLocalType (scope : NodeId) (name : String) (ty : Ty) : Infer σ Ty := do
  let location ← Infer.locationOf scope
  Infer.learnLocal scope name ty location

/-- Records a method for call sites to find. -/
def learnMethodType (method : MethodType) : Infer σ Ty :=
  Infer.learnMethod method {}

/-- The method that a call on a receiver means. -/
def methodType (receiver : Ty) (name : String) (arguments : List Ty) :
    Infer σ (Option MethodType) :=
  Infer.findMethod receiver name arguments {}

/-- The type of `self` at a node. -/
def selfType (typer : Typer σ) (id : NodeId) : Infer σ Ty := do
  Infer.ofTree ((← getArena).selfType typer.config.scriptClass id)

/-- Types every tree of an arena and returns what is known then. -/
def typeArena (typer : Typer σ) (arena : Arena) (catalog : Catalog)
    (expanderState : σ) : Except Stop Facts :=
  match typer.inferTypes.run (start arena catalog expanderState) with
  | (.ok _, session) => .ok session.facts
  | (.error stop, _) => .error stop

end Typer

end DeferredTyping
