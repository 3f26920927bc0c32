import DeferredTyping.Config
import DeferredTyping.Expansion
import DeferredTyping.Facts
import DeferredTyping.Inference.SelfType
import DeferredTyping.Inference.Worklist
import DeferredTyping.Method.Lookup

/-!
# The state of an inference

A session is what inference reads and writes.  A step that fails keeps what
it did before it failed, so a failed step is an answer together with a
session, like any other step.
-/

namespace DeferredTyping

/-- Everything that inference reads and writes. -/
structure Session (σ : Type) where
  facts : Facts
  catalog : Catalog
  /-- The classes that declare a constructor.  The others have an implicit one
  without parameters. -/
  declaredConstructors : List Ty := []
  worklist : Worklist := {}
  /-- A choice with one known branch may take its type. -/
  lastChance : Bool := false
  passes : Nat := 0
  expanderState : σ

/-- What the rules of inference depend on, limits of the driver aside. -/
structure Setting (σ : Type) where
  scriptClass : String
  expander : Expander σ

/-- Why a step ended without a value.  Running out of fuel is no answer about
the typed program. -/
inductive Stop where
  | failed (error : TypeError)
  | exhausted
deriving DecidableEq, Repr

/-- A step of inference. -/
abbrev Infer (σ : Type) := ExceptT Stop (StateM (Session σ))

namespace Infer

variable {σ : Type}

/-- Runs a step. -/
def run {α : Type} (step : Infer σ α) (session : Session σ) :
    Except Stop α × Session σ :=
  Id.run (StateT.run (ExceptT.run step) session)

def fail {α : Type} (error : TypeError) : Infer σ α := throw (.failed error)

/-- Takes over an answer about the tree. -/
def ofTree {α : Type} (answer : Except Breakage α) : Infer σ α :=
  match answer with
  | .ok value => pure value
  | .error cause => fail (.broken cause)

def getFacts : Infer σ Facts := return (← get).facts

def getArena : Infer σ Arena := return (← get).facts.arena

def modifyFacts (change : Facts → Facts) : Infer σ Unit :=
  modify fun session => { session with facts := change session.facts }

/-- The place of a node. -/
def locationOf (id : NodeId) : Infer σ Location := do
  return (← ofTree ((← getArena).require id)).location

/-- Queues a node for the next pass. -/
def defer (id : NodeId) : Infer σ Unit :=
  modify fun session => { session with worklist := session.worklist.push id }

/-- Whether a value of type `given` may be used where `expected` is. -/
def isParent (expected given : Ty) : Infer σ Bool := do
  return (← get).catalog.isParent expected given

/-- Keeps the type of a node, or defers the node when there is none. -/
def remember (id : NodeId) (inferred : Option Ty) : Infer σ (Option Ty) := do
  match inferred with
  | some ty =>
      modifyFacts fun facts => facts.setNodeType id ty
      return some ty
  | none =>
      defer id
      return none

/-- What is known of methods so far. -/
def getMembers : Infer σ Members := do
  let session ← get
  return { catalog := session.catalog, methods := session.facts.methods }

/-- Takes over an answer to a call; an ambiguous call is an error. -/
def ofLookup (name : String) (arguments : List Ty) (location : Location)
    (answer : LookupResult) : Infer σ (Option MethodType) :=
  match answer with
  | .ok method? => pure method?
  | .error definingClass =>
      fail (.ambiguousMethod definingClass name arguments location)

/-- The method that a call on a receiver means. -/
def findMethod (receiver : Ty) (name : String) (arguments : List Ty)
    (location : Location) : Infer σ (Option MethodType) := do
  ofLookup name arguments location
    ((← getMembers).find receiver name arguments)

/-- The constructor of a class that takes these arguments. -/
def findConstructor (definingClass : Ty) (arguments : List Ty)
    (location : Location) : Infer σ (Option MethodType) := do
  ofLookup "initialize" arguments location
    ((← getMembers).findConstructor definingClass arguments)

/-- Binds a local as seen from a scope.  The scope that owns the name keeps
its binding when it accepts the new type; anything else is a conflict.  A
name that nobody owns is bound in the scope itself. -/
def learnLocal (scope : NodeId) (name : String) (ty : Ty) (location : Location) :
    Infer σ Ty := do
  let session ← get
  let facts := session.facts
  let owner := facts.scopes.owner facts.arena scope name
  match facts.scopes.own? owner name with
  | some existing =>
      if existing = ty || session.catalog.isParent existing ty then
        return existing
      else
        fail (.conflictingLocal name existing ty location)
  | none =>
      modifyFacts fun facts => { facts with scopes := facts.scopes.bind owner name ty }
      return ty

/-- Records a method for call sites to find. -/
def learnMethod (method : MethodType) (location : Location) : Infer σ Ty := do
  match (← getFacts).methods.learn method with
  | .ok methods =>
      modifyFacts fun facts => { facts with methods }
      return method.returnType
  | .error existing =>
      fail (.conflictingMethod method.definingClass method.name
        existing.returnType method.returnType location)

end Infer

end DeferredTyping
