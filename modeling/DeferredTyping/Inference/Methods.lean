import DeferredTyping.Inference.Session

/-!
# Signatures and the methods they publish

A method definition publishes one method type for every way of calling it:
each trailing optional argument may be left out, and a rest argument stays
last.  A definition whose parameter and return types are all declared does
so as soon as its signature is resolved; every definition does so once it
has a type itself.
-/

namespace DeferredTyping

/-- How many parameters of each kind a method has. -/
structure ArgumentLayout where
  required : Nat
  optional : Nat
  rest : Bool
deriving DecidableEq, Repr

namespace ArgumentLayout

def ofArguments (arguments : ArgumentList NodeId) : ArgumentLayout where
  required := arguments.required.length
  optional := arguments.optional.length
  rest := arguments.rest.isSome

/-- The number of parameters that are not the rest. -/
def positional (layout : ArgumentLayout) : Nat := layout.required + layout.optional

/-- The parameter types of each way of calling a method, fewest first. -/
def callShapes (layout : ArgumentLayout) (parameters : List Ty) : List (List Ty) :=
  (List.range (layout.optional + 1)).map fun given =>
    parameters.take (layout.required + given) ++ parameters.drop layout.positional

end ArgumentLayout

namespace Infer

variable {σ : Type} (setting : Setting σ)

/-- Binds the class that a method definition stands in, on first use. -/
def bindDefiningClass (id : NodeId) : Infer σ Ty := do
  let facts ← getFacts
  match facts.definingClasses.get? id with
  | some lexical => return lexical
  | none =>
      let lexical ← ofTree (facts.arena.lexicalClass setting.scriptClass id)
      modifyFacts fun facts =>
        { facts with definingClasses := facts.definingClasses.insert id lexical }
      return lexical

/-- Learns methods one after another; the first conflict ends it. -/
def learnEach (location : Location) : List MethodType → Infer σ Unit
  | [] => pure ()
  | method :: rest => do
      let _ ← learnMethod method location
      learnEach location rest

/-- Publishes a method with these parameter types for each way of calling
it.  The parameter types of `method` are the full list. -/
def learnOverloads (layout : ArgumentLayout) (method : MethodType)
    (location : Location) : Infer σ Unit := do
  if method.parameters.length
      = layout.positional + (if layout.rest then 1 else 0) then
    learnEach location <| (layout.callShapes method.parameters).map
      fun parameters => { method with parameters }
  else
    fail (.broken (.parameterCount method.name method.parameters.length
      layout.positional))

/-- The return type with which a signature alone publishes a method: nothing
for a constructor, and else the declared type. -/
def declaredReturn? (signature : Signature) (method : Method NodeId) : Option Ty :=
  if method.isConstructor then some .void
  else signature.returnType.filter fun ty => !ty.isUnreachable

/-- Publishes a method whose parameter and return types are all declared. -/
def registerDeclared (id : NodeId) (method : Method NodeId)
    (signature : Signature) (location : Location) : Infer σ Unit := do
  match declaredReturn? signature method with
  | none => return
  | some returnType =>
      let arguments ← ofTree ((← getArena).argumentsOf method.arguments)
      let names ← ofTree ((← getArena).argumentNames arguments)
      match names.mapM signature.parameter? with
      | none => return
      | some parameters =>
          let lexical ← bindDefiningClass setting id
          learnOverloads (.ofArguments arguments)
            { definingClass := if method.isStatic then lexical.toMeta else lexical
              name := method.name, parameters, returnType
              throws := signature.throws, varargs := arguments.rest.isSome }
            location

/-- The resolved signature of a method definition.  It is resolved once, and
a definition that declares all its types is callable from then on. -/
def signatureOf (id : NodeId) (method : Method NodeId) : Infer σ Signature := do
  match (← getFacts).signature? id with
  | some signature => return signature
  | none =>
      let location ← locationOf id
      match (← get).catalog.resolveSignature method.declared with
      | .error name => fail (.unknownType name location)
      | .ok signature =>
          modifyFacts fun facts =>
            { facts with signatures := facts.signatures.insert id signature }
          registerDeclared setting id method signature location
          return signature

/-- The type that the method owning a parameter declares for it. -/
def declaredType? (argument : NodeId) (name : String) : Infer σ (Option Ty) := do
  match ← ofTree ((← getArena).owningMethod? argument) with
  | none => return none
  | some (owner, method) =>
      return (← signatureOf setting owner method).parameter? name

end Infer

end DeferredTyping
