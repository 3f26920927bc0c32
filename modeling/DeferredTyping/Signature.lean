import DeferredTyping.Table
import DeferredTyping.Catalog.Basic
import DeferredTyping.Tree.Kind

/-!
# Resolved signatures

What a method definition declares, with its type names resolved.  The return
slot holds the declared type until the method itself has a type, and that
type afterwards.
-/

namespace DeferredTyping

/-- The resolved types that a method definition declares. -/
structure Signature where
  parameters : Table String Ty := {}
  returnType : Option Ty := none
  throws : List Ty := []
deriving DecidableEq, Repr, Inhabited

/-- The declared type of a parameter. -/
def Signature.parameter? (signature : Signature) (name : String) : Option Ty :=
  signature.parameters.get? name

namespace Catalog

/-- Resolves a written name, or gives the name back. -/
def resolveOrName (catalog : Catalog) (typeName : String) : Except String Ty :=
  match catalog.resolve typeName with
  | some ty => .ok ty
  | none => .error typeName

/-- Resolves the declared types of a method: parameters, then the return
type, then thrown types.  The error is the first name that stands for no
type.  A parameter that is declared twice keeps its last type. -/
def resolveSignature (catalog : Catalog) (declared : DeclaredSignature) :
    Except String Signature := do
  let parameters ← declared.parameters.foldlM
    (fun parameters (name, typeName) => do
      return parameters.insert name (← catalog.resolveOrName typeName))
    ({} : Table String Ty)
  let returnType ← declared.returns.mapM catalog.resolveOrName
  let throws ← declared.throws.mapM catalog.resolveOrName
  return { parameters, returnType, throws }

end Catalog

/-- The signatures of method definitions by node. -/
structure SignatureTable where
  signatures : Table NodeId Signature := {}
deriving DecidableEq, Repr, Inhabited

namespace SignatureTable

def get? (table : SignatureTable) (method : NodeId) : Option Signature :=
  table.signatures.get? method

def insert (table : SignatureTable) (method : NodeId) (signature : Signature) :
    SignatureTable :=
  ⟨table.signatures.insert method signature⟩

/-- Fills the return slot of a method's signature. -/
def setReturnType (table : SignatureTable) (method : NodeId) (ty : Ty) :
    SignatureTable :=
  table.insert method { (table.get? method).getD {} with returnType := some ty }

end SignatureTable

end DeferredTyping
