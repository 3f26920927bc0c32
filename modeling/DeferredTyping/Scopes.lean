import DeferredTyping.Ty.Basic
import DeferredTyping.Tree.Walk

/-!
# Local bindings

Scripts, classes, interfaces, methods and blocks are scopes, and each has
bindings of its own.  Only a block sees the bindings of the scope around
it.  Where scopes lie is read off the tree; a scope table holds the
bindings alone.
-/

namespace DeferredTyping

/-- The front of a list up to and including the first accepted item. -/
def takeThrough {α : Type} (accepts : α → Bool) : List α → List α
  | [] => []
  | item :: rest => if accepts item then [item] else item :: takeThrough accepts rest

/-- The scopes around a node whose locals it sees when it captures them: the
enclosing scopes up to the first that isolates its locals. -/
def Arena.capturedScopes (arena : Arena) (id : NodeId) : List NodeId :=
  match arena.find? id with
  | none => []
  | some node =>
      if node.kind.isolatesLocals then []
      else
        let scopes := (arena.ancestors id).filter fun node => node.kind.isScope
        (takeThrough (fun node => node.kind.isolatesLocals) scopes).map Node.id

/-- The scopes in which a name is searched, nearest first: the scope itself
and those it captures. -/
def Arena.visibleScopes (arena : Arena) (scope : NodeId) : List NodeId :=
  scope :: arena.capturedScopes scope

/-- The bindings of each scope by name. -/
structure Scopes where
  bindings : Table NodeId (Table String Ty) := {}
deriving DecidableEq, Repr, Inhabited

namespace Scopes

/-- The type a scope itself binds a name to. -/
def own? (scopes : Scopes) (scope : NodeId) (name : String) : Option Ty :=
  (scopes.bindings.get? scope).bind fun named => named.get? name

/-- The type of a name as seen from a scope. -/
def lookup? (scopes : Scopes) (arena : Arena) (scope : NodeId) (name : String) :
    Option Ty :=
  (arena.visibleScopes scope).findSome? fun id => scopes.own? id name

/-- The scope that owns a name as seen from a scope.  A name that nobody
binds belongs to the scope itself. -/
def owner (scopes : Scopes) (arena : Arena) (scope : NodeId) (name : String) :
    NodeId :=
  ((arena.visibleScopes scope).find? fun id => (scopes.own? id name).isSome).getD
    scope

/-- Binds a name in a scope. -/
def bind (scopes : Scopes) (scope : NodeId) (name : String) (ty : Ty) : Scopes :=
  let named := (scopes.bindings.get? scope).getD {}
  ⟨scopes.bindings.insert scope (named.insert name ty)⟩

/-- The bindings of a scope in order of their names; none for a scope that
never bound a name. -/
def variables? (scopes : Scopes) (scope : NodeId) : Option (List (String × Ty)) :=
  (scopes.bindings.get? scope).map Table.entries

@[simp] theorem own?_bind_self (scopes : Scopes) (scope : NodeId) (name : String)
    (ty : Ty) : (scopes.bind scope name ty).own? scope name = some ty := by
  simp [own?, bind]

theorem own?_bind_of_scope_ne (scopes : Scopes) {scope other : NodeId}
    (different : other ≠ scope) (name bound : String) (ty : Ty) :
    (scopes.bind scope bound ty).own? other name = scopes.own? other name := by
  simp [own?, bind, Table.get?_insert_of_ne _ different]

theorem own?_bind_of_name_ne (scopes : Scopes) (scope : NodeId)
    {name bound : String} (different : name ≠ bound) (ty : Ty) :
    (scopes.bind scope bound ty).own? scope name = scopes.own? scope name := by
  cases known : scopes.bindings.get? scope with
  | none => simp [own?, bind, known, Table.get?_insert_of_ne _ different]
  | some named =>
      simp [own?, bind, known, Table.get?_insert_of_ne _ different]

/-- A name without a binding takes one; the other bindings stay. -/
theorem own?_bind_of_known {scopes : Scopes} {owner scope : NodeId}
    {bound name : String} {ty known : Ty}
    (free : scopes.own? owner bound = none)
    (present : scopes.own? scope name = some known) :
    (scopes.bind owner bound ty).own? scope name = some known := by
  by_cases sameScope : scope = owner
  · subst sameScope
    by_cases sameName : name = bound
    · rw [sameName, free] at present
      cases present
    · rw [own?_bind_of_name_ne _ _ sameName, present]
  · rw [own?_bind_of_scope_ne _ sameScope, present]

end Scopes

end DeferredTyping
