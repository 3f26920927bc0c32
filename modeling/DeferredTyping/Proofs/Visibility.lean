import DeferredTyping.Proofs.Learning
import DeferredTyping.Proofs.Trees

/-!
# A visible name is never shadowed

A name is searched in a scope and in the scopes that it captures, nearest first.
Whatever a scope sees behind one of them, that one sees as well.  A scope binds a
name only when nobody it sees has bound it, so a new binding never stands in front
of one that was visible already.
-/

namespace DeferredTyping

theorem takeThrough_prefix
    {α : Type} (accepts : α → Bool) {short long : List α} (front : short <+: long) :
    takeThrough accepts short <+: takeThrough accepts long := by
  obtain ⟨others, rfl⟩ := front
  induction short with
  | nil => exact List.nil_prefix
  | cons item rest ih =>
      rw [List.cons_append, takeThrough, takeThrough]
      split
      · exact List.prefix_rfl
      · exact List.cons_prefix_cons.mpr ⟨rfl, ih⟩

theorem takeThrough_prefix_self {α : Type} (accepts : α → Bool) (list : List α) :
    takeThrough accepts list <+: list := by
  induction list with
  | nil => exact List.prefix_rfl
  | cons item rest ih =>
      rw [takeThrough]
      split
      · exact List.cons_prefix_cons.mpr ⟨rfl, List.nil_prefix⟩
      · exact List.cons_prefix_cons.mpr ⟨rfl, ih⟩

namespace Arena

theorem lineageWithin_prefix
    (arena : Arena) {fewer steps : Nat} (bound : fewer ≤ steps) (id : Option NodeId) :
    arena.lineageWithin fewer id <+: arena.lineageWithin steps id := by
  induction fewer generalizing steps id with
  | zero => exact List.nil_prefix
  | succ fewer ih =>
      cases steps with
      | zero => cases bound
      | succ steps =>
          cases id with
          | none => exact List.prefix_rfl
          | some id =>
              rw [lineageWithin, lineageWithin]
              cases arena.find? id with
              | none => exact List.prefix_rfl
              | some node =>
                  exact List.cons_prefix_cons.mpr
                    ⟨rfl, ih (Nat.le_of_succ_le_succ bound) node.parent⟩

/-- The scopes among these nodes, up to the first that isolates its locals. -/
def scopesAlong (nodes : List Node) : List NodeId :=
  (takeThrough (fun node => node.kind.isolatesLocals)
    (nodes.filter fun node => node.kind.isScope)).map Node.id

theorem scopesAlong_prefix
    {short long : List Node} (front : short <+: long) :
    scopesAlong short <+: scopesAlong long := by
  apply List.IsPrefix.map
  exact takeThrough_prefix _ (front.filter _)

theorem scopesAlong_cons_of_isScope
    {node : Node} (scope : node.kind.isScope = true) (rest : List Node) :
    scopesAlong (node :: rest) =
      node.id :: if node.kind.isolatesLocals then [] else scopesAlong rest := by
  simp only [scopesAlong, List.filter_cons, scope, if_true, takeThrough]
  split
  · rfl
  · rfl

theorem scopesAlong_cons_of_not_isScope
    {node : Node} (inner : node.kind.isScope = false) (rest : List Node) :
    scopesAlong (node :: rest) = scopesAlong rest := by
  simp only [scopesAlong, List.filter_cons, inner, Bool.false_eq_true, if_false]

theorem capturedScopes_of_find?
    {arena : Arena} {id : NodeId} {node : Node}
    (present : arena.find? id = some node) :
    ∃ steps, arena.size = steps + 1 ∧ arena.capturedScopes id =
      if node.kind.isolatesLocals then []
      else scopesAlong (arena.lineageWithin steps node.parent) := by
  have member : (id, node) ∈ arena.nodes.entries :=
    Table.mem_entries_of_get?_eq_some present
  obtain ⟨steps, size⟩ : ∃ steps, arena.size = steps + 1 :=
    Nat.exists_eq_succ_of_ne_zero (Nat.ne_of_gt (List.length_pos_of_mem member))
  refine ⟨steps, size, ?_⟩
  simp only [capturedScopes, present, ancestors, lineage, size, lineageWithin,
    List.drop_succ_cons, List.drop_zero]
  rfl

/-- Of the scopes along a lineage, those behind one of them are a front of the
scopes that this one captures. -/
theorem prefix_capturedScopes
    {arena : Arena} (keyed : arena.Keyed) {steps : Nat} (bound : steps ≤ arena.size)
    {from? : Option NodeId} {before after : List NodeId} {scope : NodeId}
    (along : scopesAlong (arena.lineageWithin steps from?) = before ++ scope :: after) :
    after <+: arena.capturedScopes scope := by
  induction steps generalizing from? before with
  | zero => simp [lineageWithin, scopesAlong, takeThrough] at along
  | succ steps ih =>
      cases from? with
      | none => simp [lineageWithin, scopesAlong, takeThrough] at along
      | some id =>
          rw [lineageWithin] at along
          cases present : arena.find? id with
          | none => simp [present, scopesAlong, takeThrough] at along
          | some node =>
              rw [present] at along
              dsimp only at along
              cases isScope : node.kind.isScope with
              | false =>
                  rw [scopesAlong_cons_of_not_isScope isScope] at along
                  exact ih (Nat.le_of_succ_le bound) along
              | true =>
                  rw [scopesAlong_cons_of_isScope isScope] at along
                  rcases List.cons_eq_append_iff.mp along with ⟨rfl, here⟩ | ⟨front, rfl, behind⟩
                  · obtain ⟨same, rfl⟩ := List.cons.inj here
                    obtain ⟨all, size, captured⟩ := capturedScopes_of_find? present
                    rw [same, keyed.id_eq present, captured]
                    split
                    · exact List.prefix_rfl
                    · apply scopesAlong_prefix
                      exact arena.lineageWithin_prefix (by omega) node.parent
                  · split at behind
                    · simp at behind
                    · exact ih (Nat.le_of_succ_le bound) behind

/-- What a scope sees behind one of the scopes it sees, that one sees as well. -/
theorem mem_visibleScopes_of_behind
    {arena : Arena} (keyed : arena.Keyed) {scope other : NodeId}
    {before after : List NodeId}
    (visible : arena.visibleScopes scope = before ++ other :: after)
    {owner : NodeId} (behind : owner ∈ after) :
    owner ∈ arena.visibleScopes other := by
  apply List.mem_cons_of_mem
  rcases List.cons_eq_append_iff.mp visible with ⟨rfl, here⟩ | ⟨front, rfl, captured⟩
  · obtain ⟨rfl, rfl⟩ := List.cons.inj here
    exact behind
  · cases present : arena.find? scope with
    | none => simp [capturedScopes, present] at captured
    | some node =>
        obtain ⟨steps, size, along⟩ := capturedScopes_of_find? present
        rw [captured] at along
        split at along
        · simp at along
        · have front := prefix_capturedScopes keyed (by omega) along.symm
          exact front.subset behind

end Arena

namespace Scopes

/-- A name that is free at its owner is bound by no scope that is seen from
there. -/
theorem free_of_owner_free
    {scopes : Scopes} {arena : Arena} {scope : NodeId} {name : String}
    (free : scopes.own? (scopes.owner arena scope name) name = none) :
    scopes.owner arena scope name = scope ∧
      ∀ other ∈ arena.visibleScopes scope, scopes.own? other name = none := by
  unfold owner at free ⊢
  cases found : (arena.visibleScopes scope).find? fun id => (scopes.own? id name).isSome with
  | some other =>
      have bound := List.find?_some found
      rw [found] at free
      simp only [Option.getD_some] at free
      rw [free] at bound
      cases bound
  | none =>
      refine ⟨rfl, ?_⟩
      intro other member
      simpa using List.find?_eq_none.mp found other member

/-- The type of a name is what its owner binds it to. -/
theorem lookup?_eq_own?_owner
    (scopes : Scopes) (arena : Arena) (scope : NodeId) (name : String) :
    scopes.lookup? arena scope name = scopes.own? (scopes.owner arena scope name) name := by
  unfold lookup? owner
  have itself : scope ∈ arena.visibleScopes scope := List.mem_cons_self
  generalize arena.visibleScopes scope = visible at itself
  cases found : visible.find? fun id => (scopes.own? id name).isSome with
  | none =>
      have unbound : ∀ other ∈ visible, scopes.own? other name = none := by
        intro other member
        simpa using List.find?_eq_none.mp found other member
      rw [Option.getD_none, unbound scope itself]
      exact List.findSome?_eq_none_iff.mpr unbound
  | some owner =>
      obtain ⟨owned, before, after, rfl, nearer⟩ := List.find?_eq_some_iff_append.mp found
      obtain ⟨ty, bound⟩ := Option.isSome_iff_exists.mp owned
      rw [Option.getD_some, bound]
      refine List.findSome?_eq_some_iff.mpr ⟨before, owner, after, rfl, bound, ?_⟩
      intro other member
      simpa using nearer other member

/-- A name that nobody owned is seen where it was bound. -/
theorem lookup?_bind_self
    {scopes : Scopes} {arena : Arena} {scope : NodeId} {name : String} {ty : Ty}
    (free : scopes.own? (scopes.owner arena scope name) name = none) :
    (scopes.bind (scopes.owner arena scope name) name ty).lookup? arena scope name =
      some ty := by
  rw [(free_of_owner_free free).1]
  refine List.findSome?_eq_some_iff.mpr ⟨[], scope, _, rfl, own?_bind_self _ _ _ _, ?_⟩
  intro other member
  cases member

/-- A name that is visible somewhere is visible there with the same type after a
free name was bound. -/
theorem lookup?_bind_of_lookup?
    {scopes : Scopes} {arena : Arena} (keyed : arena.Keyed)
    {binder scope : NodeId} {bound name : String} {ty known : Ty}
    (free : scopes.own? (scopes.owner arena binder bound) bound = none)
    (visible : scopes.lookup? arena scope name = some known) :
    (scopes.bind (scopes.owner arena binder bound) bound ty).lookup? arena scope name =
      some known := by
  obtain ⟨here, unbound⟩ := free_of_owner_free free
  rw [here] at free ⊢
  obtain ⟨before, owner, after, seen, owned, nearer⟩ := List.findSome?_eq_some_iff.mp visible
  refine List.findSome?_eq_some_iff.mpr ⟨before, owner, after, seen, ?_, ?_⟩
  · exact own?_bind_of_known free owned
  · intro other member
    by_cases sameScope : other = binder
    · subst sameScope
      by_cases sameName : name = bound
      · -- The owner stands behind the binder, which would have seen it.
        subst sameName
        obtain ⟨front, back, rfl⟩ := List.append_of_mem member
        rw [List.append_assoc, List.cons_append] at seen
        have behind : owner ∈ arena.visibleScopes other :=
          Arena.mem_visibleScopes_of_behind keyed seen
            (List.mem_append_right _ List.mem_cons_self)
        rw [unbound owner behind] at owned
        cases owned
      · rw [own?_bind_of_name_ne _ _ sameName]
        exact nearer other member
    · rw [own?_bind_of_scope_ne _ sameScope]
      exact nearer other member

end Scopes

namespace Facts

/-- What a scope itself binds is seen from it. -/
theorem localType?_of_own?
    {facts : Facts} {scope : NodeId} {name : String} {ty : Ty}
    (bound : facts.scopes.own? scope name = some ty) :
    facts.localType? scope name = some ty := by
  rw [localType?, Scopes.lookup?, Arena.visibleScopes, List.findSome?_cons, bound]

theorem Adds.localType?
    {scriptClass : String} {catalog : Catalog} {before after : Facts}
    (adds : Facts.Adds scriptClass catalog before after)
    (keyed : before.arena.Keyed)
    {scope : NodeId} {name : String} {ty : Ty}
    (visible : before.localType? scope name = some ty) :
    after.localType? scope name = some ty := by
  cases adds with
  | «local» free => exact Scopes.lookup?_bind_of_lookup? keyed free visible
  | definingClass _ _ | signature _ _ | method _ | delegateTarget _ _ => exact visible

theorem Learns.localType?
    {scriptClass : String} {catalog : Catalog} {before after : Facts}
    (learns : Facts.Learns scriptClass catalog before after)
    (keyed : before.arena.Keyed)
    {scope : NodeId} {name : String} {ty : Ty}
    (visible : before.localType? scope name = some ty) :
    after.localType? scope name = some ty := by
  cases learns with
  | adds added => exact added.localType? keyed visible
  | returnType => exact visible

end Facts

end DeferredTyping
