import DeferredTyping.Inference.Rules
import DeferredTyping.Proofs.Run

/-!
# The join of two branches

Two types join in the one that accepts the other.  That a branch never completes is no case of
its own, because what never completes is accepted everywhere.  When each of two types accepts
the other, the one of the alternative is taken, and only then does the order matter.
-/

namespace DeferredTyping

/-- A choice takes the type of one of its branches. -/
theorem Assignable.eq_of_join? {isParent : Assignable} {thenType elseType ty : Ty}
    (joins : join? isParent thenType elseType = some ty) :
    ty = thenType ∨ ty = elseType := by
  unfold join? at joins
  split at joins
  · exact .inr (Option.some.inj joins).symm
  · split at joins
    · exact .inl (Option.some.inj joins).symm
    · cases joins

namespace Catalog

variable {catalog : Catalog} {thenType elseType joined : Ty}

/-- Which type is taken depends on nothing but which of them accepts the other. -/
theorem join?_eq (catalog : Catalog) (thenType elseType : Ty) :
    Assignable.join? catalog.isParent thenType elseType =
      if catalog.isParent elseType thenType then some elseType
      else if catalog.isParent thenType elseType then some thenType
      else none := by
  have accepted : ∀ expected given : Ty,
      (given.isUnreachable || catalog.isParent expected given) =
        catalog.isParent expected given := by
    intro expected given
    cases never : given.isUnreachable with
    | false => exact Bool.false_or _
    | true => rw [catalog.isParent_of_isUnreachable expected never, Bool.or_true]
  rw [Assignable.join?, accepted, accepted]

/-- A join accepts both branches. -/
theorem isParent_of_join?
    (success : Assignable.join? catalog.isParent thenType elseType = some joined) :
    catalog.isParent joined thenType = true ∧ catalog.isParent joined elseType = true := by
  rw [join?_eq] at success
  split at success
  · rename_i accepts
    cases success
    exact ⟨accepts, catalog.isParent_refl elseType⟩
  · split at success
    · rename_i accepts
      cases success
      exact ⟨catalog.isParent_refl thenType, accepts⟩
    · cases success

theorem join?_eq_none_iff :
    Assignable.join? catalog.isParent thenType elseType = none ↔
      catalog.isParent thenType elseType = false ∧
        catalog.isParent elseType thenType = false := by
  rw [join?_eq]
  cases catalog.isParent thenType elseType <;> cases catalog.isParent elseType thenType <;> simp

theorem join?_self (catalog : Catalog) (ty : Ty) :
    Assignable.join? catalog.isParent ty ty = some ty := by
  rw [join?_eq, if_pos (catalog.isParent_refl ty)]

/-- The order of the branches matters only to types that accept each other. -/
theorem join?_comm
    (apart : catalog.isParent thenType elseType = true →
      catalog.isParent elseType thenType = true → thenType = elseType) :
    Assignable.join? catalog.isParent elseType thenType =
      Assignable.join? catalog.isParent thenType elseType := by
  rw [join?_eq, join?_eq]
  cases forth : catalog.isParent thenType elseType with
  | false => simp
  | true =>
      cases back : catalog.isParent elseType thenType with
      | false => simp
      | true => simp [apart forth back]

end Catalog

/-- A choice whose condition and branches have types answers with the join of the branches, and
fails when there is none. -/
theorem Infer.run_ifElse
    {σ : Type} {infer : NodeId → Infer σ (Option Ty)} {before decided chosen after : Session σ}
    {condition elseBody : NodeId} {thenBody : Option NodeId} {conditionType thenType elseType : Ty}
    (location : Location)
    (decides : Returns (infer condition) before (some conditionType) decided)
    (visits : Returns (optional infer thenBody) decided (some thenType) chosen)
    (alternates : Returns (infer elseBody) chosen (some elseType) after) :
    (ifElse infer condition thenBody (some elseBody) location).run before =
      (match Assignable.join? after.catalog.isParent thenType elseType with
        | some joined => .ok (some joined)
        | none => .error (.failed (.mismatch thenType elseType .branches location)),
      after) := by
  rw [ifElse, run_bind_of_returns decides, run_bind_of_returns visits,
    run_bind_of_returns alternates]
  simp only [Option.isNone_some, Bool.false_eq_true, if_false, run_bind, run_get]
  cases joins : Assignable.join? after.catalog.isParent thenType elseType with
  | none => rfl
  | some joined => rfl

namespace Catalog

/-- In every catalogue, two types join in one of them that accepts both and that everything
accepts that accepts both; they have no join exactly when neither accepts the other, and a type
joins with itself.  Unless they are two types that accept each other, they join alike in either
order.  A choice between branches of these types takes their join, and fails for the mismatch
of the two when they have none. -/
theorem branches_join_in_smaller_upper_bound (catalog : Catalog) (thenType elseType : Ty) :
    (∀ joined, Assignable.join? catalog.isParent thenType elseType = some joined →
      (joined = thenType ∨ joined = elseType) ∧
      catalog.isParent joined thenType = true ∧ catalog.isParent joined elseType = true ∧
      ∀ bound, catalog.isParent bound thenType = true → catalog.isParent bound elseType = true →
        catalog.isParent bound joined = true) ∧
    (Assignable.join? catalog.isParent thenType elseType = none ↔
      catalog.isParent thenType elseType = false ∧ catalog.isParent elseType thenType = false) ∧
    Assignable.join? catalog.isParent thenType thenType = some thenType ∧
    (¬ (thenType ≠ elseType ∧ catalog.isParent thenType elseType = true ∧
        catalog.isParent elseType thenType = true) →
      Assignable.join? catalog.isParent elseType thenType =
        Assignable.join? catalog.isParent thenType elseType) ∧
    ∀ {σ : Type} {infer : NodeId → Infer σ (Option Ty)} {before decided chosen after : Session σ}
      {condition elseBody : NodeId} {thenBody : Option NodeId} {conditionType : Ty},
      after.catalog = catalog →
      Infer.Returns (infer condition) before (some conditionType) decided →
      Infer.Returns (Infer.optional infer thenBody) decided (some thenType) chosen →
      Infer.Returns (infer elseBody) chosen (some elseType) after →
      ∀ location,
        (Infer.ifElse infer condition thenBody (some elseBody) location).run before =
          (match Assignable.join? catalog.isParent thenType elseType with
            | some joined => .ok (some joined)
            | none => .error (.failed (.mismatch thenType elseType .branches location)),
          after) := by
  refine ⟨?_, join?_eq_none_iff, catalog.join?_self thenType, ?_, ?_⟩
  · intro joined success
    obtain ⟨acceptsThen, acceptsElse⟩ := isParent_of_join? success
    have one := Assignable.eq_of_join? success
    refine ⟨one, acceptsThen, acceptsElse, fun bound aboveThen aboveElse => ?_⟩
    rcases one with rfl | rfl
    · exact aboveThen
    · exact aboveElse
  · intro apart
    exact join?_comm fun forth back =>
      Decidable.byContradiction fun different => apart ⟨different, forth, back⟩
  · rintro σ infer before decided chosen after condition elseBody thenBody conditionType rfl
      decides visits alternates location
    exact Infer.run_ifElse location decides visits alternates

/-- The root class and its short name accept each other: the alternative decides. -/
example :
    Assignable.join? builtin.isParent (.object "Object") (.object objectName) =
        some (.object objectName) ∧
      Assignable.join? builtin.isParent (.object objectName) (.object "Object") =
        some (.object "Object") := by
  decide +kernel

end Catalog

end DeferredTyping
