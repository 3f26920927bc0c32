import DeferredTyping.Proofs.Ancestors

/-!
# Assignability is a preorder

Whether one shape accepts another is given by the relation `Shape.Accepts`, which
has one constructor for each way of accepting.  Along it, what is accepted by
something accepted is accepted, provided that the root class has no parent but
itself: an array is accepted by the root class alone, and a class that the root class
inherited from would have to accept arrays as well.
-/

namespace DeferredTyping

/-- Widening a number twice is widening it. -/
theorem Primitive.widensTo_trans : ∀ {source middle target : Primitive},
    source.widensTo middle = true → middle.widensTo target = true →
      source.widensTo target = true := by
  intro source middle target
  cases source <;> cases middle <;> cases target <;> decide

/-- A value of the second shape may be used where the first is expected. -/
inductive Shape.Accepts (catalog : Catalog) : Shape → Shape → Prop where
  | same (shape : Shape) : Accepts catalog shape shape
  | widens {target source : Primitive} :
      source.widensTo target = true →
      Accepts catalog (.primitive target) (.primitive source)
  | nullObject (name : String) : Accepts catalog (.object name) .null
  | nullArray (element : Shape) (elementIsMeta : Bool) :
      Accepts catalog (.array element elementIsMeta) .null
  | objectArray {name : String} (element : Shape) (elementIsMeta : Bool) :
      catalog.canonical? name = some objectName →
      Accepts catalog (.object name) (.array element elementIsMeta)
  | root {name : String} (given : String) :
      catalog.canonical name = objectName →
      Accepts catalog (.object name) (.object given)
  | inherits {name given : String} :
      catalog.Inherits given (catalog.canonical name) →
      Accepts catalog (.object name) (.object given)
  | arrays {expected given : Shape} {expectedIsMeta givenIsMeta : Bool} :
      (Ty.mk expected expectedIsMeta).isReference = true →
      (Ty.mk given givenIsMeta).isReference = true →
      Accepts catalog expected given →
      Accepts catalog (.array expected expectedIsMeta) (.array given givenIsMeta)

theorem Shape.Accepts.eq_unreachable {catalog : Catalog} {given : Shape}
    (accepts : Shape.Accepts catalog .unreachable given) : given = .unreachable := by
  cases accepts
  rfl

namespace Catalog

variable {catalog : Catalog}

theorem accepts_of_shapeAccepts {expected given : Shape}
    (accepted : catalog.shapeAccepts expected given = true) :
    expected.Accepts catalog given := by
  induction expected generalizing given with
  | void | unreachable | null =>
      simp only [shapeAccepts, Bool.or_false, beq_iff_eq] at accepted
      exact accepted ▸ .same _
  | primitive target =>
      cases given with
      | primitive source =>
          simp only [shapeAccepts, Bool.or_eq_true, beq_iff_eq] at accepted
          rcases accepted with same | widens
          · exact same ▸ .same _
          · exact .widens widens
      | _ => simp [shapeAccepts] at accepted
  | object name =>
      cases given with
      | null => exact .nullObject name
      | array element elementIsMeta =>
          simp only [shapeAccepts, Bool.or_eq_true, beq_iff_eq, reduceCtorEq, false_or]
            at accepted
          exact .objectArray element elementIsMeta accepted
      | object given =>
          simp only [shapeAccepts, Bool.or_eq_true, beq_iff_eq, List.contains_iff_mem,
            mem_ancestors_iff] at accepted
          rcases accepted with same | root | inherits
          · exact same ▸ .same _
          · exact .root given root
          · exact .inherits inherits
      | _ => simp [shapeAccepts] at accepted
  | array expected expectedIsMeta ih =>
      cases given with
      | null => exact .nullArray expected expectedIsMeta
      | array given givenIsMeta =>
          simp only [shapeAccepts, Bool.or_eq_true, beq_iff_eq, Bool.and_eq_true] at accepted
          rcases accepted with same | ⟨⟨reference, given⟩, element⟩
          · exact same ▸ .same _
          · exact .arrays reference given (ih element)
      | _ => simp [shapeAccepts] at accepted

theorem shapeAccepts_of_accepts {expected given : Shape}
    (accepts : expected.Accepts catalog given) :
    catalog.shapeAccepts expected given = true := by
  induction accepts with
  | same shape =>
      unfold shapeAccepts
      simp
  | widens widens => simp [shapeAccepts, widens]
  | nullObject name => simp [shapeAccepts]
  | nullArray element elementIsMeta => simp [shapeAccepts]
  | objectArray element elementIsMeta root => simp [shapeAccepts, root]
  | root given root => simp [shapeAccepts, root]
  | inherits inherits => simp [shapeAccepts, mem_ancestors_iff, inherits]
  | arrays reference given _ ih => simp [shapeAccepts, reference, given, ih]

theorem shapeAccepts_iff {expected given : Shape} :
    catalog.shapeAccepts expected given = true ↔ expected.Accepts catalog given :=
  ⟨accepts_of_shapeAccepts, shapeAccepts_of_accepts⟩

/-- The builtin classes are known, and the root class has no parent but itself. -/
structure Rooted (catalog : Catalog) : Prop where
  knows : catalog.KnowsBuiltins
  root : ∀ parent ∈ catalog.parentNames objectName, parent = objectName

namespace Rooted

variable (rooted : catalog.Rooted)

include rooted

/-- The root class inherits from nothing but itself. -/
theorem eq_of_inherits {ancestor : String} (inherits : catalog.Inherits objectName ancestor) :
    ancestor = objectName := by
  induction inherits with
  | single given => exact rooted.root _ given
  | tail _ given ih => exact rooted.root _ (ih ▸ given)

/-- What a class inherits when it stands for the root class. -/
theorem eq_of_inherits_of_canonical {name ancestor : String}
    (root : catalog.canonical name = objectName)
    (inherits : catalog.Inherits name ancestor) :
    ancestor = objectName := by
  rw [← rooted.knows.inherits_canonical, root] at inherits
  exact rooted.eq_of_inherits inherits

/-- A name with the full name of the root class stands for it. -/
theorem canonical?_of_canonical {name : String}
    (root : catalog.canonical name = objectName) :
    catalog.canonical? name = some objectName := by
  cases stands : catalog.canonical? name with
  | none =>
      have same : name = objectName := by rw [← root, canonical, stands, Option.getD_none]
      rw [same, rooted.knows.canonical?_objectName] at stands
      cases stands
  | some full =>
      rw [canonical, stands] at root
      exact congrArg some root

theorem accepts_trans {first second third : Shape}
    (early : first.Accepts catalog second) (late : second.Accepts catalog third) :
    first.Accepts catalog third := by
  induction early generalizing third with
  | same shape => exact late
  | widens widens =>
      cases late with
      | same => exact .widens widens
      | widens onward => exact .widens (Primitive.widensTo_trans onward widens)
  | nullObject name =>
      cases late with
      | same => exact .nullObject name
  | nullArray element elementIsMeta =>
      cases late with
      | same => exact .nullArray element elementIsMeta
  | objectArray element elementIsMeta root =>
      cases late with
      | same => exact .objectArray element elementIsMeta root
      | nullArray => exact .nullObject _
      | arrays => exact .objectArray _ _ root
  | root given root =>
      cases late with
      | same => exact .root given root
      | nullObject => exact .nullObject _
      | objectArray => exact .objectArray _ _ (rooted.canonical?_of_canonical root)
      | root => exact .root _ root
      | inherits => exact .root _ root
  | inherits inherits =>
      cases late with
      | same => exact .inherits inherits
      | nullObject => exact .nullObject _
      | objectArray element elementIsMeta root =>
          have above := rooted.eq_of_inherits_of_canonical (canonical_of_canonical? root) inherits
          exact .objectArray element elementIsMeta (rooted.canonical?_of_canonical above)
      | root given root =>
          exact .root given (rooted.eq_of_inherits_of_canonical root inherits)
      | inherits onward =>
          exact .inherits (onward.trans (rooted.knows.inherits_canonical.mpr inherits))
  | arrays reference given element ih =>
      cases late with
      | same => exact .arrays reference given element
      | nullArray => exact .nullArray _ _
      | arrays _ last onward => exact .arrays reference last (ih onward)

/-- What is accepted by something accepted is accepted. -/
theorem isParent_trans {first second third : Ty}
    (early : catalog.isParent first second = true)
    (late : catalog.isParent second third = true) :
    catalog.isParent first third = true := by
  simp only [isParent, Ty.isUnreachable, Bool.or_eq_true, Bool.and_eq_true, beq_iff_eq,
    shapeAccepts_iff] at early late ⊢
  rcases late with never | ⟨sameFlag, accepts⟩
  · exact .inl never
  · rcases early with never | ⟨flag, accepted⟩
    · -- Only what never completes is accepted where it is expected.
      rw [never] at accepts
      exact .inl accepts.eq_unreachable
    · exact .inr ⟨flag.trans sameFlag, rooted.accepts_trans accepted accepts⟩

end Rooted

/-- The catalogues that are built from the builtin one. -/
inductive Built : Catalog → Prop where
  | builtin : Built builtin
  | define {catalog : Catalog} (built : Built catalog) (declaration : TypeDeclaration) :
      Built (catalog.define declaration)
  | withClass {catalog : Catalog} (built : Built catalog) (name : String)
      (superclass : Option String) : Built (catalog.withClass name superclass)
  | withMethod {catalog : Catalog} (built : Built catalog) (method : LibraryMethod) :
      Built (catalog.withMethod method)

theorem Built.knowsBuiltins (built : catalog.Built) : catalog.KnowsBuiltins := by
  induction built with
  | builtin => decide +kernel
  | define _ declaration ih => exact ih.define declaration
  | withClass _ name superclass ih => exact ih.define { name, superclass }
  | withMethod _ _ ih => exact ih

/-- In every catalogue that is built from the builtin one and in which the root class
has no parent but itself, assignability is a preorder on all types. -/
theorem assignability_is_preorder
    (built : catalog.Built)
    (root : ∀ parent ∈ catalog.parentNames objectName, parent = objectName) :
    (∀ ty, catalog.isParent ty ty = true) ∧
      ∀ first second third, catalog.isParent first second = true →
        catalog.isParent second third = true → catalog.isParent first third = true := by
  have rooted : catalog.Rooted := ⟨built.knowsBuiltins, root⟩
  exact ⟨catalog.isParent_refl, fun _ _ _ => rooted.isParent_trans⟩

/-- Two classes that extend each other, one of them with an undeclared interface, a
class whose name is the short name of the root class, and the root class declared
once more. -/
def circular : Catalog :=
  (((builtin.withClass "Left" (some "Right")).define
    { name := "Right", superclass := some "Left", interfaces := ["Missing"] }).withClass
      "Object" (some "Right")).withClass objectName none

theorem assignability_is_preorder_of_circular :
    circular.Built ∧ (∀ parent ∈ circular.parentNames objectName, parent = objectName) ∧
      circular.isParent (.object "Missing") (.object "Left") = true ∧
      circular.isParent (.object "Left") (.object "Object") = true ∧
      circular.isParent (.object "Missing") (.object "Object") = true := by
  have built : circular.Built :=
    .withClass (.withClass (.define (.withClass .builtin _ _) _) _ _) _ _
  have root : ∀ parent ∈ circular.parentNames objectName, parent = objectName := by
    decide +kernel
  have early : circular.isParent (.object "Missing") (.object "Left") = true := by
    decide +kernel
  have late : circular.isParent (.object "Left") (.object "Object") = true := by
    decide +kernel
  exact ⟨built, root, early, late, (assignability_is_preorder built root).2 _ _ _ early late⟩

end Catalog

end DeferredTyping
