import DeferredTyping.Catalog.Basic

/-!
# The class hierarchy

The declared parents of classes form an arbitrary graph: parents may be
undeclared, and chains of parents may run in circles.  `ancestors` closes a
name under the parent relation, `isParent` is the relation of assignability
that follows, and `superclassChain` is the way on which methods are looked
up.
-/

namespace DeferredTyping.Catalog

/-- The full names of the parents of a class; none for an unknown class. -/
def parentNames (catalog : Catalog) (name : String) : List String :=
  match catalog.entry? name with
  | some entry => entry.parents.map catalog.canonical
  | none => []

/-- The names that are new to a list, each of them once. -/
def fresh (seen : List String) : List String → List String
  | [] => []
  | name :: rest =>
      if seen.contains name then fresh seen rest
      else name :: fresh (name :: seen) rest

/-- Closes a set of seen names: takes a name off the stack and pushes those
of its parents that were not seen yet. -/
def closeFrom (catalog : Catalog) :
    Nat → (stack seen : List String) → List String
  | 0, _, seen => seen
  | _ + 1, [], seen => seen
  | steps + 1, name :: stack, seen =>
      let found := fresh seen (catalog.parentNames name)
      catalog.closeFrom steps (found ++ stack) (seen ++ found)

/-- How many parents all classes together name. -/
def parentCount (catalog : Catalog) : Nat :=
  catalog.classes.values.foldr (fun entry count => entry.parents.length + count) 0

/-- Every class and interface that a class extends or implements, directly
or through others.  Each step of the closure takes off a name that was
pushed once, and no more names are pushed than parents are named. -/
def ancestors (catalog : Catalog) (name : String) : List String :=
  catalog.closeFrom (catalog.parentCount + 1) [name] []

/-- Assignability of shapes, class-object flags of the whole type aside. -/
def shapeAccepts (catalog : Catalog) (expected given : Shape) : Bool :=
  expected == given ||
    match expected, given with
    | .primitive target, .primitive source => source.widensTo target
    | .object _, .null | .array _ _, .null => true
    | .object name, .array _ _ => catalog.canonical? name == some objectName
    | .object expectedName, .object givenName =>
        let name := catalog.canonical expectedName
        name == objectName || (catalog.ancestors givenName).contains name
    | .array expectedElement expectedIsMeta, .array givenElement givenIsMeta =>
        (Ty.mk expectedElement expectedIsMeta).isReference
          && (Ty.mk givenElement givenIsMeta).isReference
          && catalog.shapeAccepts expectedElement givenElement
    | _, _ => false

/-- A value of type `given` may be used where `expected` is.  Class objects
and instances never stand in for each other; what never completes stands in
for everything. -/
def isParent (catalog : Catalog) (expected given : Ty) : Bool :=
  given.isUnreachable ||
    (expected.isMeta == given.isMeta
      && catalog.shapeAccepts expected.shape given.shape)

theorem isParent_refl (catalog : Catalog) (ty : Ty) :
    catalog.isParent ty ty = true := by
  unfold isParent shapeAccepts
  simp

/-- What never completes stands in for everything. -/
theorem isParent_of_isUnreachable (catalog : Catalog) (expected : Ty) {given : Ty}
    (never : given.isUnreachable = true) :
    catalog.isParent expected given = true := by
  simp [isParent, never]

/-- The direct superclass, a class object for a class object.  Interfaces and
arrays stand directly below the root class. -/
def superclass? (catalog : Catalog) (ty : Ty) : Option Ty :=
  let parent : Option Ty :=
    match ty.shape with
    | .object name => do
        let entry ← catalog.entry? name
        match entry.superclass with
        | some superclass => catalog.resolve superclass
        | none => if entry.isInterface then some (.object objectName) else none
    | .array _ _ => some (.object objectName)
    | _ => none
  parent.map fun parent => { parent with isMeta := ty.isMeta }

/-- Follows superclasses until there is none or one comes up again. -/
def chainFrom (catalog : Catalog) : Nat → (visited : List Ty) → Ty → List Ty
  | 0, _, _ => []
  | steps + 1, visited, ty =>
      if visited.contains ty then []
      else ty ::
        match catalog.superclass? ty with
        | some parent => catalog.chainFrom steps (ty :: visited) parent
        | none => []

/-- A type, its superclass, and so on up to the end or the first repetition.
Behind the first type stand only the resolved superclasses of known classes
and the root class, so the chain is no longer than the catalogue and three
more. -/
def superclassChain (catalog : Catalog) (ty : Ty) : List Ty :=
  catalog.chainFrom (catalog.classes.size + 3) [] ty

end DeferredTyping.Catalog
