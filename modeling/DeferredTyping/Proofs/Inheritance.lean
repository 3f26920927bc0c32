import Mathlib.Logic.Relation
import DeferredTyping.Proofs.MethodLookup

/-!
# Subtypes and the methods of their supertypes

Two walks go up the declared classes.  Assignability follows every parent that a class names,
and looking up a method follows superclasses alone, one after the other.  They agree where a
type stands below another one by superclasses: such a subtype offers whatever the supertype
offers.  They part at interfaces, and at a superclass whose written name is read as no class.
-/

namespace DeferredTyping

variable {σ : Type}

namespace Catalog

variable {catalog : Catalog}

/-- The second type is the first one or a superclass of it, directly or through others. -/
abbrev Extends (catalog : Catalog) : Ty → Ty → Prop :=
  Relation.ReflTransGen fun lower upper => catalog.superclass? lower = some upper

/-- The way up goes on with the superclass of each type that it passes. -/
theorem GoesUp.superclass_mem
    {ty lower upper : Ty} {chain : List Ty} (goesUp : catalog.GoesUp ty chain)
    (passed : lower ∈ chain) (above : catalog.superclass? lower = some upper) :
    upper ∈ chain := by
  obtain ⟨before, after, rfl⟩ := List.append_of_mem passed
  cases after with
  | nil => exact goesUp.ends lower (by simp) upper above
  | cons next rest =>
      have follows := List.isChain_append.mp goesUp.follows
      have goesOn : catalog.superclass? lower = some next :=
        (List.isChain_cons_cons.mp follows.2.1).1
      cases goesOn.symm.trans above
      simp

/-- A lookup passes the type itself and its superclasses, and nothing else. -/
theorem mem_superclassChain_iff
    (knows : catalog.KnowsBuiltins) {ty upper : Ty} :
    upper ∈ catalog.superclassChain ty ↔ catalog.Extends ty upper := by
  have goesUp := goesUp_superclassChain knows ty
  constructor
  · have below : ∀ other ∈ catalog.superclassChain ty, catalog.Extends ty other :=
      goesUp.forall_mem .refl fun _ _ above below => below.tail above
    exact below upper
  · intro below
    induction below with
    | refl =>
        obtain ⟨rest, same⟩ := List.head?_eq_some_iff.mp goesUp.first
        exact same ▸ List.mem_cons_self
    | tail _ above ih => exact goesUp.superclass_mem ih above

/-- A step from a class to a parent of it that a lookup does not take: to an interface, or to
a superclass whose written name is read as a builtin type or an array, or not at all. -/
inductive StepsAside (catalog : Catalog) (lower upper : String) : Prop where
  | interface {entry : ClassEntry} {written : String}
      (known : catalog.entry? lower = some entry) (implements : written ∈ entry.interfaces)
      (means : catalog.canonical written = upper)
  | unread {entry : ClassEntry} {written : String}
      (known : catalog.entry? lower = some entry) (declares : entry.superclass = some written)
      (means : catalog.canonical written = upper)
      (unread : ∀ ty ∈ catalog.resolve written, ty.className? = none)

/-- Among the parents that lead from one class up to another, there is one that a lookup does
not go to. -/
def InheritsAside (catalog : Catalog) (lower upper : String) : Prop :=
  ∃ middle parent, Relation.ReflTransGen catalog.NamesParent lower middle ∧
    catalog.StepsAside middle parent ∧
    Relation.ReflTransGen catalog.NamesParent parent upper

theorem superclass?_or_stepsAside_of_namesParent
    {lower upper : String} (names : catalog.NamesParent lower upper) :
    catalog.superclass? (.object lower) = some (.object upper) ∨
      catalog.StepsAside lower upper := by
  unfold NamesParent parentNames at names
  split at names
  · rename_i entry known
    obtain ⟨written, given, means⟩ := List.mem_map.mp names
    rcases List.mem_append.mp given with declares | implements
    · have declares : entry.superclass = some written := Option.mem_toList.mp declares
      by_cases unread : ∀ ty ∈ catalog.resolve written, ty.className? = none
      · exact .inr (.unread known declares means unread)
      · push Not at unread
        obtain ⟨ty, resolved, isClass⟩ := unread
        obtain ⟨full, rfl, stands⟩ :=
          canonical?_of_resolve resolved (Option.isSome_iff_ne_none.mpr isClass)
        obtain rfl : full = upper := (canonical_of_canonical? stands).symm.trans means
        have resolved : catalog.resolve written = some (.object full) := resolved
        left
        simp [superclass?, Ty.object, known, declares, resolved]
    · exact .inr (.interface known implements means)
  · cases names

/-- What a class inherits stands on the way up from it, unless there is a step aside. -/
theorem extends_or_inheritsAside_of_inherits
    {lower upper : String} (inherits : catalog.Inherits lower upper) :
    catalog.Extends (.object lower) (.object upper) ∨ catalog.InheritsAside lower upper := by
  induction inherits with
  | single names =>
      rcases superclass?_or_stepsAside_of_namesParent names with above | aside
      · exact .inl (.single above)
      · exact .inr ⟨_, _, .refl, aside, .refl⟩
  | tail inherits names ih =>
      -- A step aside anywhere on the path is enough, so the last step counts only without one.
      rcases ih with below | ⟨middle, parent, early, aside, late⟩
      · rcases superclass?_or_stepsAside_of_namesParent names with above | aside
        · exact .inl (below.tail above)
        · exact .inr ⟨_, _, inherits.to_reflTransGen, aside, .refl⟩
      · exact .inr ⟨middle, parent, early, aside, late.tail names⟩

/-- A known class that is a parent of a class is the root class, or stands on the way up, or is
inherited with a step aside. -/
theorem extends_or_inheritsAside_of_isParent
    {lower upper : String} (declared : catalog.classes.contains upper = true)
    (isParent : catalog.isParent (.object upper) (.object lower) = true) :
    catalog.Extends (.object lower) (.object upper) ∨ upper = objectName ∨
      catalog.InheritsAside lower upper := by
  have full : catalog.canonical upper = upper :=
    canonical_of_canonical? (canonical?_of_contains declared)
  have accepts : (Shape.object upper).Accepts catalog (.object lower) := by
    simpa [Catalog.isParent, Ty.isUnreachable, Ty.object, shapeAccepts_iff] using isParent
  cases accepts with
  | same => exact .inl .refl
  | root _ root => exact .inr (.inl (full.symm.trans root))
  | inherits inherits =>
      rw [full] at inherits
      exact (extends_or_inheritsAside_of_inherits inherits).imp_right .inr

end Catalog

namespace Members

variable {members : Members} {name : String} {arguments : List Ty} {method : MethodType}

/-- A receiver with a class on its way up that has something to offer is answered. -/
theorem find_ne_none_of_offers
    (knows : members.catalog.KnowsBuiltins) {receiver definingClass : Ty}
    (below : members.catalog.Extends receiver definingClass)
    (offers : members.Offers name arguments definingClass method) :
    members.find receiver name arguments ≠ .ok none := by
  have listed := (Catalog.mem_superclassChain_iff knows).mpr below
  have decides : members.Decides name arguments (members.catalog.superclassChain receiver) _ :=
    find_decides receiver
  generalize members.find receiver name arguments = answer at decides
  cases decides with
  | silent silent => exact absurd offers (silent _ listed method)
  | found => nofun
  | ambiguous => nofun

/-- The method that is found stands on the way up from the receiver. -/
theorem offers_of_find
    (knows : members.catalog.KnowsBuiltins) {receiver : Ty}
    (found : members.find receiver name arguments = .ok (some method)) :
    members.catalog.Extends receiver method.definingClass ∧
      members.Offers name arguments method.definingClass method := by
  have decides : members.Decides name arguments (members.catalog.superclassChain receiver) _ :=
    find_decides receiver
  rw [found] at decides
  cases decides with
  | found first offers => exact ⟨(Catalog.mem_superclassChain_iff knows).mp first.mem, offers⟩

end Members

open Infer

namespace Typer

variable {typer : Typer σ}

/-- When a class or interface offers a method, each subtype that stands below it by
superclasses does not leave the same call without an answer, and neither does any other subtype
with the defining class of the method on its way up.  A subtype that knows nothing of the call
is a subtype for one of two reasons: everything is a subtype of the root class, or it inherits
the class with a step aside. -/
theorem subclass_answers_where_superclass_does
    {arena : Arena} {catalog : Catalog} {state : σ} {session : Session σ}
    (reached : typer.Reachable arena catalog state session) (built : catalog.Built)
    {upper lower : String} (declared : session.catalog.classes.contains upper = true)
    (isParent : session.catalog.isParent (.object upper) (.object lower) = true)
    {name : String} {arguments : List Ty} {method : MethodType} {after : Session σ}
    (offers : Returns (methodType (.object upper) name arguments) session (some method) after) :
    ∃ answer, (methodType (.object lower) name arguments).run session = (answer, session) ∧
      (session.catalog.Extends (.object lower) (.object upper) → answer ≠ .ok none) ∧
      (answer = .ok none →
        ¬ session.catalog.Extends (.object lower) method.definingClass ∧
        (upper = objectName ∨ session.catalog.InheritsAside lower upper)) := by
  have knows : session.members.catalog.KnowsBuiltins := (reached.built built).knowsBuiltins
  obtain ⟨found, rfl⟩ := returns_findMethod.mp offers
  obtain ⟨above, offering⟩ := Members.offers_of_find knows found
  have run : (methodType (.object lower) name arguments).run session = _ :=
    run_findMethod (.object lower) name arguments {} session
  have answered : session.catalog.Extends (.object lower) method.definingClass →
      session.members.find (.object lower) name arguments ≠ .ok none :=
    fun below => Members.find_ne_none_of_offers knows below offering
  generalize session.members.find (.object lower) name arguments = result at run answered
  cases result with
  | error definingClass => exact ⟨_, run, fun _ => nofun, nofun⟩
  | ok method? =>
      refine ⟨_, run, ?_, ?_⟩
      · rintro below ⟨⟩
        -- The method stands above the supertype, hence above the subtype.
        exact answered (below.trans above) rfl
      · rintro ⟨⟩
        have apart : ¬ session.catalog.Extends (.object lower) method.definingClass :=
          fun below => answered below rfl
        refine ⟨apart, ?_⟩
        rcases Catalog.extends_or_inheritsAside_of_isParent declared isParent with below | reason
        · exact absurd (below.trans above) apart
        · exact reason

theorem subclass_answers_where_superclass_does_of_circular :
    plain.Reachable {} .circular () growingRight ∧ Catalog.circular.Built ∧
      growingRight.catalog.classes.contains "Right" = true ∧
      growingRight.catalog.isParent (.object "Right") (.object "Left") = true ∧
      (∃ method, Returns (methodType (.object "Right") "add" [.object "Left"]) growingRight
        (some method) growingRight) ∧
      growingRight.catalog.Extends (.object "Left") (.object "Right") ∧
      ∃ answer, (methodType (.object "Left") "add" [.object "Left"]).run growingRight =
        (answer, growingRight) ∧ answer ≠ .ok none := by
  have reached : plain.Reachable {} .circular () growingRight :=
    Reachable.start.step (.learnMethodType _)
  have built : Catalog.circular.Built :=
    .withClass (.withClass (.define (.withClass .builtin _ _) _) _ _) _ _
  have declared : growingRight.catalog.classes.contains "Right" = true := by decide +kernel
  have isParent : growingRight.catalog.isParent (.object "Right") (.object "Left") = true := by
    decide +kernel
  have offers : Returns (methodType (.object "Right") "add" [.object "Left"]) growingRight
      (some { definingClass := .object "Right", name := "add"
              parameters := [.object objectName], returnType := .void }) growingRight :=
    returns_findMethod.mpr ⟨by decide +kernel, rfl⟩
  have below : growingRight.catalog.Extends (.object "Left") (.object "Right") :=
    .single (by decide +kernel)
  obtain ⟨answer, run, answered, _⟩ :=
    subclass_answers_where_superclass_does reached built declared isParent offers
  exact ⟨reached, built, declared, isParent, ⟨_, offers⟩, below, answer, run, answered below⟩

/-- The supertype offers a method for a call, and the subtype knows nothing of the call. -/
structure Misses (session : Session σ) (upper lower name : String) (arguments : List Ty) :
    Prop where
  upperDeclared : session.catalog.classes.contains upper = true
  lowerDeclared : session.catalog.classes.contains lower = true
  isParent : session.catalog.isParent (.object upper) (.object lower) = true
  offers : ∃ method,
    Returns (methodType (.object upper) name arguments) session (some method) session
  silent : Returns (methodType (.object lower) name arguments) session none session

/-- What a miss is made of can be computed. -/
theorem misses_of_find
    {session : Session σ} {upper lower name : String} {arguments : List Ty}
    (method : MethodType)
    (declared : session.catalog.classes.contains upper = true ∧
      session.catalog.classes.contains lower = true ∧
      session.catalog.isParent (.object upper) (.object lower) = true)
    (found : session.members.find (.object upper) name arguments = .ok (some method) ∧
      session.members.find (.object lower) name arguments = .ok none) :
    Misses session upper lower name arguments where
  upperDeclared := declared.1
  lowerDeclared := declared.2.1
  isParent := declared.2.2
  offers := ⟨method, returns_findMethod.mpr ⟨found.1, rfl⟩⟩
  silent := returns_findMethod.mpr ⟨found.2, rfl⟩

/-- An interface declares a method, one class implements the interface, and another interface
extends it. -/
def shapes : Arena where
  nodes := ⟨[
    (1, { id := 1, parent := none, location := {}, kind := .script "" (some 2) }),
    (2, { id := 2, parent := some 1, location := {}, kind := .body [3, 7, 8] }),
    (3, { id := 3, parent := some 2, location := {},
          kind := .interfaceDeclaration "Shape" [] (some 4) }),
    (4, { id := 4, parent := some 3, location := {}, kind := .body [5] }),
    (5, { id := 5, parent := some 4, location := {},
          kind := .methodDefinition {
            name := "area", arguments := 6, declared := { returns := some "int" } } }),
    (6, { id := 6, parent := some 5, location := {}, kind := .arguments {} }),
    (7, { id := 7, parent := some 2, location := {},
          kind := .classDefinition "Square" none ["Shape"] none }),
    (8, { id := 8, parent := some 2, location := {},
          kind := .interfaceDeclaration "Solid" ["Shape"] none })]⟩
  nextId := 9

/-- A class with the name of a builtin type, and a class that gives it as its superclass,
beside two classes that extend each other and never come to the root class. -/
def strays : Catalog :=
  (Catalog.circular.withClass "int" none).withClass "Counter" (some "int")

/-- The root class and the class with the name of a builtin type have learned a method each. -/
def strayed : Session Unit :=
  plain.perform (plain.perform (start {} strays ())
    (.learnMethodType {
      definingClass := .object objectName, name := "tag", parameters := [], returnType := .int }))
    (.learnMethodType {
      definingClass := .object "int", name := "next", parameters := [], returnType := .int })

/-- The methods of an interface are offered neither by a class that implements it nor by an
interface that extends it.  Those of the root class are missed by classes that extend each
other, and those of a class with the name of a builtin type by its subclasses. -/
theorem subtypes_may_miss_methods :
    plain.Reachable shapes .builtin ()
        (plain.perform (start shapes .builtin ()) .inferTypes) ∧
      Misses (plain.perform (start shapes .builtin ()) .inferTypes) "Shape" "Square" "area" [] ∧
      Misses (plain.perform (start shapes .builtin ()) .inferTypes) "Shape" "Solid" "area" [] ∧
      plain.Reachable {} strays () strayed ∧
      Misses strayed objectName "Left" "tag" [] ∧
      Misses strayed "int" "Counter" "next" [] := by
  let area : MethodType :=
    { definingClass := .object "Shape", name := "area", parameters := [], returnType := .int }
  let tag : MethodType :=
    { definingClass := .object objectName, name := "tag", parameters := [], returnType := .int }
  let next : MethodType :=
    { definingClass := .object "int", name := "next", parameters := [], returnType := .int }
  refine ⟨Reachable.start.step .inferTypes, misses_of_find area ?_ ?_, misses_of_find area ?_ ?_,
    (Reachable.start.step (.learnMethodType _)).step (.learnMethodType _),
    misses_of_find tag ?_ ?_, misses_of_find next ?_ ?_⟩
  all_goals decide +kernel

end Typer

end DeferredTyping
