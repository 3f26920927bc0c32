import DeferredTyping.Proofs.Ancestors

/-!
# Chains of superclasses end

A chain of superclasses goes from a type to its superclass until there is none or one
comes up again.  Behind its first type stand classes with full names, each of them known
if the chain goes on, and arrays, which are followed by the root class.  So a chain ends
by itself: how many steps are allowed does not matter as long as there are three more
than there are known classes.
-/

namespace DeferredTyping.Catalog

/-- The name that remains of a written type when its array brackets are taken off. -/
def elementName (text : String) : String :=
  String.ofList (stripBrackets text.toList.reverse).2.reverse

theorem resolve_eq (catalog : Catalog) (text : String) :
    catalog.resolve text = (catalog.resolveElement (elementName text)).map
      (arrayOf (stripBrackets text.toList.reverse).1) := rfl

variable {catalog : Catalog}

/-- The root class or its class object. -/
def rootOf (isMeta : Bool) : Ty := ⟨.object objectName, isMeta⟩

/-- A class type carries the full name of a known class. -/
def IsFull (catalog : Catalog) (ty : Ty) : Prop :=
  ∀ name, ty.shape = .object name → catalog.canonical? name = some name

theorem isFull_arrayOf {ty : Ty} (full : catalog.IsFull ty) (depth : Nat) :
    catalog.IsFull (arrayOf depth ty) := by
  cases depth with
  | zero => exact full
  | succ depth => exact nofun

/-- Where the superclass of a shape comes from. -/
inductive DirectSuperclass (catalog : Catalog) : Shape → Shape → Prop where
  | declared {name text : String} {entry : ClassEntry} {ty : Ty} :
      catalog.entry? name = some entry → entry.superclass = some text →
      catalog.resolve text = some ty → DirectSuperclass catalog (.object name) ty.shape
  | interface {name : String} {entry : ClassEntry} :
      catalog.entry? name = some entry →
      DirectSuperclass catalog (.object name) (.object objectName)
  | array {element : Shape} {isMeta : Bool} :
      DirectSuperclass catalog (.array element isMeta) (.object objectName)

theorem directSuperclass_of_superclass?
    {ty parent : Ty} (above : catalog.superclass? ty = some parent) :
    catalog.DirectSuperclass ty.shape parent.shape ∧ parent.isMeta = ty.isMeta := by
  unfold superclass? at above
  obtain ⟨found, stands, rfl⟩ := Option.map_eq_some_iff.mp above
  refine ⟨?_, rfl⟩
  dsimp only
  split at stands
  · rename_i name shape
    obtain ⟨entry, known, extended⟩ := Option.bind_eq_some_iff.mp stands
    rw [shape]
    split at extended
    · rename_i text declared
      exact DirectSuperclass.declared known declared extended
    · split at extended
      · cases extended
        exact .interface known
      · cases extended
  · rename_i element isMeta shape
    cases stands
    rw [shape]
    exact .array
  · cases stands

/-- Superclasses carry full names. -/
theorem isFull_of_superclass?
    (knows : catalog.KnowsBuiltins) {ty parent : Ty}
    (above : catalog.superclass? ty = some parent) :
    catalog.IsFull parent := by
  obtain ⟨direct, _⟩ := directSuperclass_of_superclass? above
  intro name shape
  generalize ty.shape = lower, parent.shape = upper at direct shape
  cases direct with
  | declared _ _ resolved =>
      rw [resolve_eq] at resolved
      obtain ⟨element, found, rfl⟩ := Option.map_eq_some_iff.mp resolved
      refine isFull_arrayOf ?_ _ _ shape
      intro name shape
      cases standsFor_of_resolveElement found with
      | void => cases shape
      | primitive _ => cases shape
      | object stands =>
          cases shape
          exact knows.canonical?_canonical stands
  | interface _ =>
      cases shape
      exact knows.canonical?_objectName
  | array =>
      cases shape
      exact knows.canonical?_objectName

/-- The known classes that a chain did not go through. -/
def unvisited (catalog : Catalog) (isMeta : Bool) (visited : List Ty) : List String :=
  catalog.classes.keys.filter fun name => !visited.contains ⟨.object name, isMeta⟩

theorem length_unvisited_cons_le (isMeta : Bool) (visited : List Ty) (ty : Ty) :
    (catalog.unvisited isMeta (ty :: visited)).length ≤
      (catalog.unvisited isMeta visited).length := by
  apply List.Sublist.length_le
  apply List.monotone_filter_right
  intro name
  simp only [List.contains_cons, Bool.not_or, Bool.and_eq_true]
  exact And.right

theorem length_unvisited_cons_lt
    {isMeta : Bool} {visited : List Ty} {name : String}
    (known : name ∈ catalog.classes.keys)
    (fresh : visited.contains ⟨.object name, isMeta⟩ = false) :
    (catalog.unvisited isMeta (⟨.object name, isMeta⟩ :: visited)).length <
      (catalog.unvisited isMeta visited).length := by
  have narrowed : catalog.unvisited isMeta (⟨.object name, isMeta⟩ :: visited) =
      (catalog.unvisited isMeta visited).filter fun other => other != name := by
    rw [unvisited, unvisited, List.filter_filter]
    apply List.filter_congr
    intro other _
    have same : ((⟨.object other, isMeta⟩ : Ty) == ⟨.object name, isMeta⟩) =
        (other == name) := by
      rw [Bool.eq_iff_iff, beq_iff_eq, beq_iff_eq, Ty.mk.injEq, Shape.object.injEq]
      exact and_iff_left rfl
    rw [List.contains_cons, Bool.not_or, same, bne]
  rw [narrowed]
  apply List.length_filter_lt_length_iff_exists.mpr
  exact ⟨name, List.mem_filter.mpr ⟨known, by simpa using fresh⟩, by simp⟩

/-- How many types a chain can still go through: the known classes that were not
visited, the root class after an array, and a last type without a superclass. -/
def chainRoom (catalog : Catalog) (visited : List Ty) (ty : Ty) : Nat :=
  (catalog.unvisited ty.isMeta visited).length +
    (if rootOf ty.isMeta ∈ ty :: visited then 0 else 1) + 1

theorem chainFrom_of_contains
    (steps : Nat) {visited : List Ty} {ty : Ty} (again : visited.contains ty = true) :
    catalog.chainFrom steps visited ty = [] := by
  cases steps with
  | zero => rfl
  | succ steps => rw [chainFrom, if_pos again]

/-- Each type that a chain goes through leaves less room for the next one. -/
theorem chainRoom_lt
    {visited : List Ty} {ty parent : Ty} (full : catalog.IsFull ty)
    (above : catalog.superclass? ty = some parent)
    (fresh : ty ∉ visited) (onward : parent ∉ ty :: visited) :
    catalog.chainRoom (ty :: visited) parent < catalog.chainRoom visited ty := by
  obtain ⟨direct, flag⟩ := directSuperclass_of_superclass? above
  obtain ⟨shape, isMeta⟩ := ty
  obtain ⟨upper, parentIsMeta⟩ := parent
  dsimp only at direct flag
  subst flag
  have ofClass : ∀ {name entry}, shape = .object name → catalog.entry? name = some entry →
      (catalog.unvisited parentIsMeta (⟨shape, parentIsMeta⟩ :: visited)).length <
        (catalog.unvisited parentIsMeta visited).length := by
    rintro name entry rfl known
    obtain ⟨found, stands, stored⟩ := Option.bind_eq_some_iff.mp known
    rw [full name rfl] at stands
    cases stands
    exact length_unvisited_cons_lt (Table.mem_keys_of_get?_eq_some stored) (by simpa using fresh)
  have roots : (if rootOf parentIsMeta ∈ ⟨upper, parentIsMeta⟩ :: ⟨shape, parentIsMeta⟩ :: visited
        then 0 else 1) ≤
      if rootOf parentIsMeta ∈ ⟨shape, parentIsMeta⟩ :: visited then 0 else 1 := by
    split
    · exact Nat.zero_le _
    · rename_i absent
      exact Nat.le_of_eq (if_neg fun present => absent (List.mem_cons_of_mem _ present)).symm
  unfold chainRoom
  dsimp only
  cases direct with
  | declared known _ _ =>
      have shorter := ofClass rfl known
      omega
  | interface known =>
      have shorter := ofClass rfl known
      omega
  | @array element isMeta =>
      have least := catalog.length_unvisited_cons_le parentIsMeta visited
        ⟨.array element isMeta, parentIsMeta⟩
      have next : rootOf parentIsMeta ∈ ⟨.object objectName, parentIsMeta⟩ ::
          ⟨.array element isMeta, parentIsMeta⟩ :: visited := List.mem_cons_self
      have missed : rootOf parentIsMeta ∉ ⟨.array element isMeta, parentIsMeta⟩ :: visited :=
        onward
      rw [if_pos next, if_neg missed]
      omega

theorem chainFrom_succ
    (knows : catalog.KnowsBuiltins) {steps : Nat} {visited : List Ty} {ty : Ty}
    (full : catalog.IsFull ty) (enough : catalog.chainRoom visited ty ≤ steps) :
    catalog.chainFrom (steps + 1) visited ty = catalog.chainFrom steps visited ty := by
  induction steps generalizing visited ty with
  | zero =>
      unfold chainRoom at enough
      omega
  | succ steps ih =>
      rw [chainFrom, chainFrom]
      split
      · rfl
      · rename_i fresh
        cases above : catalog.superclass? ty with
        | none => rfl
        | some parent =>
            have parentFull := isFull_of_superclass? knows above
            refine congrArg (ty :: ·) ?_
            dsimp only
            by_cases again : (ty :: visited).contains parent = true
            · rw [chainFrom_of_contains _ again, chainFrom_of_contains _ again]
            · have room := chainRoom_lt full above (by simpa using fresh) (by simpa using again)
              exact ih parentFull (by omega)

/-- A chain of superclasses ends by itself: its first type may have a short name or be an
array, and then there is room for the superclass. -/
theorem chainFrom_eq_superclassChain
    (knows : catalog.KnowsBuiltins) {steps : Nat}
    (enough : catalog.classes.size + 3 ≤ steps) (ty : Ty) :
    catalog.chainFrom steps [] ty = catalog.superclassChain ty := by
  induction enough with
  | refl => rfl
  | @step steps enough ih =>
      rw [← ih]
      have size : catalog.classes.size + 3 ≤ steps := enough
      obtain ⟨steps, rfl⟩ : ∃ fewer, steps = fewer + 1 := ⟨steps - 1, by omega⟩
      rw [chainFrom, chainFrom]
      split
      · rfl
      · cases above : catalog.superclass? ty with
        | none => rfl
        | some parent =>
            have room : catalog.chainRoom [ty] parent ≤ catalog.classes.size + 2 := by
              have classes : (catalog.unvisited parent.isMeta [ty]).length ≤
                  catalog.classes.keys.length := List.length_filter_le _ _
              have size : catalog.classes.keys.length = catalog.classes.size :=
                List.length_map _
              unfold chainRoom
              split
              · omega
              · omega
            exact congrArg (ty :: ·)
              (chainFrom_succ knows (isFull_of_superclass? knows above) (by omega))

end DeferredTyping.Catalog
