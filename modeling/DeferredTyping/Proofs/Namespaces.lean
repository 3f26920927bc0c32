import Mathlib.Data.List.Find
import DeferredTyping.Method.Lookup
import DeferredTyping.Proofs.Assignability
import DeferredTyping.Proofs.Breakages
import DeferredTyping.Proofs.Outcomes
import DeferredTyping.Proofs.Parts
import DeferredTyping.Proofs.Selection
import DeferredTyping.Proofs.SuperclassChains
import DeferredTyping.Signature

/-!
# Names that a catalogue does not know

Two catalogues agree on the names that are known when they keep the same of each of
them, and known classes name known classes only.  What is asked about known names and
types over them then has the same answer in both: which types stand in for which, what
a written name stands for, where a chain of superclasses leads and which method a call
means.  The answers are over known names again.
-/

namespace DeferredTyping

/-- The class names in a shape are all accepted. -/
def Shape.usesOnly (known : String → Bool) : Shape → Bool
  | .object name => known name
  | .array element _ => element.usesOnly known
  | _ => true

/-- The class names in a type are all accepted. -/
def Ty.usesOnly (known : String → Bool) (ty : Ty) : Bool := ty.shape.usesOnly known

/-- The types of a method are over accepted names, the class that defines it aside. -/
structure MethodType.UsesOnly (known : String → Bool) (method : MethodType) : Prop where
  parameters : ∀ ty ∈ method.parameters, ty.usesOnly known = true
  returnType : method.returnType.usesOnly known = true

/-- The types of a signature are over accepted names, thrown types aside. -/
structure Signature.UsesOnly (known : String → Bool) (signature : Signature) : Prop where
  parameters : ∀ {name ty}, signature.parameter? name = some ty → ty.usesOnly known = true
  returnType : ∀ {ty}, signature.returnType = some ty → ty.usesOnly known = true

section

variable {known : String → Bool}

theorem Ty.usesOnly_of_shape {ty : Ty} {name : String} (shape : ty.shape = .object name) :
    ty.usesOnly known = known name := by
  rw [usesOnly, shape]
  rfl

theorem Ty.usesOnly_element {ty element : Ty} (found : ty.element? = some element) :
    element.usesOnly known = ty.usesOnly known := by
  unfold element? at found
  split at found
  · rename_i shape
    cases found
    rw [usesOnly, usesOnly, shape]
    rfl
  · cases found

end

namespace Catalog

/-- A written type mentions accepted names only. -/
def Spells (known : String → Bool) (text : String) : Prop :=
  known text = true ∧ known (elementName text) = true

instance (known : String → Bool) (text : String) : Decidable (Spells known text) :=
  inferInstanceAs (Decidable (_ ∧ _))

theorem usesOnly_arrayOf {known : String → Bool} (depth : Nat) (ty : Ty) :
    (arrayOf depth ty).usesOnly known = ty.usesOnly known := by
  induction depth with
  | zero => rfl
  | succ depth ih => exact ih

/-- The catalogues keep the same of known names, and what they keep mentions known names
only. -/
structure Agrees (known : String → Bool) (whole part : Catalog) : Prop where
  classes : ∀ {name}, known name = true → part.classes.get? name = whole.classes.get? name
  parents : ∀ {name entry}, known name = true → whole.classes.get? name = some entry →
    ∀ parent ∈ entry.parents, Spells known parent
  builtin : ∀ short ∈ shortNames, known short.2 = true
  library : part.library = whole.library
  methods : ∀ method ∈ whole.library, method.owner.usesOnly known = true ∧
    (∀ ty ∈ method.parameters, ty.usesOnly known = true) ∧
    method.returnType.usesOnly known = true

namespace Agrees

variable {known : String → Bool} {whole part : Catalog} (agrees : Agrees known whole part)

include agrees

theorem known_objectName : known objectName = true :=
  agrees.builtin ("Object", objectName) (by decide)

theorem known_stringName : known stringName = true :=
  agrees.builtin ("String", stringName) (by decide)

theorem contains_eq {name : String} (isKnown : known name = true) :
    part.classes.contains name = whole.classes.contains name := by
  rw [Table.contains, Table.contains, agrees.classes isKnown]

theorem canonical?_eq {name : String} (isKnown : known name = true) :
    part.canonical? name = whole.canonical? name := by
  rw [canonical?, canonical?, agrees.contains_eq isKnown]

theorem known_of_canonical? {name full : String} (isKnown : known name = true)
    (stands : whole.canonical? name = some full) : known full = true := by
  unfold canonical? at stands
  split at stands
  · cases stands
    exact isKnown
  · obtain ⟨short, found, rfl⟩ := Option.map_eq_some_iff.mp stands
    exact agrees.builtin short (List.mem_of_find?_eq_some found)

theorem canonical_eq {name : String} (isKnown : known name = true) :
    part.canonical name = whole.canonical name := by
  rw [canonical, canonical, agrees.canonical?_eq isKnown]

theorem known_canonical {name : String} (isKnown : known name = true) :
    known (whole.canonical name) = true := by
  cases stands : whole.canonical? name with
  | none => simpa [canonical, stands] using isKnown
  | some full => simpa [canonical, stands] using agrees.known_of_canonical? isKnown stands

theorem entry?_eq {name : String} (isKnown : known name = true) :
    part.entry? name = whole.entry? name := by
  rw [ entry?, entry?, agrees.canonical?_eq isKnown]
  cases stands : whole.canonical? name with
  | none => rfl
  | some full => exact agrees.classes (agrees.known_of_canonical? isKnown stands)

theorem spells_of_parent {name : String} {entry : ClassEntry} (isKnown : known name = true)
    (found : whole.entry? name = some entry) :
    ∀ parent ∈ entry.parents, Spells known parent := by
  obtain ⟨full, stands, stored⟩ := Option.bind_eq_some_iff.mp found
  exact agrees.parents (agrees.known_of_canonical? isKnown stands) stored

theorem parentNames_eq {name : String} (isKnown : known name = true) :
    part.parentNames name = whole.parentNames name := by
  rw [parentNames, parentNames, agrees.entry?_eq isKnown]
  cases found : whole.entry? name with
  | none => rfl
  | some entry =>
      apply List.map_congr_left
      intro parent member
      exact agrees.canonical_eq (agrees.spells_of_parent isKnown found parent member).1

theorem known_of_namesParent {name parent : String} (isKnown : known name = true)
    (names : whole.NamesParent name parent) : known parent = true := by
  unfold NamesParent parentNames at names
  split at names
  · rename_i entry found
    obtain ⟨text, given, rfl⟩ := List.mem_map.mp names
    exact agrees.known_canonical (agrees.spells_of_parent isKnown found text given).1
  · cases names

theorem inherits_iff {name ancestor : String} (isKnown : known name = true) :
    part.Inherits name ancestor ↔ whole.Inherits name ancestor := by
  have step : ∀ {name parent}, known name = true →
      (part.NamesParent name parent ↔ whole.NamesParent name parent) := by
    intro name parent isKnown
    rw [NamesParent, NamesParent, agrees.parentNames_eq isKnown]
  constructor
  · intro inherits
    suffices both : whole.Inherits name ancestor ∧ known ancestor = true from both.1
    induction inherits with
    | single given =>
        have names := (step isKnown).mp given
        exact ⟨.single names, agrees.known_of_namesParent isKnown names⟩
    | tail _ given ih =>
        have names := (step ih.2).mp given
        exact ⟨ih.1.tail names, agrees.known_of_namesParent ih.2 names⟩
  · intro inherits
    suffices both : part.Inherits name ancestor ∧ known ancestor = true from both.1
    induction inherits with
    | single given =>
        exact ⟨.single ((step isKnown).mpr given), agrees.known_of_namesParent isKnown given⟩
    | tail _ given ih =>
        exact ⟨ih.1.tail ((step ih.2).mpr given), agrees.known_of_namesParent ih.2 given⟩

theorem ancestors_contains {name ancestor : String} (isKnown : known name = true) :
    (part.ancestors name).contains ancestor = (whole.ancestors name).contains ancestor := by
  rw [Bool.eq_iff_iff, List.contains_iff_mem, List.contains_iff_mem, mem_ancestors_iff,
    mem_ancestors_iff, agrees.inherits_iff isKnown]

theorem shapeAccepts_eq {expected given : Shape}
    (expectedKnown : expected.usesOnly known = true)
    (givenKnown : given.usesOnly known = true) :
    part.shapeAccepts expected given = whole.shapeAccepts expected given := by
  induction expected generalizing given with
  | object name =>
      have isKnown : known name = true := expectedKnown
      cases given with
      | object other =>
          have otherKnown : known other = true := givenKnown
          simp only [shapeAccepts, agrees.canonical_eq isKnown,
            agrees.ancestors_contains otherKnown]
      | array _ _ => simp only [shapeAccepts, agrees.canonical?_eq isKnown]
      | _ => simp only [shapeAccepts]
  | array element isMeta ih =>
      cases given with
      | array other otherIsMeta =>
          have otherKnown : other.usesOnly known = true := givenKnown
          simp only [shapeAccepts, ih expectedKnown otherKnown]
      | _ => simp only [shapeAccepts]
  | _ => cases given <;> simp only [shapeAccepts]

/-- Types over known names stand in for each other in both or in neither. -/
theorem isParent_eq {expected given : Ty} (expectedKnown : expected.usesOnly known = true)
    (givenKnown : given.usesOnly known = true) :
    part.isParent expected given = whole.isParent expected given := by
  rw [isParent, isParent, agrees.shapeAccepts_eq expectedKnown givenKnown]

theorem resolveElement_eq {name : String} (isKnown : known name = true) :
    part.resolveElement name = whole.resolveElement name := by
  rw [resolveElement, resolveElement, agrees.canonical?_eq isKnown]

theorem usesOnly_of_resolveElement {name : String} {ty : Ty} (isKnown : known name = true)
    (resolved : whole.resolveElement name = some ty) : ty.usesOnly known = true := by
  cases standsFor_of_resolveElement resolved with
  | void | primitive _ => rfl
  | object stands => exact agrees.known_of_canonical? isKnown stands

theorem resolve_eq {text : String} (spells : Spells known text) :
    part.resolve text = whole.resolve text := by
  rw [Catalog.resolve_eq, Catalog.resolve_eq, agrees.resolveElement_eq spells.2]

/-- What a written type stands for is over known names. -/
theorem usesOnly_of_resolve {text : String} {ty : Ty} (spells : Spells known text)
    (resolved : whole.resolve text = some ty) : ty.usesOnly known = true := by
  rw [Catalog.resolve_eq] at resolved
  obtain ⟨element, found, rfl⟩ := Option.map_eq_some_iff.mp resolved
  rw [usesOnly_arrayOf]
  exact agrees.usesOnly_of_resolveElement spells.2 found

theorem superclass?_eq {ty : Ty} (isKnown : ty.usesOnly known = true) :
    part.superclass? ty = whole.superclass? ty := by
  rw [superclass?, superclass?]
  cases shape : ty.shape with
  | object name =>
      have nameKnown : known name = true := (Ty.usesOnly_of_shape shape).symm.trans isKnown
      dsimp only
      rw [agrees.entry?_eq nameKnown]
      cases found : whole.entry? name with
      | none => rfl
      | some entry =>
          dsimp only [bind, Option.bind]
          cases declared : entry.superclass with
          | none => rfl
          | some text =>
              have spells : Spells known text := by
                apply agrees.spells_of_parent nameKnown found
                simp [ClassEntry.parents, declared]
              simp only [agrees.resolve_eq spells]
  | _ => rfl

theorem usesOnly_of_superclass? {ty parent : Ty} (isKnown : ty.usesOnly known = true)
    (above : whole.superclass? ty = some parent) : parent.usesOnly known = true := by
  obtain ⟨direct, _⟩ := directSuperclass_of_superclass? above
  rw [Ty.usesOnly] at isKnown ⊢
  generalize ty.shape = lower, parent.shape = upper at direct isKnown
  cases direct with
  | declared found declared resolved =>
      refine agrees.usesOnly_of_resolve (agrees.spells_of_parent isKnown found _ ?_) resolved
      simp [ClassEntry.parents, declared]
  | interface _ => exact agrees.known_objectName
  | array => exact agrees.known_objectName

theorem chainFrom_eq (steps : Nat) (visited : List Ty) {ty : Ty}
    (isKnown : ty.usesOnly known = true) :
    part.chainFrom steps visited ty = whole.chainFrom steps visited ty ∧
      ∀ above ∈ whole.chainFrom steps visited ty, above.usesOnly known = true := by
  induction steps generalizing visited ty with
  | zero => exact ⟨rfl, List.forall_mem_nil _⟩
  | succ steps ih =>
      rw [chainFrom, chainFrom, agrees.superclass?_eq isKnown]
      split
      · exact ⟨rfl, List.forall_mem_nil _⟩
      · cases above : whole.superclass? ty with
        | none => simpa using isKnown
        | some parent =>
            obtain ⟨same, members⟩ :=
              ih (ty :: visited) (agrees.usesOnly_of_superclass? isKnown above)
            exact ⟨congrArg (ty :: ·) same, by simpa [isKnown] using members⟩

/-- A known class is followed by the same superclasses. -/
theorem superclassChain_eq
    (wholeKnows : whole.KnowsBuiltins) (partKnows : part.KnowsBuiltins)
    {ty : Ty} (isKnown : ty.usesOnly known = true) :
    part.superclassChain ty = whole.superclassChain ty ∧
      ∀ above ∈ whole.superclassChain ty, above.usesOnly known = true := by
  let steps := max (whole.classes.size + 3) (part.classes.size + 3)
  have ofWhole : whole.chainFrom steps [] ty = whole.superclassChain ty :=
    chainFrom_eq_superclassChain wholeKnows (Nat.le_max_left _ _) ty
  have ofPart : part.chainFrom steps [] ty = part.superclassChain ty :=
    chainFrom_eq_superclassChain partKnows (Nat.le_max_right _ _) ty
  rw [← ofWhole, ← ofPart]
  exact agrees.chainFrom_eq steps [] isKnown

theorem accepts_eq {parameters arguments : List Ty}
    (parametersKnown : ∀ ty ∈ parameters, ty.usesOnly known = true)
    (argumentsKnown : ∀ ty ∈ arguments, ty.usesOnly known = true) :
    Assignable.accepts part.isParent parameters arguments =
      Assignable.accepts whole.isParent parameters arguments := by
  induction parameters generalizing arguments with
  | nil => cases arguments <;> rfl
  | cons parameter parameters ih =>
      cases arguments with
      | nil => rfl
      | cons argument arguments =>
          rw [List.forall_mem_cons] at parametersKnown argumentsKnown
          rw [Assignable.accepts, Assignable.accepts, ih parametersKnown.2 argumentsKnown.2,
            agrees.isParent_eq parametersKnown.1 argumentsKnown.1]

theorem join?_eq {thenType elseType : Ty} (thenKnown : thenType.usesOnly known = true)
    (elseKnown : elseType.usesOnly known = true) :
    Assignable.join? part.isParent thenType elseType =
      Assignable.join? whole.isParent thenType elseType := by
  rw [Assignable.join?, Assignable.join?, agrees.isParent_eq thenKnown elseKnown,
    agrees.isParent_eq elseKnown thenKnown]

theorem methodType?_eq {target : Ty} {arguments : List Ty} (name : String)
    (argumentsKnown : ∀ ty ∈ arguments, ty.usesOnly known = true) :
    part.methodType? target name arguments = whole.methodType? target name arguments := by
  have found : part.libraryMethodType? target name arguments =
      whole.libraryMethodType? target name arguments := by
    rw [libraryMethodType?, libraryMethodType?, agrees.library]
    apply congrArg (Option.map _)
    apply List.find?_congr
    intro method member
    rw [agrees.accepts_eq (agrees.methods method member).2.1 argumentsKnown]
  rw [methodType?, methodType?, found]

omit agrees in
theorem usesOnly_of_operatorType?
    {target argument : Primitive} {name : String} {ty : Ty}
    (found : operatorType? target name argument = some ty) : ty.usesOnly known = true := by
  unfold operatorType? at found
  split at found
  · split at found
    · cases found
      rfl
    · cases found
  · split at found
    · split at found
      · cases found
        rfl
      · cases found
    · split at found
      · split at found
        · cases found
          rfl
        · cases found
      · split at found
        · split at found
          · cases found
            rfl
          · cases found
        · cases found

theorem usesOnly_of_referenceMethodType?
    {target ty : Ty} {name : String} {arguments : List Ty}
    (found : referenceMethodType? target name arguments = some ty) :
    ty.usesOnly known = true := by
  unfold referenceMethodType? at found
  split at found
  · split at found
    · cases found
      exact agrees.known_stringName
    · split at found
      · cases found
        rfl
      · cases found
  · split at found
    · split at found
      · cases found
        exact agrees.known_stringName
      · cases found
    · split at found
      · split at found
        · cases found
          rfl
        · cases found
      · cases found
  · cases found

theorem usesOnly_of_methodType? {target ty : Ty} {name : String} {arguments : List Ty}
    (found : whole.methodType? target name arguments = some ty) :
    ty.usesOnly known = true := by
  unfold methodType? at found
  split at found
  · rename_i returnType library
    cases found
    obtain ⟨method, listed, rfl⟩ := Option.map_eq_some_iff.mp library
    exact (agrees.methods method (List.mem_of_find?_eq_some listed)).2.2
  · split at found
    · split at found
      · rename_i primitive _ argument
        obtain ⟨operand, _, result⟩ := Option.bind_eq_some_iff.mp found
        exact usesOnly_of_operatorType? result
      · cases found
    · split at found
      · exact agrees.usesOnly_of_referenceMethodType? found
      · cases found

theorem resolveOrName_eq {text : String} (spells : Spells known text) :
    part.resolveOrName text = whole.resolveOrName text := by
  rw [resolveOrName, resolveOrName, agrees.resolve_eq spells]

theorem foldlM_resolveOrName_eq
    {parameters : List (String × String)} (first : Table String Ty)
    (spells : ∀ text ∈ parameters.map Prod.snd, Spells known text) :
    parameters.foldlM (fun table (name, text) => do
        return table.insert name (← part.resolveOrName text)) first =
      parameters.foldlM (fun table (name, text) => do
        return table.insert name (← whole.resolveOrName text)) first := by
  induction parameters generalizing first with
  | nil => rfl
  | cons parameter rest ih =>
      obtain ⟨name, text⟩ := parameter
      rw [List.map_cons, List.forall_mem_cons] at spells
      rw [List.foldlM_cons, List.foldlM_cons]
      dsimp only
      rw [agrees.resolveOrName_eq spells.1]
      exact bind_congr fun table => ih table spells.2

/-- A signature that mentions known names only is resolved to the same types, and those are
over known names. -/
theorem resolveSignature_eq
    {declared : DeclaredSignature} (spells : ∀ text ∈ declared.texts, Spells known text) :
    part.resolveSignature declared = whole.resolveSignature declared := by
  unfold resolveSignature
  rw [agrees.foldlM_resolveOrName_eq {} fun text member =>
    spells text (List.mem_append_left _ member)]
  refine bind_congr fun parameters => ?_
  have returns : declared.returns.mapM part.resolveOrName =
      declared.returns.mapM whole.resolveOrName := by
    cases written : declared.returns with
    | none => rfl
    | some text =>
        have mentioned : text ∈ declared.texts := by
          simp [DeclaredSignature.texts, written]
        rw [Option.mapM_some, Option.mapM_some, agrees.resolveOrName_eq (spells text mentioned)]
  have throws : declared.throws.mapM part.resolveOrName =
      declared.throws.mapM whole.resolveOrName :=
    mapM_congr fun text member => agrees.resolveOrName_eq (spells text
      (List.mem_append_right _ (List.mem_append_right _ member)))
  rw [returns, throws]

theorem usesOnly_of_resolveSignature
    {declared : DeclaredSignature} {signature : Signature}
    (spells : ∀ text ∈ declared.texts, Spells known text)
    (resolved : whole.resolveSignature declared = .ok signature) :
    signature.UsesOnly known where
  parameters found := by
    obtain ⟨text, member, stands⟩ := (written_of_resolveSignature resolved).1 found
    exact agrees.usesOnly_of_resolve (spells text member) stands
  returnType found := by
    obtain ⟨text, member, stands⟩ := (written_of_resolveSignature resolved).2 found
    exact agrees.usesOnly_of_resolve (spells text member) stands

end Agrees

end Catalog

namespace Overloads

variable {isParent : Assignable} {overloads : List MethodType} {arguments : List Ty}
  {method : MethodType}

theorem mem_of_applicable (competes : method ∈ applicable isParent overloads arguments) :
    method ∈ overloads := by
  unfold applicable at competes
  split at competes
  · exact List.mem_of_mem_filter (List.mem_of_mem_filter competes)
  · exact List.mem_of_mem_filter competes

/-- The overload that is chosen is one of them. -/
theorem mem_of_select (chosen : select isParent overloads arguments = .found method) :
    method ∈ overloads := by
  unfold select at chosen
  split at chosen
  · rename_i exact found
    cases chosen
    exact List.mem_of_find?_eq_some found
  · unfold mostSpecific at chosen
    split at chosen
    · cases chosen
    · rename_i only competing
      cases chosen
      exact mem_of_applicable (competing ▸ List.mem_singleton_self _)
    · split at chosen
      · rename_i specific found
        cases chosen
        exact mem_of_applicable (List.mem_of_find?_eq_some found)
      · cases chosen

end Overloads

section Lookup

variable {known : String → Bool} {whole part : Catalog} (agrees : Catalog.Agrees known whole part)

include agrees

theorem MethodType.acceptsSpread_eq
    {method : MethodType} {arguments : List Ty} (methodKnown : method.UsesOnly known)
    (argumentsKnown : ∀ ty ∈ arguments, ty.usesOnly known = true) :
    method.acceptsSpread part.isParent arguments =
      method.acceptsSpread whole.isParent arguments := by
  unfold acceptsSpread
  split
  · rename_i element _ last
    obtain ⟨array, listed, isElement⟩ := Option.bind_eq_some_iff.mp last
    have elementKnown : element.usesOnly known = true :=
      (Ty.usesOnly_element isElement).trans
        (methodKnown.parameters array (List.mem_of_getLast? listed))
    have leading : Assignable.accepts part.isParent method.parameters.dropLast
          (arguments.take method.parameters.dropLast.length) =
        Assignable.accepts whole.isParent method.parameters.dropLast
          (arguments.take method.parameters.dropLast.length) :=
      agrees.accepts_eq
        (fun ty member => methodKnown.parameters ty ((List.dropLast_sublist _).subset member))
        (fun ty member => argumentsKnown ty (List.mem_of_mem_take member))
    have further : (arguments.drop method.parameters.dropLast.length).all
          (part.isParent element) =
        (arguments.drop method.parameters.dropLast.length).all (whole.isParent element) := by
      rw [Bool.eq_iff_iff, List.all_eq_true, List.all_eq_true]
      refine forall₂_congr fun ty member => ?_
      rw [agrees.isParent_eq elementKnown (argumentsKnown ty (List.mem_of_mem_drop member))]
    simp only [leading, further]
  · rfl

theorem Overloads.applicable_eq
    {overloads : List MethodType} {arguments : List Ty}
    (overloadsKnown : ∀ method ∈ overloads, method.UsesOnly known)
    (argumentsKnown : ∀ ty ∈ arguments, ty.usesOnly known = true) :
    applicable part.isParent overloads arguments =
      applicable whole.isParent overloads arguments := by
  have accepting : overloads.filter (MethodType.accepts part.isParent arguments) =
      overloads.filter (MethodType.accepts whole.isParent arguments) :=
    List.filter_congr fun method member =>
      agrees.accepts_eq (overloadsKnown method member).parameters argumentsKnown
  have spreading : overloads.filter (MethodType.acceptsSpread part.isParent arguments) =
      overloads.filter (MethodType.acceptsSpread whole.isParent arguments) :=
    List.filter_congr fun method member =>
      MethodType.acceptsSpread_eq agrees (overloadsKnown method member) argumentsKnown
  rw [applicable, applicable, accepting, spreading]

theorem Overloads.mostSpecific_eq
    {competitors : List MethodType}
    (competitorsKnown : ∀ method ∈ competitors, method.UsesOnly known) :
    mostSpecific part.isParent competitors = mostSpecific whole.isParent competitors := by
  have comparing : competitors.find? (isMostSpecific part.isParent competitors) =
      competitors.find? (isMostSpecific whole.isParent competitors) := by
    apply List.find?_congr
    intro method member
    rw [Bool.eq_iff_iff, isMostSpecific, isMostSpecific, List.all_eq_true, List.all_eq_true]
    refine forall₂_congr fun other competes => ?_
    rw [agrees.accepts_eq (competitorsKnown other competes).parameters
      (competitorsKnown method member).parameters]
  unfold mostSpecific
  split
  · rfl
  · rfl
  · rw [comparing]

/-- Overloads over known names are told apart in the same way. -/
theorem Overloads.select_eq
    {overloads : List MethodType} {arguments : List Ty}
    (overloadsKnown : ∀ method ∈ overloads, method.UsesOnly known)
    (argumentsKnown : ∀ ty ∈ arguments, ty.usesOnly known = true) :
    select part.isParent overloads arguments = select whole.isParent overloads arguments := by
  unfold select
  split
  · rfl
  · rw [applicable_eq agrees overloadsKnown argumentsKnown]
    apply mostSpecific_eq agrees
    intro method member
    exact overloadsKnown method (mem_of_applicable member)

/-- A table of methods keeps the methods of known classes alone. -/
def MethodTable.Only (known : String → Bool) (whole part : MethodTable) : Prop :=
  part.entries = whole.entries.filter fun method => method.definingClass.usesOnly known

omit agrees in
theorem MethodTable.Only.overloads_eq
    {all own : MethodTable} (only : MethodTable.Only known all own) {definingClass : Ty}
    (isKnown : definingClass.usesOnly known = true) (name : String) :
    own.overloads definingClass name = all.overloads definingClass name := by
  rw [overloads, overloads, only, List.filter_filter]
  apply List.filter_congr
  intro method _
  by_cases same : method.definingClass = definingClass
  · simp [same, isKnown]
  · simp [same]

omit agrees in
theorem MethodTable.Only.learn
    {all own learned : MethodTable} (only : MethodTable.Only known all own) {method : MethodType}
    (isKnown : method.definingClass.usesOnly known = true)
    (success : all.learn method = .ok learned) :
    ∃ kept, own.learn method = .ok kept ∧ MethodTable.Only known learned kept := by
  have same := only.overloads_eq isKnown method.name
  have ended := all.learning method
  rw [success] at ended
  rw [MethodTable.learn, findExact?, same, ← findExact?]
  cases ended with
  | confirmed found sameReturn =>
      rw [found]
      exact ⟨own, if_pos sameReturn, only⟩
  | added missing =>
      rw [missing]
      refine ⟨_, rfl, ?_⟩
      rw [MethodTable.Only, List.filter_append, ← only, List.filter_singleton, isKnown, cond_true]

omit agrees in
theorem MethodTable.Only.learn_outside
    {all own learned : MethodTable} (only : MethodTable.Only known all own) {method : MethodType}
    (unknown : method.definingClass.usesOnly known = false)
    (success : all.learn method = .ok learned) :
    MethodTable.Only known learned own := by
  have ended := all.learning method
  rw [success] at ended
  cases ended with
  | confirmed _ _ => exact only
  | added _ =>
      rw [MethodTable.Only, List.filter_append, ← only, List.filter_singleton, unknown,
        cond_false, List.append_nil]

end Lookup

namespace Members

/-- A method that a call means is offered by a class on the way. -/
theorem exists_of_firstOffer
    {offer : Ty → LookupResult} {chain : List Ty} {method : MethodType}
    (found : firstOffer offer chain = .ok (some method)) :
    ∃ candidate ∈ chain, offer candidate = .ok (some method) := by
  induction chain with
  | nil => cases found
  | cons candidate rest ih =>
      rw [firstOffer] at found
      split at found
      · obtain ⟨later, member, offered⟩ := ih found
        exact ⟨later, List.mem_cons_of_mem candidate member, offered⟩
      · exact ⟨candidate, List.mem_cons_self, found⟩

/-- Two views on methods that agree on known classes, in which the methods of known classes
are over known names. -/
structure Agrees (known : String → Bool) (whole part : Members) : Prop
    extends Catalog.Agrees known whole.catalog part.catalog where
  wholeKnows : whole.catalog.KnowsBuiltins
  partKnows : part.catalog.KnowsBuiltins
  only : MethodTable.Only known whole.methods part.methods
  entries : ∀ method ∈ whole.methods.entries,
    method.definingClass.usesOnly known = true → method.UsesOnly known

namespace Agrees

variable {known : String → Bool} {whole part : Members} (agrees : Agrees known whole part)
  {arguments : List Ty} (argumentsKnown : ∀ ty ∈ arguments, ty.usesOnly known = true)

include agrees

theorem usesOnly_of_overloads
    {definingClass : Ty} (isKnown : definingClass.usesOnly known = true) (name : String) :
    ∀ method ∈ whole.methods.overloads definingClass name, method.UsesOnly known := by
  intro method member
  obtain ⟨entry, rfl, _⟩ := MethodTable.mem_overloads_iff.mp member
  exact agrees.entries method entry isKnown

theorem usesOnly_of_declared
    {name : String} {definingClass : Ty} {method : MethodType}
    (isKnown : definingClass.usesOnly known = true)
    (offered : whole.declared name arguments definingClass = .ok (some method)) :
    method.returnType.usesOnly known = true := by
  unfold declared at offered
  split at offered
  · rename_i chosen
    cases offered
    exact (agrees.usesOnly_of_overloads isKnown name _ (Overloads.mem_of_select chosen)).returnType
  · cases offered
  · obtain ⟨ty, found, rfl⟩ := Option.map_eq_some_iff.mp (Except.ok.inj offered)
    exact agrees.usesOnly_of_methodType? found

theorem usesOnly_of_find
    {name : String} {receiver : Ty} {method : MethodType}
    (receiverKnown : receiver.usesOnly known = true)
    (found : whole.find receiver name arguments = .ok (some method)) :
    method.returnType.usesOnly known = true := by
  have above := (agrees.superclassChain_eq agrees.wholeKnows agrees.partKnows receiverKnown).2
  obtain ⟨candidate, member, offered⟩ := exists_of_firstOffer found
  exact agrees.usesOnly_of_declared (above candidate member) offered

include argumentsKnown

theorem declared_eq
    (name : String) {definingClass : Ty} (isKnown : definingClass.usesOnly known = true) :
    part.declared name arguments definingClass = whole.declared name arguments definingClass := by
  unfold declared
  rw [agrees.only.overloads_eq isKnown,
    Overloads.select_eq agrees.toAgrees (agrees.usesOnly_of_overloads isKnown name)
      argumentsKnown,
    agrees.methodType?_eq name argumentsKnown]

/-- A call on known types means the same method. -/
theorem find_eq
    (name : String) {receiver : Ty} (receiverKnown : receiver.usesOnly known = true) :
    part.find receiver name arguments = whole.find receiver name arguments := by
  obtain ⟨same, above⟩ :=
    agrees.superclassChain_eq agrees.wholeKnows agrees.partKnows receiverKnown
  rw [find, find, same]
  exact firstOffer_congr fun candidate member =>
    agrees.declared_eq argumentsKnown name (above candidate member)

end Agrees

end Members

end DeferredTyping
