import DeferredTyping.Proofs.Assignability

/-!
# Written names of types

A written name is an element name and array brackets at its end.  The element name is looked up
first among the keywords, then among the classes and last among the short names; what it means
is written with the name of the class in full, and that name is looked up as the same type.  So
whatever a name stands for can be read again from how it is written, and only a short name is
written otherwise than it was given.
-/

namespace DeferredTyping

/-- Array brackets at the end of a name. -/
def brackets : Nat → String
  | 0 => ""
  | depth + 1 => brackets depth ++ "[]"

/-- A shape that a name can stand for: it is neither null nor unreachable, and no class object is
in it at any depth. -/
def Shape.Nameable : Shape → Prop
  | .void | .primitive _ | .object _ => True
  | .array element elementIsMeta => elementIsMeta = false ∧ element.Nameable
  | .unreachable | .null => False

/-- A type that a name can stand for. -/
structure Ty.Nameable (ty : Ty) : Prop where
  notMeta : ty.isMeta = false
  shape : ty.shape.Nameable

theorem Ty.text_array (element : Ty) : element.array.text = element.text ++ "[]" := by
  simp [array, text, Shape.text, String.append_assoc]

namespace Ty

theorem text_of_ofKeyword? {text : String} {ty : Ty} (keyword : ofKeyword? text = some ty) :
    ty.text = text ∧ ty.Nameable := by
  unfold ofKeyword? at keyword
  split at keyword
  · rename_i void
    cases keyword
    exact ⟨(beq_iff_eq.mp void).symm, rfl, trivial⟩
  · obtain ⟨basic, found, rfl⟩ := Option.map_eq_some_iff.mp keyword
    have named : basic.keyword = text := by simpa using List.find?_some found
    exact ⟨by simpa [Ty.text, primitive, Shape.text] using named, rfl, trivial⟩

end Ty

namespace Catalog

variable {catalog : Catalog}

/-- The name does not end in array brackets. -/
def Flat (name : String) : Prop :=
  ∀ shorter, name ≠ shorter ++ "[]"

theorem stripBrackets_append (name : String) :
    stripBrackets (name ++ "[]").toList.reverse =
      ((stripBrackets name.toList.reverse).1 + 1, (stripBrackets name.toList.reverse).2) := by
  have back : (name ++ "[]").toList.reverse = ']' :: '[' :: name.toList.reverse := by
    simp [String.toList_append]
  rw [back, stripBrackets]

/-- Brackets at the end of a name make an array type of what the name before them means. -/
theorem resolve_append_brackets (catalog : Catalog) (name : String) :
    catalog.resolve (name ++ "[]") = (catalog.resolve name).map .array := by
  simp only [resolve, stripBrackets_append, Option.map_map]
  rfl

theorem stripBrackets_of_flat {name : String} (flat : Flat name) :
    stripBrackets name.toList.reverse = (0, name.toList.reverse) := by
  unfold stripBrackets
  split
  · rename_i rest back
    have ended : name = String.ofList rest.reverse ++ "[]" := by
      rw [← String.toList_inj, ← List.reverse_inj, back]
      simp [String.toList_append]
    exact absurd ended (flat _)
  · rfl

theorem resolve_of_flat (catalog : Catalog) {name : String} (flat : Flat name) :
    catalog.resolve name = catalog.resolveElement name := by
  simp [resolve, stripBrackets_of_flat flat, arrayOf]

/-- A name is an element name with brackets at its end. -/
theorem exists_flat (name : String) :
    ∃ element depth, name = element ++ brackets depth ∧ Flat element := by
  by_cases flat : Flat name
  · exact ⟨name, 0, (String.append_empty).symm, flat⟩
  · obtain ⟨shorter, bracketed⟩ : ∃ shorter, name = shorter ++ "[]" := by
      simpa [Flat] using flat
    have smaller : shorter.length < name.length := by
      rw [bracketed, String.length_append]
      exact Nat.lt_add_of_pos_right (by decide)
    obtain ⟨element, depth, split, flat⟩ := exists_flat shorter
    exact ⟨element, depth + 1, by rw [bracketed, split, brackets, String.append_assoc], flat⟩
termination_by name.length

theorem resolve_brackets (catalog : Catalog) (name : String) (depth : Nat) :
    catalog.resolve (name ++ brackets depth) = (catalog.resolve name).map (arrayOf depth) := by
  induction depth with
  | zero =>
      rw [brackets, String.append_empty]
      exact Option.map_id'.symm
  | succ depth ih =>
      rw [brackets, ← String.append_assoc, resolve_append_brackets, ih, Option.map_map]
      rfl

theorem text_arrayOf (ty : Ty) (depth : Nat) :
    (arrayOf depth ty).text = ty.text ++ brackets depth := by
  induction depth with
  | zero => rw [arrayOf, brackets, String.append_empty]
  | succ depth ih => rw [arrayOf, Ty.text_array, ih, brackets, String.append_assoc]

theorem nameable_arrayOf {ty : Ty} (nameable : ty.Nameable) (depth : Nat) :
    (arrayOf depth ty).Nameable := by
  induction depth with
  | zero => exact nameable
  | succ depth ih => exact ⟨rfl, ih.notMeta, ih.shape⟩

/-- The name is the short name of a builtin class, and no class took it. -/
def Abbreviates (catalog : Catalog) (name full : String) : Prop :=
  (name, full) ∈ shortNames ∧ catalog.classes.contains name = false

/-- What short names stand for is neither a keyword nor ends in brackets. -/
theorem full_of_shortName {short : String × String} (member : short ∈ shortNames) :
    Ty.ofKeyword? short.2 = none ∧ Flat short.2 := by
  have ends : ∀ short ∈ shortNames, Ty.ofKeyword? short.2 = none ∧
      short.2.toList.getLast? ≠ some ']' := by
    decide +kernel
  obtain ⟨notKeyword, last⟩ := ends short member
  refine ⟨notKeyword, ?_⟩
  rintro shorter same
  rw [same] at last
  simp [String.toList_append] at last

/-- What an element name stands for is written with that name, or with the full name that it
abbreviates, and is looked up by it again. -/
theorem resolveElement_text (knows : catalog.KnowsBuiltins) {name : String} (flat : Flat name)
    {ty : Ty} (found : catalog.resolveElement name = some ty) :
    catalog.resolveElement ty.text = some ty ∧ Flat ty.text ∧ ty.Nameable ∧
      (ty.text = name ∨ catalog.Abbreviates name ty.text) := by
  have looked := found
  unfold resolveElement at looked
  split at looked
  · rename_i keyword
    cases looked
    obtain ⟨written, nameable⟩ := Ty.text_of_ofKeyword? keyword
    rw [written]
    exact ⟨found, flat, nameable, .inl rfl⟩
  · rename_i notKeyword
    obtain ⟨full, stands, rfl⟩ := Option.map_eq_some_iff.mp looked
    have written : (Ty.object full).text = full := by simp [Ty.object, Ty.text, Shape.text]
    have nameable : (Ty.object full).Nameable := ⟨rfl, trivial⟩
    rw [written]
    cases known : catalog.classes.contains name with
    | true =>
        obtain rfl : name = full := by
          rw [canonical?_of_contains known] at stands
          exact Option.some.inj stands
        exact ⟨found, flat, nameable, .inl rfl⟩
    | false =>
        have short : (name, full) ∈ shortNames := by
          rw [canonical?, if_neg (by simp [known])] at stands
          obtain ⟨⟨short, _⟩, first, rfl⟩ := Option.map_eq_some_iff.mp stands
          obtain rfl : short = name := by simpa using List.find?_some first
          exact List.mem_of_find?_eq_some first
        obtain ⟨fullName, flatFull⟩ := full_of_shortName short
        refine ⟨?_, flatFull, nameable, .inr ⟨short, known⟩⟩
        simp only [resolveElement, fullName, knows.canonical?_canonical stands, Option.map_some]

/-- Names that resolve print back to themselves.  In every catalogue that is built from the
builtin one, whatever its classes are called, what a name stands for is resolved again from how
it is written.  It is written as the name was given, but for an element name that abbreviates
the name of a builtin class, and is neither null nor unreachable nor holds a class object at any
depth. -/
theorem resolved_names_print_back
    (built : catalog.Built) {name : String} {ty : Ty} (resolved : catalog.resolve name = some ty) :
    catalog.resolve ty.text = some ty ∧ ty.Nameable ∧
      ∃ element depth, name = element ++ brackets depth ∧ Flat element ∧
        (ty.text = name ∨
          ∃ full, catalog.Abbreviates element full ∧ ty.text = full ++ brackets depth) := by
  obtain ⟨element, depth, rfl, flat⟩ := exists_flat name
  rw [resolve_brackets, resolve_of_flat catalog flat] at resolved
  obtain ⟨base, found, rfl⟩ := Option.map_eq_some_iff.mp resolved
  obtain ⟨again, flatText, nameable, written⟩ :=
    resolveElement_text built.knowsBuiltins flat found
  rw [text_arrayOf]
  refine ⟨?_, nameable_arrayOf nameable depth, element, depth, rfl, flat, ?_⟩
  · rw [resolve_brackets, resolve_of_flat catalog flatText, again, Option.map_some]
  · rcases written with same | abbreviates
    · exact .inl (by rw [same])
    · exact .inr ⟨base.text, abbreviates, rfl⟩

/-- A catalogue with classes that are called like a keyword, like a short name, like an array, and
by no letter at all. -/
private def oddlyNamed : Catalog :=
  ["int", "String", "a[]b", ""].foldl (fun catalog name => catalog.withClass name none) builtin

theorem resolved_names_print_back_of_oddlyNamed :
    oddlyNamed.resolve "java.lang.Exception[][]" =
        some (arrayOf 2 (.object "java.lang.Exception")) ∧
      oddlyNamed.resolve "String[]" = some (.array (.object "String")) ∧
      oddlyNamed.resolve "int" = some .int ∧
      oddlyNamed.resolve "a[]b[]" = some (.array (.object "a[]b")) ∧
      oddlyNamed.resolve "[]" = some (.array (.object "")) := by
  have built : oddlyNamed.Built :=
    (((Built.builtin.withClass "int" none).withClass "String" none).withClass "a[]b" none).withClass
      "" none
  have short : oddlyNamed.resolve "Exception[][]" =
      some (arrayOf 2 (.object "java.lang.Exception")) := by decide +kernel
  have shadowed : oddlyNamed.resolve "String[]" = some (.array (.object "String")) := by
    decide +kernel
  have keyword : oddlyNamed.resolve "int" = some .int := by decide +kernel
  have inner : oddlyNamed.resolve "a[]b[]" = some (.array (.object "a[]b")) := by decide +kernel
  have empty : oddlyNamed.resolve "[]" = some (.array (.object "")) := by decide +kernel
  exact ⟨(resolved_names_print_back built short).1, (resolved_names_print_back built shadowed).1,
    (resolved_names_print_back built keyword).1, (resolved_names_print_back built inner).1,
    (resolved_names_print_back built empty).1⟩

end Catalog

end DeferredTyping
