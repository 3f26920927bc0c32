import DeferredTyping.Signature

/-!
# Resolving written types

A signature is resolved name by name: parameters, then the return type, then thrown types.
The first name that stands for no type is the error, whichever of the three it is written in;
if there is none, the signature has what the names stand for.  A parameter that is declared
twice has its last type.
-/

namespace DeferredTyping

namespace DeclaredSignature

/-- The written types of a method, in the order in which they are resolved. -/
def texts (declared : DeclaredSignature) : List String :=
  declared.parameters.map Prod.snd ++ (declared.returns.toList ++ declared.throws)

/-- The type name of the last parameter of this name. -/
def lastParameter? (declared : DeclaredSignature) (name : String) : Option String :=
  (declared.parameters.findRev? fun parameter => parameter.1 == name).map Prod.snd

theorem mem_texts_of_lastParameter?
    {declared : DeclaredSignature} {name text : String}
    (last : declared.lastParameter? name = some text) : text ∈ declared.texts := by
  obtain ⟨parameter, found, rfl⟩ := Option.map_eq_some_iff.mp last
  rw [List.findRev?_eq_find?_reverse] at found
  have listed := List.mem_reverse.mp (List.mem_of_find?_eq_some found)
  exact List.mem_append_left _ (List.mem_map_of_mem listed)

/-- The entries for a parameter have one type name. -/
def DeclaresOnce (declared : DeclaredSignature) (name : String) : Prop :=
  ∀ {text other}, (name, text) ∈ declared.parameters → (name, other) ∈ declared.parameters →
    text = other

theorem lastParameter?_eq_parameter?
    {declared : DeclaredSignature} {name : String} (once : declared.DeclaresOnce name) :
    declared.lastParameter? name = declared.parameter? name := by
  unfold lastParameter? parameter?
  rw [List.findRev?_eq_find?_reverse]
  cases first : declared.parameters.find? fun parameter => parameter.1 == name with
  | none =>
      have absent := List.find?_eq_none.mp first
      rw [List.find?_eq_none.mpr fun parameter member =>
        absent parameter (List.mem_reverse.mp member)]
  | some early =>
      cases last : declared.parameters.reverse.find? fun parameter => parameter.1 == name with
      | none =>
          have member := List.mem_reverse.mpr (List.mem_of_find?_eq_some first)
          exact absurd (List.find?_some first) (List.find?_eq_none.mp last early member)
      | some late =>
          have earlyName : early.1 = name := by simpa using List.find?_some first
          have lateName : late.1 = name := by simpa using List.find?_some last
          have earlyListed := List.mem_of_find?_eq_some first
          have lateListed := List.mem_reverse.mp (List.mem_of_find?_eq_some last)
          subst earlyName
          exact congrArg some (once (lateName ▸ lateListed) earlyListed)

end DeclaredSignature

namespace Catalog

variable {α β : Type} {catalog : Catalog}

/-- The first of some written names that stands for no type. -/
def firstUnknown? (catalog : Catalog) (texts : List String) : Option String :=
  texts.find? fun text => (catalog.resolve text).isNone

/-- An answer that is found by resolving some names one after another: the first of them that
stands for no type is the error, and without one there is a value that is as it should be. -/
def Resolves (catalog : Catalog) (texts : List String) (answer : Except String α)
    (holds : α → Prop) : Prop :=
  match catalog.firstUnknown? texts with
  | some text => answer = .error text
  | none => ∃ value, answer = .ok value ∧ holds value

namespace Resolves

protected theorem pure {value : α} {holds : α → Prop} (here : holds value) :
    catalog.Resolves [] (pure value) holds :=
  ⟨value, rfl, here⟩

theorem name (catalog : Catalog) (text : String) :
    catalog.Resolves [text] (catalog.resolveOrName text)
      fun ty => catalog.resolve text = some ty := by
  cases stands : catalog.resolve text with
  | none => simp [Resolves, firstUnknown?, resolveOrName, stands]
  | some ty => simp [Resolves, firstUnknown?, resolveOrName, stands]

/-- What is resolved first also fails first. -/
protected theorem bind
    {texts later : List String} {answer : Except String α} {next : α → Except String β}
    {early : α → Prop} {late : β → Prop}
    (first : catalog.Resolves texts answer early)
    (second : ∀ {value}, early value → catalog.Resolves later (next value) late) :
    catalog.Resolves (texts ++ later) (answer >>= next) late := by
  unfold Resolves firstUnknown? at first second ⊢
  rw [List.find?_append]
  cases unknown : texts.find? fun text => (catalog.resolve text).isNone with
  | some text =>
      rw [unknown] at first
      cases first
      rfl
  | none =>
      rw [unknown] at first
      obtain ⟨value, rfl, here⟩ := first
      exact second here

theorem mono
    {texts : List String} {answer : Except String α} {holds wider : α → Prop}
    (resolves : catalog.Resolves texts answer holds)
    (included : ∀ {value}, holds value → wider value) :
    catalog.Resolves texts answer wider := by
  unfold Resolves at resolves ⊢
  split at resolves
  · exact resolves
  · obtain ⟨value, found, here⟩ := resolves
    exact ⟨value, found, included here⟩

theorem eq_error
    {texts : List String} {answer : Except String α} {holds : α → Prop} {text : String}
    (resolves : catalog.Resolves texts answer holds)
    (unknown : catalog.firstUnknown? texts = some text) : answer = .error text := by
  rwa [Resolves, unknown] at resolves

theorem exists_ok
    {texts : List String} {answer : Except String α} {holds : α → Prop}
    (resolves : catalog.Resolves texts answer holds)
    (known : catalog.firstUnknown? texts = none) :
    ∃ value, answer = .ok value ∧ holds value := by
  rwa [Resolves, known] at resolves

theorem of_ok
    {texts : List String} {value : α} {holds : α → Prop}
    (resolves : catalog.Resolves texts (.ok value) holds) : holds value := by
  unfold Resolves at resolves
  split at resolves
  · cases resolves
  · obtain ⟨_, ⟨⟩, here⟩ := resolves
    exact here

/-- Names are resolved to as many types in the same order. -/
theorem each (catalog : Catalog) (texts : List String) :
    catalog.Resolves texts (texts.mapM catalog.resolveOrName)
      fun types => types.map some = texts.map catalog.resolve := by
  induction texts with
  | nil => exact .pure rfl
  | cons text rest ih =>
      rw [List.mapM_cons, ← List.singleton_append, ← List.append_nil rest]
      refine (name catalog text).bind fun {ty} stands => ?_
      refine Resolves.bind (by simpa using ih) fun {types} others => .pure ?_
      simp [stands, others]

theorem returned (catalog : Catalog) (text? : Option String) :
    catalog.Resolves text?.toList (text?.mapM catalog.resolveOrName)
      fun ty? => ty?.map some = text?.map catalog.resolve := by
  cases text? with
  | none => exact .pure rfl
  | some text =>
      rw [Option.mapM_some, Option.toList_some, ← List.append_nil [text]]
      exact (name catalog text).bind fun stands => .pure (by simp [stands])

/-- Of the types that are declared for a parameter, the table keeps the last. -/
theorem parameters
    (catalog : Catalog) (parameters : List (String × String)) (first : Table String Ty) :
    catalog.Resolves (parameters.map Prod.snd)
      (parameters.foldlM (fun table (name, text) => do
        return table.insert name (← catalog.resolveOrName text)) first)
      fun last => ∀ name, last.get? name =
        ((parameters.findRev? fun parameter => parameter.1 == name).map
          fun parameter => catalog.resolve parameter.2).getD (first.get? name) := by
  induction parameters generalizing first with
  | nil => exact .pure fun _ => rfl
  | cons parameter rest ih =>
      obtain ⟨here, text⟩ := parameter
      have stores : catalog.Resolves [text]
          (do return first.insert here (← catalog.resolveOrName text))
          fun table => ∃ ty, catalog.resolve text = some ty ∧ table = first.insert here ty := by
        rw [← List.append_nil [text]]
        exact (name catalog text).bind fun stands => .pure ⟨_, stands, rfl⟩
      rw [List.foldlM_cons, List.map_cons, ← List.singleton_append]
      refine stores.bind ?_
      rintro _ ⟨ty, stands, rfl⟩
      refine (ih _).mono fun {last} agrees name => ?_
      rw [agrees, List.findRev?]
      cases rest.findRev? fun parameter => parameter.1 == name with
      | some later => rfl
      | none =>
          by_cases same : here = name
          · subst same
            simp [stands]
          · have different : name ≠ here := fun equal => same equal.symm
            simp [same, Table.get?_insert_of_ne _ different]

end Resolves

end Catalog

/-- The signature has the types that are declared, as the catalogue understands them. -/
structure Signature.Matches (catalog : Catalog) (declared : DeclaredSignature)
    (signature : Signature) : Prop where
  parameters : ∀ {name ty}, signature.parameter? name = some ty ↔
    ∃ text, declared.lastParameter? name = some text ∧ catalog.resolve text = some ty
  returns : signature.returnType.map some = declared.returns.map catalog.resolve
  throws : signature.throws.map some = declared.throws.map catalog.resolve

/-- Resolving a signature fails at the first written name that stands for no type; without one
the signature has what is declared. -/
theorem Catalog.resolves_resolveSignature
    (catalog : Catalog) (declared : DeclaredSignature) :
    catalog.Resolves declared.texts (catalog.resolveSignature declared)
      (Signature.Matches catalog declared) := by
  refine (Resolves.parameters catalog declared.parameters {}).bind fun {table} listed => ?_
  refine (Resolves.returned catalog declared.returns).bind fun {returnType} returned => ?_
  rw [← List.append_nil declared.throws]
  refine Resolves.bind (by simpa using Resolves.each catalog declared.throws)
    fun {throws} thrown => .pure ⟨?_, returned, by simpa using thrown⟩
  intro name ty
  rw [Signature.parameter?, listed, DeclaredSignature.lastParameter?]
  cases declared.parameters.findRev? fun parameter => parameter.1 == name with
  | none => simp
  | some last => simp

end DeferredTyping
