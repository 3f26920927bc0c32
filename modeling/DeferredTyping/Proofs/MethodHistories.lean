import Mathlib.Data.Finset.Card
import DeferredTyping.Proofs.Overloads
import DeferredTyping.Proofs.TreeChanges

/-!
# What a method table remembers

A method table is what calls to learn methods make of the empty table.  Refused calls leave no
trace in it, and neither does a method that was learned before: of the methods that were
learned for one class, name and parameter list, the table holds the first one.  So it is known
by the first method of each key, and that is the invariant which a call keeps.
-/

namespace DeferredTyping

/-- What tells a method from the others in a table. -/
def MethodType.key (method : MethodType) : Ty × String × List Ty :=
  (method.definingClass, method.name, method.parameters)

theorem MethodType.sameKey_iff {left right : MethodType} :
    left.SameKey right ↔ left.key = right.key := by
  simp [SameKey, key]

namespace MethodTable

/-- The table after a call to learn a method; a refused one leaves it as it was. -/
def afterwards (table : MethodTable) (method : MethodType) : MethodTable :=
  match table.learn method with
  | .ok learned => learned
  | .error _ => table

/-- What calls to learn methods, one after another, make of the empty table. -/
def ofCalls (calls : List MethodType) : MethodTable := calls.foldl afterwards {}

/-- What is learned when a table is called to learn methods one after another: those of the
methods that are not refused. -/
def accepted (table : MethodTable) : List MethodType → List MethodType
  | [] => []
  | method :: calls =>
      match table.learn method with
      | .ok learned => method :: learned.accepted calls
      | .error _ => table.accepted calls

section Calls

variable {table after : MethodTable} {method known : MethodType}

@[simp] theorem afterwards_of_ok (success : table.learn method = .ok after) :
    table.afterwards method = after := by
  rw [afterwards, success]

@[simp] theorem afterwards_of_error (refused : table.learn method = .error known) :
    table.afterwards method = table := by
  rw [afterwards, refused]

@[simp] theorem ofCalls_append_singleton (calls : List MethodType) (method : MethodType) :
    ofCalls (calls ++ [method]) = (ofCalls calls).afterwards method := by
  rw [ofCalls, List.foldl_append]
  rfl

theorem findExact?_eq (table : MethodTable) (definingClass : Ty) (name : String)
    (parameters : List Ty) :
    table.findExact? definingClass name parameters =
      table.entries.find? fun entry => entry.key = (definingClass, name, parameters) := by
  rw [findExact?, overloads, List.find?_filter]
  congr 1
  funext entry
  simp [MethodType.key, and_assoc]

/-- A method that was learned is found by its class, name and parameters. -/
theorem findExact?_of_learn (success : table.learn method = .ok after) :
    ∃ entry, after.findExact? method.definingClass method.name method.parameters = some entry ∧
      entry.returnType = method.returnType := by
  have ended := table.learning method
  rw [success] at ended
  cases ended with
  | @confirmed known found sameReturn => exact ⟨known, found, sameReturn⟩
  | added missing =>
      refine ⟨method, ?_, rfl⟩
      rw [findExact?_eq] at missing ⊢
      rw [List.find?_append, missing]
      simp [MethodType.key]

end Calls

theorem Distinct.nodup_keys {table : MethodTable} (distinct : table.Distinct) :
    (table.entries.map MethodType.key).Nodup :=
  List.pairwise_map.mpr (distinct.imp fun apart same => apart (MethodType.sameKey_iff.mpr same))

theorem Distinct.eq_of_sameKey {table : MethodTable} (distinct : table.Distinct)
    {left right method : MethodType} (isLeft : left ∈ table.entries)
    (isRight : right ∈ table.entries) (one : left.SameKey method) (other : right.SameKey method) :
    left = right := by
  rw [MethodType.sameKey_iff] at one other
  exact List.inj_on_of_nodup_map distinct.nodup_keys isLeft isRight (one.trans other.symm)

/-- A call is refused for the entry of its key, when that one returns something else. -/
theorem Distinct.learn_eq_error_iff {table : MethodTable} (distinct : table.Distinct)
    {method known : MethodType} :
    table.learn method = .error known ↔
      known ∈ table.overloads method.definingClass method.name ∧
        known.parameters = method.parameters ∧ known.returnType ≠ method.returnType := by
  constructor
  · intro refused
    have ended := table.learning method
    rw [refused] at ended
    cases ended with
    | refused found otherReturn =>
        obtain ⟨member, sameClass, sameName, sameParameters⟩ := sameKey_of_findExact? found
        exact ⟨mem_overloads_iff.mpr ⟨member, sameClass, sameName⟩, sameParameters, otherReturn⟩
  · rintro ⟨listed, sameParameters, otherReturn⟩
    obtain ⟨member, sameClass, sameName⟩ := mem_overloads_iff.mp listed
    have sameKey : known.SameKey method := ⟨sameClass, sameName, sameParameters⟩
    have ended := table.learning method
    generalize table.learn method = answer at ended ⊢
    cases ended with
    | added missing =>
        have passed := List.find?_eq_none.mp missing known listed
        exact absurd (by simpa using sameParameters) passed
    | confirmed found sameReturn =>
        obtain ⟨stored, alike⟩ := sameKey_of_findExact? found
        exact absurd (distinct.eq_of_sameKey stored member alike sameKey ▸ sameReturn) otherReturn
    | refused found _ =>
        obtain ⟨stored, alike⟩ := sameKey_of_findExact? found
        rw [distinct.eq_of_sameKey stored member alike sameKey]

/-- A class has its entries, each of them once. -/
theorem Distinct.lists_methodsOf {table : MethodTable} (distinct : table.Distinct)
    (definingClass : Ty) :
    (table.methodsOf definingClass).Nodup ∧
      ∀ entry, entry ∈ table.methodsOf definingClass ↔
        ∃ name, entry ∈ table.overloads definingClass name := by
  have sorted := List.mergeSort_perm
    (table.entries.filter fun method => method.definingClass == definingClass)
    fun left right => decide (left.name ≤ right.name)
  constructor
  · exact sorted.nodup_iff.mpr (distinct.nodup_keys.of_map.filter _)
  · intro entry
    rw [methodsOf, sorted.mem_iff]
    simp [mem_overloads_iff]

/-- The table finds, for each key, the first of the methods that were learned. -/
structure Remembers (table : MethodTable) (learned : List MethodType) : Prop where
  distinct : table.Distinct
  first : ∀ key, (table.entries.find? fun entry => entry.key = key) =
    learned.find? fun method => method.key = key

namespace Remembers

variable {table after : MethodTable} {learned : List MethodType} {method : MethodType}

theorem empty : Remembers {} [] := ⟨.nil, fun _ => rfl⟩

theorem learn (remembers : table.Remembers learned) (success : table.learn method = .ok after) :
    after.Remembers (learned ++ [method]) := by
  refine ⟨remembers.distinct.learn success, fun key => ?_⟩
  have ended := table.learning method
  rw [success] at ended
  cases ended with
  | added _ => rw [List.find?_append, List.find?_append, remembers.first]
  | @confirmed known found _ =>
      rw [List.find?_append, ← remembers.first]
      by_cases same : method.key = key
      · rw [findExact?_eq] at found
        rw [← same, MethodType.key, found, Option.some_or]
      · simp [same]

theorem afterCalls (remembers : table.Remembers learned) (calls : List MethodType) :
    (calls.foldl afterwards table).Remembers (learned ++ table.accepted calls) := by
  induction calls generalizing table learned with
  | nil => simpa [accepted] using remembers
  | cons method calls ih =>
      rw [List.foldl_cons, accepted]
      cases answer : table.learn method with
      | ok after =>
          rw [afterwards_of_ok answer]
          simpa using ih (remembers.learn answer)
      | error known =>
          rw [afterwards_of_error answer]
          exact ih remembers

theorem ofCalls (calls : List MethodType) :
    (ofCalls calls).Remembers (accepted {} calls) :=
  empty.afterCalls calls

/-- A key is in the table when a method of this key was learned. -/
theorem mem_keys_iff (remembers : table.Remembers learned) {key : Ty × String × List Ty} :
    key ∈ table.entries.map MethodType.key ↔ key ∈ learned.map MethodType.key := by
  have same := congrArg Option.isSome (remembers.first key)
  rw [Bool.eq_iff_iff, List.find?_isSome, List.find?_isSome] at same
  simpa using same

theorem size_eq (remembers : table.Remembers learned) :
    table.size = (learned.map MethodType.key).toFinset.card := by
  have sameKeys : (table.entries.map MethodType.key).toFinset =
      (learned.map MethodType.key).toFinset := by
    ext key
    rw [List.mem_toFinset, List.mem_toFinset, remembers.mem_keys_iff]
  calc table.size
      = (table.entries.map MethodType.key).length := (List.length_map _).symm
    _ = (table.entries.map MethodType.key).toFinset.card :=
        (List.toFinset_card_of_nodup remembers.distinct.nodup_keys).symm
    _ = (learned.map MethodType.key).toFinset.card := congrArg Finset.card sameKeys

end Remembers

end MethodTable

/-- A call to learn a method changes nothing but the table of methods, which decides what is
answered. -/
theorem Infer.run_learnMethod
    {σ : Type} (method : MethodType) (location : Location) (session : Session σ) :
    (learnMethod method location).run session =
      (match session.facts.methods.learn method with
        | .ok _ => .ok method.returnType
        | .error known => .error (.failed (.conflictingMethod method.definingClass method.name
            known.returnType method.returnType location)),
      { session with facts := { session.facts with
        methods := session.facts.methods.afterwards method } }) := by
  rw [learnMethod, run_bind, run_getFacts]
  cases answer : session.facts.methods.learn method with
  | ok learned => simp [answer, run_map]
  | error known => simp [answer]

namespace MethodTable

/-- Whatever methods a table was called to learn, refused calls among them: the entries under a
class and a name carry both and differ in their parameters.  A method is refused exactly for an
entry of its class, name and parameters that returns something else, and then the overloads
stay as they were; else it is found afterwards with the type that it returns, in the first
method that was ever learned for its class, name and parameters.  The table has as many entries
as there are different classes, names and parameters among the methods that were learned, and a
class has its entries, each of them once.  A session that is called to learn a method is left
with the table after that call, and is otherwise as it was. -/
theorem learned_methods_are_function_of_key (calls : List MethodType) :
    (∀ definingClass name,
      (∀ entry ∈ (ofCalls calls).overloads definingClass name,
        entry.definingClass = definingClass ∧ entry.name = name) ∧
      (((ofCalls calls).overloads definingClass name).map MethodType.parameters).Nodup) ∧
    (∀ method known, (ofCalls calls).learn method = .error known ↔
      known ∈ (ofCalls calls).overloads method.definingClass method.name ∧
        known.parameters = method.parameters ∧ known.returnType ≠ method.returnType) ∧
    (∀ method known, (ofCalls calls).learn method = .error known →
      ∀ definingClass name, (ofCalls (calls ++ [method])).overloads definingClass name =
        (ofCalls calls).overloads definingClass name) ∧
    (∀ method learned, (ofCalls calls).learn method = .ok learned →
      ∃ entry, (ofCalls (calls ++ [method])).findExact? method.definingClass method.name
          method.parameters = some entry ∧
        entry.returnType = method.returnType ∧
        (accepted {} (calls ++ [method])).find? (fun first => first.key = method.key) =
          some entry) ∧
    (ofCalls calls).size = ((accepted {} calls).map MethodType.key).toFinset.card ∧
    (∀ definingClass,
      ((ofCalls calls).methodsOf definingClass).Nodup ∧
      ∀ entry, entry ∈ (ofCalls calls).methodsOf definingClass ↔
        ∃ name, entry ∈ (ofCalls calls).overloads definingClass name) ∧
    ∀ {σ : Type} (session : Session σ), session.facts.methods = ofCalls calls →
      ∀ method location, ((Infer.learnMethod method location).run session).2 = { session with
        facts := { session.facts with methods := ofCalls (calls ++ [method]) } } := by
  have remembers := Remembers.ofCalls calls
  refine ⟨fun definingClass name => ⟨fun entry member => (mem_overloads_iff.mp member).2,
      remembers.distinct.nodup_parameters definingClass name⟩,
    fun method known => remembers.distinct.learn_eq_error_iff, ?_, ?_, remembers.size_eq,
    remembers.distinct.lists_methodsOf, ?_⟩
  · intro method known refused definingClass name
    rw [ofCalls_append_singleton, afterwards_of_error refused]
  · intro method learned success
    obtain ⟨entry, found, sameReturn⟩ := findExact?_of_learn success
    rw [← afterwards_of_ok success, ← ofCalls_append_singleton] at found
    refine ⟨entry, found, sameReturn, ?_⟩
    rwa [findExact?_eq, (Remembers.ofCalls (calls ++ [method])).first] at found
  · intro σ session started method location
    rw [Infer.run_learnMethod, started, ofCalls_append_singleton]

/-- A method that is learned twice with different results: the second call is refused. -/
example :
    let method (parameters : List Ty) (returnType : Ty) : MethodType :=
      { definingClass := .object "Script", name := "f", parameters, returnType }
    accepted {} [method [.int] .int, method [.int] .void, method [] .void] =
      [method [.int] .int, method [] .void] := by
  decide

/-- The later table is what calls to learn methods make of the earlier one. -/
def LearnsTo (before after : MethodTable) : Prop :=
  ∃ calls : List MethodType, after = calls.foldl afterwards before

namespace LearnsTo

theorem refl (table : MethodTable) : table.LearnsTo table := ⟨[], rfl⟩

theorem trans {first second third : MethodTable} (early : first.LearnsTo second)
    (late : second.LearnsTo third) : first.LearnsTo third := by
  obtain ⟨calls, rfl⟩ := early
  obtain ⟨others, rfl⟩ := late
  exact ⟨calls ++ others, List.foldl_append.symm⟩

theorem learn {table learned : MethodTable} {method : MethodType}
    (success : table.learn method = .ok learned) : table.LearnsTo learned :=
  ⟨[method], (afterwards_of_ok success).symm⟩

end LearnsTo

end MethodTable

open MethodTable

theorem Infer.tracksFacts_learnsTo {σ : Type} (setting : Setting σ) :
    TracksFacts setting fun before after => before.methods.LearnsTo after.methods where
  trans _ _ _ := LearnsTo.trans
  learns {_ before _} learned := by
    cases learned with
    | returnType => exact .refl before.methods
    | adds added =>
        cases added with
        | method success => exact .learn success
        | definingClass _ _ | signature _ _ | «local» _ | delegateTarget _ _ =>
            exact .refl before.methods
  notes facts _ _ _ := .refl facts.methods
  offers {facts _ _ _ _ _ _} _ := .refl facts.methods
  splices {facts _ _ _ _ _ _ _ _} _ _ := .refl facts.methods

/-- In every session that is reached, whatever failed on the way and whatever was expanded, the
methods are what calls to learn them make of the empty table. -/
theorem Typer.Reachable.methods_ofCalls
    {σ : Type} {typer : Typer σ} {arena : Arena} {catalog : Catalog} {state : σ}
    {session : Session σ} (reached : typer.Reachable arena catalog state session) :
    ∃ calls, session.facts.methods = ofCalls calls := by
  have learns : LearnsTo {} session.facts.methods := by
    induction reached with
    | start => exact .refl {}
    | step _ operation ih =>
        exact ih.trans ((Infer.tracksFacts_learnsTo typer.setting).respects.perform _ operation)
  exact learns

private theorem nodup_eraseDups {α : Type} [BEq α] [LawfulBEq α] :
    ∀ items : List α, items.eraseDups.Nodup
  | [] => List.nodup_nil
  | first :: rest => by
      rw [List.eraseDups_cons]
      refine List.nodup_cons.mpr ⟨?_, nodup_eraseDups (rest.filter fun item => !item == first)⟩
      simp [List.mem_eraseDups]
termination_by items => items.length
decreasing_by
  exact Nat.lt_succ_of_le (List.length_filter_le _ rest)

/-- What later stages are told of the methods in a tree names each of them once. -/
theorem Typer.Reachable.nodup_knownMethods
    {σ : Type} {typer : Typer σ} {arena : Arena} {catalog : Catalog} {state : σ}
    {session : Session σ} (reached : typer.Reachable arena catalog state session) :
    session.facts.knownMethods.Nodup := by
  obtain ⟨calls, made⟩ := reached.methods_ofCalls
  have distinct : session.facts.methods.Distinct := made ▸ (Remembers.ofCalls calls).distinct
  have classOf : ∀ {definingClass method}, method ∈ session.facts.methods.methodsOf definingClass →
      method.definingClass = definingClass := by
    intro definingClass method member
    obtain ⟨_, listed⟩ := ((distinct.lists_methodsOf definingClass).2 method).mp member
    exact (mem_overloads_iff.mp listed).2.1
  refine List.nodup_flatMap.mpr ⟨fun definingClass _ => (distinct.lists_methodsOf definingClass).1,
    (nodup_eraseDups _).imp ?_⟩
  intro left right different method isLeft isRight
  exact different ((classOf isLeft).symm.trans (classOf isRight))

end DeferredTyping
