import DeferredTyping.Proofs.Completeness
import DeferredTyping.Proofs.Provenance

/-!
# Every way of calling a method finds one

A method with a type is published for each number of given optional parameters, so its class has
something to offer for every call that fits one of these ways.  A call that spreads arguments over
a rest array needs an overload that allows it; a definition of the same class and name without a
rest parameter may have taken the place of that overload.
-/

namespace DeferredTyping

variable {σ : Type}

open Infer

theorem Catalog.self_mem_superclassChain (catalog : Catalog) (ty : Ty) :
    ty ∈ catalog.superclassChain ty := by
  simp [superclassChain, chainFrom]

/-- A class that learned an overload which takes the arguments does not leave the call open. -/
theorem Members.find_ne_none
    {members : Members} {definingClass : Ty} {name : String} {arguments : List Ty}
    {method : MethodType} (overload : method ∈ members.methods.overloads definingClass name)
    (takes : Assignable.TakesEach members.catalog.isParent method.parameters arguments ∨
      method.TakesSpread members.catalog.isParent arguments) :
    members.find definingClass name arguments ≠ .ok none := by
  intro unanswered
  have decides : members.Decides name arguments (members.catalog.superclassChain definingClass)
      (members.find definingClass name arguments) := find_decides definingClass
  rw [unanswered] at decides
  cases decides with
  | silent silent =>
      exact silent definingClass (Catalog.self_mem_superclassChain _ _) method
        (.learned overload takes)

/-- Whatever ends a run is admitted. -/
theorem Tolerates.everything
    (scriptClass : String) (tree : Arena) (classes : Catalog) (judgement : Judgement σ) :
    Tolerates scriptClass tree classes judgement fun _ => True where
  calm _ := trivial
  conflicting _ _ _ _ := trivial
  ambiguous _ _ _ := trivial

/-- The class has learned a method with these parameters that a definition without a rest parameter
announces. -/
def Facts.FixedBy (facts : Facts) (scriptClass : String) (classes : Catalog) (other : NodeId)
    (definingClass : Ty) (name : String) (parameters : List Ty) : Prop :=
  ∃ header entry, header.Heads scriptClass facts.arena classes other ∧ header.list.rest = none ∧
    facts.Announces header entry ∧ entry ∈ facts.methods.overloads definingClass name ∧
    entry.parameters = parameters

/-- A definition with a rest parameter does not fix its own place. -/
theorem Facts.FixedBy.ne_of_rest
    {facts : Facts} {scriptClass : String} {classes : Catalog} {id other : NodeId}
    {definingClass : Ty} {name : String} {parameters : List Ty} {method : Method NodeId}
    {list : ArgumentList NodeId}
    (fixed : facts.FixedBy scriptClass classes other definingClass name parameters)
    (defines : facts.arena.method? id = some method)
    (listed : facts.arena.argumentsOf method.arguments = .ok list) (rest : list.rest ≠ none) :
    other ≠ id := by
  rintro rfl
  obtain ⟨header, _, heads, none, _⟩ := fixed
  cases heads.defines.symm.trans defines
  rw [Except.ok.inj (heads.lists.symm.trans listed)] at none
  exact rest none

/-- A type that is left after those of the required and the optional parameters is that of a rest
parameter. -/
theorem ArgumentList.rest_ne_none_of_drop
    {list : ArgumentList NodeId} {types : List Ty} {last : Ty}
    (counted : types.length = list.typed.length)
    (dropped : types.drop (list.required.length + list.optional.length) = [last]) :
    list.rest ≠ none := by
  intro none
  have length := congrArg List.length dropped
  have typedLength := ArgumentLayout.length_typed list
  simp only [ArgumentLayout.ofArguments, ArgumentLayout.positional, none, Option.isSome_none,
    Bool.false_eq_true, if_false] at typedLength
  rw [List.length_drop, List.length_singleton] at length
  omega

namespace Typer

variable {typer : Typer σ} {arena : Arena}

theorem methodType_ne_none
    {session : Session σ} {definingClass : Ty} {name : String} {arguments : List Ty}
    {method : MethodType} (overload : method ∈ session.facts.methods.overloads definingClass name)
    (takes : Assignable.TakesEach session.catalog.isParent method.parameters arguments ∨
      method.TakesSpread session.catalog.isParent arguments) :
    ((methodType definingClass name arguments).run session).1 ≠ .ok none := by
  intro answered
  have found : Returns (methodType definingClass name arguments) session none _ :=
    run_eq_of_answer answered
  exact Members.find_ne_none overload takes (returns_findMethod.mp found).1

/-- A method definition whose list of parameters ends with a rest array allows calls that spread
arguments over it, unless a definition without a rest parameter holds its place. -/
theorem takesSpread_or_fixed
    {scriptClass : String} {classes : Catalog} {session : Session σ}
    (sourced : session.Sourced scriptClass arena classes)
    {definingClass array element : Ty} {name : String} {leading front rest : List Ty}
    {entry : MethodType} (overload : entry ∈ session.facts.methods.overloads definingClass name)
    (parameters : entry.parameters = leading ++ [array])
    (isArray : array.element? = some element)
    (takes : Assignable.TakesEach session.catalog.isParent leading front)
    (spread : ∀ argument ∈ rest, session.catalog.isParent element argument = true) :
    entry.TakesSpread session.catalog.isParent (front ++ rest) ∨
      ∃ other, session.facts.FixedBy scriptClass classes other definingClass name
        (leading ++ [array]) := by
  cases varargs : entry.varargs with
  | true => exact .inl ⟨varargs, leading, array, element, front, rest, parameters, isArray, rfl,
      takes, spread⟩
  | false =>
      obtain ⟨member, _⟩ := MethodTable.mem_overloads_iff.mp overload
      obtain ⟨other, header, heads, announces⟩ := sourced.sourced member
      have fixed : header.list.rest = none := by
        rw [announces.varargs] at varargs
        simpa using varargs
      exact .inr ⟨other, header, entry, sourced.arena ▸ heads, fixed, announces, overload,
        parameters⟩

/-- Without macros, once a run of a fresh typer over all trees ends with a value, every method
definition that a root leads to has a type, and every method definition with a type can be called
in each of its ways: with the types of its parameters, any number of the optional ones left out, or
with arguments that are spread over its rest array.  A call of the second kind fails to find a
method only where another definition of the same class and name, without a rest parameter, was
published with the same parameters before. -/
theorem every_way_of_calling_finds_method
    (declines : typer.expander.Declines) (keyed : arena.Keyed)
    {catalog : Catalog} {state : σ} {session : Session σ}
    (success : Returns typer.inferTypes (start arena catalog state) () session) :
    (∀ root ∈ session.facts.arena.roots, ∀ id, session.facts.arena.Below root.id id →
      ∃ ty, session.facts.nodeType? id = some ty) ∧
    ∀ {id method ty}, session.facts.arena.method? id = some method →
      session.facts.nodeType? id = some ty →
      ∃ list types definingClass, session.facts.arena.argumentsOf method.arguments = .ok list ∧
        session.facts.methodArgumentTypes? id = some types ∧
        types.length = list.typed.length ∧
        session.facts.definingClass? id = some definingClass ∧
        ∀ given, list.required.length ≤ given →
          given ≤ list.required.length + list.optional.length →
          (∀ arguments, Assignable.TakesEach session.catalog.isParent (types.take given ++
              types.drop (list.required.length + list.optional.length)) arguments →
            ((methodType definingClass method.name arguments).run session).1 ≠ .ok none) ∧
          ∀ array element front rest,
            types.drop (list.required.length + list.optional.length) = [array] →
            array.element? = some element →
            Assignable.TakesEach session.catalog.isParent (types.take given) front →
            (∀ argument ∈ rest, session.catalog.isParent element argument = true) →
            ((methodType definingClass method.name (front ++ rest)).run session).1 ≠ .ok none ∨
              ∃ other, other ≠ id ∧ session.facts.FixedBy typer.config.scriptClass
                session.catalog other definingClass method.name (types.take given ++ [array]) := by
  refine ⟨typed_of_below_root declines.onlyAdds keyed success, ?_⟩
  have established : (methodJudgement (arena.declare catalog)).Established typer.setting arena
      (arena.declare catalog) := methodJudgement_established declines keyed _
  have judged := judged_of_inferTypes established (fun _ _ _ _ => trivial) keyed declines
    (fun _ => trivial) success
  have sourced : UpholdsFrom (start arena catalog state)
      (Session.Sourced typer.setting.scriptClass arena (arena.declare catalog)) (fun _ => True)
      typer.inferTypes :=
    inferTypes_sourced (.everything _ _ _ _) established (fun _ _ _ _ => trivial)
      (fun _ _ => trivial) keyed declines
  rw [UpholdsFrom, success] at sourced
  replace sourced := sourced.1
  intro id method ty defines typed
  obtain ⟨_, published⟩ := judged.holds typed
  obtain ⟨list, known, publishes⟩ := published defines
  have counted : known.parameters.length = list.typed.length := by
    obtain ⟨other, found, types⟩ := judged.lists publishes.parameters
    have listed := publishes.listed
    rw [judged.arena, found] at listed
    cases listed
    exact length_of_mapM_some types
  have parameters : session.facts.methodArgumentTypes? id = some known.parameters := by
    rw [Facts.methodArgumentTypes?, defines]
    exact publishes.parameters
  refine ⟨list, known.parameters, _, publishes.listed, parameters, counted,
    publishes.definingClass defines, ?_⟩
  intro given enough bound
  obtain ⟨entry, member, ⟨sameClass, sameName, shape⟩, _⟩ := publishes.offers _
    (ArgumentLayout.mem_callShapes_iff.mpr ⟨given, enough, bound, rfl⟩)
  have overload := MethodTable.mem_overloads_iff.mpr ⟨member, sameClass, sameName⟩
  constructor
  · intro arguments takes
    exact methodType_ne_none overload (.inl (shape ▸ takes))
  · intro array element front rest last isArray takes spread
    rw [last] at shape
    rcases takesSpread_or_fixed sourced overload shape isArray takes spread with
      taken | ⟨other, fixed⟩
    · exact .inl (methodType_ne_none overload (.inr taken))
    · -- The array is the type of a rest parameter, so the other definition is not this one.
      have apart : other ≠ id := fixed.ne_of_rest defines publishes.listed
        (ArgumentList.rest_ne_none_of_drop counted last)
      exact .inr ⟨other, apart, sourced.catalog ▸ fixed⟩

/-- A method that adds any number of numbers to a first one. -/
def sumOfNumbers : Arena where
  nodes := ⟨[
    (1, { id := 1, parent := none, location := {}, kind := .script "" (some 2) }),
    (2, { id := 2, parent := some 1, location := {}, kind := .body [3] }),
    (3, { id := 3, parent := some 2, location := {},
          kind := .methodDefinition {
            name := "sum", arguments := 4, body := some 7
            declared := { parameters := [("first", "int"), ("others", "int[]")]
                          returns := some "int" } } }),
    (4, { id := 4, parent := some 3, location := {},
          kind := .arguments { required := [5], rest := some 6 } }),
    (5, { id := 5, parent := some 4, location := {}, kind := .requiredArgument "first" }),
    (6, { id := 6, parent := some 4, location := {}, kind := .restArgument "others" }),
    (7, { id := 7, parent := some 3, location := {}, kind := .fixnum 1 })]⟩
  nextId := 8

theorem every_way_of_calling_finds_method_of_sumOfNumbers :
    plain.expander.Declines ∧ sumOfNumbers.Keyed ∧
      ∃ session : Session Unit,
        Returns plain.inferTypes (start sumOfNumbers {} ()) () session ∧
        session.facts.nodeType? 3 = some .int ∧
        session.facts.methodArgumentTypes? 3 = some [.int, .array .int] ∧
        ∃ definingClass, session.facts.definingClass? 3 = some definingClass ∧
          ((methodType definingClass "sum" [.int, .int, .int]).run session).1 ≠ .ok none := by
  have keyed : sumOfNumbers.Keyed := ⟨by decide, by decide⟩
  have success : Returns plain.inferTypes (start sumOfNumbers {} ()) ()
      (plain.inferTypes.run (start sumOfNumbers {} ())).2 :=
    returns_of_isOk (by decide +kernel)
  have typed : (plain.inferTypes.run (start sumOfNumbers {} ())).2.facts.nodeType? 3 =
      some .int := by decide +kernel
  have given : (plain.inferTypes.run (start sumOfNumbers {} ())).2.facts.methodArgumentTypes? 3 =
      some [.int, .array .int] := by decide +kernel
  have defines : (plain.inferTypes.run (start sumOfNumbers {} ())).2.facts.arena.method? 3 =
      some {
        name := "sum", arguments := 4, body := some 7
        declared := { parameters := [("first", "int"), ("others", "int[]")]
                      returns := some "int" } } := by decide +kernel
  have listed : (plain.inferTypes.run (start sumOfNumbers {} ())).2.facts.arena.argumentsOf 4 =
      .ok { required := [5], rest := some 6 } := by decide +kernel
  have methods : ∀ entry ∈ (plain.inferTypes.run
      (start sumOfNumbers {} ())).2.facts.methods.entries, entry.varargs = true := by
    decide +kernel
  obtain ⟨_, resolved⟩ := every_way_of_calling_finds_method plain_declines keyed success
  obtain ⟨list, types, definingClass, found, typesGiven, _, stands, ways⟩ :=
    resolved defines typed
  cases listed.symm.trans found
  cases given.symm.trans typesGiven
  refine ⟨plain_declines, keyed, _, success, typed, given, definingClass, stands, ?_⟩
  obtain ⟨_, spreads⟩ := ways 1 (by decide) (by decide)
  refine (spreads (.array .int) .int [.int] [.int, .int] rfl rfl ?_ ?_).resolve_right ?_
  · exact .cons (Catalog.isParent_refl _ _) .nil
  · intro argument member
    have same : argument = .int := by simpa using member
    exact same ▸ Catalog.isParent_refl _ _
  · rintro ⟨_, _, _, entry, _, none, announces, overload, _⟩
    have varargs := methods entry (MethodTable.mem_overloads_iff.mp overload).1
    rw [announces.varargs, none] at varargs
    cases varargs

/-- Two definitions with the same parameters, of which the later one takes any number of
arguments. -/
def restBehindArray : Arena where
  nodes := ⟨[
    (1, { id := 1, parent := none, location := {}, kind := .script "" (some 2) }),
    (2, { id := 2, parent := some 1, location := {}, kind := .body [3, 8] }),
    (3, { id := 3, parent := some 2, location := {},
          kind := .methodDefinition {
            name := "f", arguments := 4, body := some 7
            declared := { parameters := [("a", "int"), ("xs", "int[]")]
                          returns := some "void" } } }),
    (4, { id := 4, parent := some 3, location := {}, kind := .arguments { required := [5, 6] } }),
    (5, { id := 5, parent := some 4, location := {}, kind := .requiredArgument "a" }),
    (6, { id := 6, parent := some 4, location := {}, kind := .requiredArgument "xs" }),
    (7, { id := 7, parent := some 3, location := {}, kind := .fixnum 1 }),
    (8, { id := 8, parent := some 2, location := {},
          kind := .methodDefinition {
            name := "f", arguments := 9, body := some 12
            declared := { parameters := [("a", "int"), ("xs", "int[]")]
                          returns := some "void" } } }),
    (9, { id := 9, parent := some 8, location := {},
          kind := .arguments { required := [10], rest := some 11 } }),
    (10, { id := 10, parent := some 9, location := {}, kind := .requiredArgument "a" }),
    (11, { id := 11, parent := some 9, location := {}, kind := .restArgument "xs" }),
    (12, { id := 12, parent := some 8, location := {}, kind := .fixnum 2 })]⟩
  nextId := 13

/-- The later definition has a type, and a call that spreads arguments over its rest array finds
no method. -/
theorem rest_array_may_be_fixed_by_another_definition :
    plain.expander.Declines ∧
      (plain.inferTypes.run (start restBehindArray .builtin ())).1 = .ok () ∧
      (plain.inferTypes.run (start restBehindArray .builtin ())).2.facts.nodeType? 8 =
        some .void ∧
      (plain.inferTypes.run (start restBehindArray .builtin ())).2.facts.methodArgumentTypes? 8 =
        some [.int, .array .int] ∧
      restBehindArray.argumentsOf 9 = .ok { required := [10], rest := some 11 } ∧
      (plain.inferTypes.run (start restBehindArray .builtin ())).2.facts.definingClass? 8 =
        some (Ty.object "Script").toMeta ∧
      ((methodType (Ty.object "Script").toMeta "f" [.int, .int, .int]).run
        (plain.inferTypes.run (start restBehindArray .builtin ())).2).1 = .ok none := by
  refine ⟨plain_declines, ?_⟩
  decide +kernel

end Typer

end DeferredTyping
