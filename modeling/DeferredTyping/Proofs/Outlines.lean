import Mathlib.Data.List.Basic
import Mathlib.Data.Option.Basic
import DeferredTyping.Tree.Kind

/-!
# Outlines of kinds

The outline of a kind is all of it but what its child slots hold.  A kind is told by its outline
and its children, so whatever keeps the outline and changes the children changes nothing else.
-/

namespace DeferredTyping

variable {α β : Type}

namespace Kind

/-- The kind without what its child slots hold.  A slot that is filled stays so, and of the
arguments of a delegation that was split off the view shows as much as it does. -/
def outline (view : α → β) : Kind α → Kind (Option β)
  | .script name content => .script name (content.map fun _ => none)
  | .classDefinition name superclass interfaces content =>
      .classDefinition name superclass interfaces (content.map fun _ => none)
  | .interfaceDeclaration name interfaces content =>
      .interfaceDeclaration name interfaces (content.map fun _ => none)
  | .methodDefinition method =>
      .methodDefinition {
        name := method.name, kind := method.kind, declared := method.declared
        arguments := none
        body := method.body.map fun _ => none
        thisArgs := method.thisArgs.map (List.map fun argument => some (view argument))
        superArgs := method.superArgs.map (List.map fun argument => some (view argument)) }
  | .arguments list =>
      .arguments {
        required := list.required.map fun _ => none
        optional := list.optional.map fun _ => none
        rest := list.rest.map fun _ => none
        block := list.block.map fun _ => none }
  | .requiredArgument name => .requiredArgument name
  | .optionalArgument name _ => .optionalArgument name none
  | .restArgument name => .restArgument name
  | .blockArgument name => .blockArgument name
  | .block _ content => .block none (content.map fun _ => none)
  | .body statements => .body (statements.map fun _ => none)
  | .noop => .noop
  | .fixnum value => .fixnum value
  | .float value => .float value
  | .str value => .str value
  | .boolean value => .boolean value
  | .null => .null
  | .selfRef => .selfRef
  | .localRead name => .localRead name
  | .localAssignment name _ => .localAssignment name none
  | .functionalCall name parameters closure =>
      .functionalCall name (parameters.map fun _ => none) (closure.map fun _ => none)
  | .call _ name parameters closure =>
      .call none name (parameters.map fun _ => none) (closure.map fun _ => none)
  | .superCall parameters => .superCall (parameters.map fun _ => none)
  | .constant name => .constant name
  | .ifElse _ thenBody elseBody =>
      .ifElse none (thenBody.map fun _ => none) (elseBody.map fun _ => none)
  | .returning value => .returning (value.map fun _ => none)
  | .raise _ => .raise none

/-- An optional slot is told by what it holds. -/
private theorem eq_of_toList {left right : Option α} (same : left.toList = right.toList) :
    left = right := by
  cases left <;> cases right <;> simp_all

/-- A kind is told by its outline and its children. -/
theorem eq_of_outline {left right : Kind α}
    (outline : left.outline id = right.outline id) (children : left.children = right.children) :
    left = right := by
  -- Different kinds have different outlines.
  cases left <;> cases right <;> try cases outline
  case methodDefinition.methodDefinition method other =>
    obtain ⟨name, kind, declared, arguments, body, thisArgs, superArgs⟩ := method
    obtain ⟨name', kind', declared', arguments', body', thisArgs', superArgs'⟩ := other
    have whole : Function.Injective (List.map fun argument : α => some argument) :=
      List.map_injective_iff.mpr (Option.some_injective α)
    simp only [Kind.outline, methodDefinition.injEq, Method.mk.injEq, id] at outline
    simp only [Kind.children, List.cons.injEq] at children
    obtain ⟨rfl, rfl, rfl, -, -, this, super⟩ := outline
    obtain ⟨rfl, body⟩ := children
    rw [eq_of_toList body, Option.map_injective whole this, Option.map_injective whole super]
  case arguments.arguments list other =>
    obtain ⟨required, optional, rest, block⟩ := list
    obtain ⟨required', optional', rest', block'⟩ := other
    simp only [Kind.outline, arguments.injEq, ArgumentList.mk.injEq, List.map_const',
      List.replicate_inj] at outline
    simp only [Kind.children] at children
    obtain ⟨⟨requiredLength, -⟩, ⟨optionalLength, -⟩, restFilled, -⟩ := outline
    have restLength : rest.toList.length = rest'.toList.length := by
      cases rest <;> cases rest' <;> simp_all
    obtain ⟨typed, block⟩ := List.append_inj children (by simp [*])
    obtain ⟨early, rest⟩ := List.append_inj typed (by simp [*])
    obtain ⟨rfl, rfl⟩ := List.append_inj early requiredLength
    rw [eq_of_toList rest, eq_of_toList block]
  case functionalCall.functionalCall name parameters closure name' parameters' closure' =>
    simp only [Kind.outline, functionalCall.injEq, List.map_const', List.replicate_inj] at outline
    obtain ⟨rfl, ⟨length, -⟩, -⟩ := outline
    obtain ⟨rfl, closure⟩ := List.append_inj children length
    rw [eq_of_toList closure]
  case call.call target name parameters closure target' name' parameters' closure' =>
    simp only [Kind.outline, call.injEq, List.map_const', List.replicate_inj] at outline
    obtain ⟨-, rfl, ⟨length, -⟩, -⟩ := outline
    obtain ⟨rfl, given⟩ := List.cons.inj children
    obtain ⟨rfl, closure⟩ := List.append_inj given length
    rw [eq_of_toList closure]
  case ifElse.ifElse condition thenBody elseBody condition' thenBody' elseBody' =>
    simp only [Kind.outline, ifElse.injEq] at outline
    have length : thenBody.toList.length = thenBody'.toList.length := by
      cases thenBody <;> cases thenBody' <;> simp_all
    obtain ⟨rfl, branches⟩ := List.cons.inj children
    obtain ⟨thenBody, elseBody⟩ := List.append_inj branches length
    rw [eq_of_toList thenBody, eq_of_toList elseBody]
  all_goals simp_all [Kind.outline, Kind.children]
  all_goals exact eq_of_toList (by simp_all)

end Kind

end DeferredTyping
