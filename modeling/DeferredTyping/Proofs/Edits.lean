import DeferredTyping.Expansion
import DeferredTyping.Proofs.Construction

/-!
# Edits of an arena

An arena can be changed in four ways: an id is reserved, a node is added, a child is replaced
and a delegation is split off.  A builder makes such edits alone.  A draft is built by calls of
a builder, and so is whatever an expander that follows rules puts into the tree, refused or
not.
-/

namespace DeferredTyping

variable {σ : Type}

/-- One change that an arena offers. -/
inductive Arena.Edit : Arena → Arena → Prop where
  | reserve (arena : Arena) : Edit arena arena.reserve.2
  | add {arena after : Arena} {node : Node} (added : arena.add node = .ok after) :
      Edit arena after
  | replaceChild {arena after : Arena} {parent old new : NodeId}
      (replaced : arena.replaceChild parent old new = .ok after) : Edit arena after
  | extractDelegation {arena after : Arena} {id : NodeId}
      (extracted : arena.extractDelegation id = .ok after) : Edit arena after

/-- Changes one after another. -/
abbrev Arena.Edited : Arena → Arena → Prop :=
  Relation.ReflTransGen Arena.Edit

/-- The expander changes the tree by edits alone. -/
def Expander.Edits (expander : Expander σ) : Prop :=
  ∀ {before after : Arena} {call receiver state answer later},
    expander.expand before call receiver state = (answer, after, later) → before.Edited after

namespace Build

variable {α β ρ : Type}

/-- The step changes the arena by edits alone, refused or not. -/
def Edits (step : Build α) : Prop :=
  ∀ builder : Builder, builder.arena.Edited (exec step builder).2.arena

namespace Edits

theorem pure (value : α) : Edits (Pure.pure value : Build α) :=
  fun _ => .refl

protected theorem bind {step : Build α} {next : α → Build β}
    (first : Edits step) (second : ∀ value, Edits (next value)) : Edits (step >>= next) := by
  intro builder
  have early := first builder
  rw [exec_bind]
  rcases run : exec step builder with ⟨cause | value, middle⟩
  · rw [run] at early
    exact early
  · rw [run] at early
    exact early.trans (second value middle)

theorem edit {change : Arena → Except TreeError Arena}
    (edits : ∀ {before after}, change before = .ok after → before.Edit after) :
    Edits (edit change) := by
  intro builder
  rw [exec_edit]
  cases changed : change builder.arena with
  | error cause => exact .refl
  | ok after => exact .single (edits changed)

theorem reserve : Edits reserve :=
  fun builder => .single (.reserve builder.arena)

theorem moveTo (position : Option (Nat × Nat)) : Edits (moveTo position) := by
  cases position <;> exact fun _ => .refl

end Edits

/-- The steps that are made of the calls of a builder: nodes are built one after another, and
each above children that are built for its id. -/
inductive MadeOfCalls : {α : Type} → Build α → Prop where
  | pure {α : Type} (value : α) : MadeOfCalls (Pure.pure value)
  | bind {α β : Type} {step : Build α} {next : α → Build β} :
      MadeOfCalls step → (∀ value, MadeOfCalls (next value)) → MadeOfCalls (step >>= next)
  | node {position : Option (Nat × Nat)} {parent : Option NodeId} {splits : Bool}
      {children : NodeId → Build (Kind NodeId)} :
      (∀ id, MadeOfCalls (children id)) →
        MadeOfCalls (growNode position parent splits children)

theorem Edits.addNode (node : Node) (splits : Bool) : Edits (addNode node splits) := by
  refine (Edits.edit fun added => .add added).bind fun _ => ?_
  cases splits with
  | false => exact .pure _
  | true => exact (Edits.edit fun extracted => .extractDelegation extracted).bind fun _ => .pure _

theorem MadeOfCalls.edits {step : Build α} (made : MadeOfCalls step) : Edits step := by
  induction made with
  | pure value => exact .pure value
  | bind _ _ first second => exact first.bind second
  | node _ children =>
      exact (Edits.moveTo _).bind fun _ => Edits.reserve.bind fun (id, _) =>
        (children id).bind fun _ => .addNode _ _

variable (resolve : ρ → NodeId)

mutual

theorem madeOfCalls_build (parent : Option NodeId) (draft : Draft ρ) :
    MadeOfCalls (draft.build resolve parent) := by
  cases draft with
  | ref target => exact .pure _
  | node position splits kind =>
      rw [build_node]
      exact .node fun id => madeOfCalls_buildKind id kind

theorem madeOfCalls_buildList (parent : NodeId) (drafts : List (Draft ρ)) :
    MadeOfCalls (Draft.buildList resolve parent drafts) := by
  cases drafts with
  | nil => exact .pure _
  | cons draft rest =>
      exact (madeOfCalls_build (some parent) draft).bind fun _ =>
        (madeOfCalls_buildList parent rest).bind fun _ => .pure _

theorem madeOfCalls_buildOption (parent : NodeId) (draft : Option (Draft ρ)) :
    MadeOfCalls (Draft.buildOption resolve parent draft) := by
  cases draft with
  | none => exact .pure _
  | some draft => exact (madeOfCalls_build (some parent) draft).bind fun _ => .pure _

theorem madeOfCalls_buildDelegation (parent : NodeId) (drafts : Option (List (Draft ρ))) :
    MadeOfCalls (Draft.buildDelegation resolve parent drafts) := by
  cases drafts with
  | none => exact .pure _
  | some drafts => exact (madeOfCalls_buildList parent drafts).bind fun _ => .pure _

theorem madeOfCalls_buildMethod (parent : NodeId) (method : Method (Draft ρ)) :
    MadeOfCalls (Draft.buildMethod resolve parent method) := by
  obtain ⟨name, kind, declared, arguments, body, thisArgs, superArgs⟩ := method
  exact (madeOfCalls_build (some parent) arguments).bind fun _ =>
    (madeOfCalls_buildOption parent body).bind fun _ =>
    (madeOfCalls_buildDelegation parent thisArgs).bind fun _ =>
    (madeOfCalls_buildDelegation parent superArgs).bind fun _ => .pure _

theorem madeOfCalls_buildArguments (parent : NodeId) (list : ArgumentList (Draft ρ)) :
    MadeOfCalls (Draft.buildArguments resolve parent list) := by
  obtain ⟨required, optional, rest, block⟩ := list
  exact (madeOfCalls_buildList parent required).bind fun _ =>
    (madeOfCalls_buildList parent optional).bind fun _ =>
    (madeOfCalls_buildOption parent rest).bind fun _ =>
    (madeOfCalls_buildOption parent block).bind fun _ => .pure _

theorem madeOfCalls_buildKind (parent : NodeId) (kind : Kind (Draft ρ)) :
    MadeOfCalls (Draft.buildKind resolve parent kind) := by
  cases kind with
  | script name content | classDefinition name superclass interfaces content
  | interfaceDeclaration name interfaces content | returning content =>
      exact (madeOfCalls_buildOption parent content).bind fun _ => .pure _
  | methodDefinition method => exact (madeOfCalls_buildMethod parent method).bind fun _ => .pure _
  | arguments list => exact (madeOfCalls_buildArguments parent list).bind fun _ => .pure _
  | optionalArgument name value | localAssignment name value | raise value =>
      exact (madeOfCalls_build (some parent) value).bind fun _ => .pure _
  | block parameters content =>
      exact (madeOfCalls_build (some parent) parameters).bind fun _ =>
        (madeOfCalls_buildOption parent content).bind fun _ => .pure _
  | body statements | superCall statements =>
      exact (madeOfCalls_buildList parent statements).bind fun _ => .pure _
  | functionalCall name parameters closure =>
      exact (madeOfCalls_buildList parent parameters).bind fun _ =>
        (madeOfCalls_buildOption parent closure).bind fun _ => .pure _
  | call target name parameters closure =>
      exact (madeOfCalls_build (some parent) target).bind fun _ =>
        (madeOfCalls_buildList parent parameters).bind fun _ =>
        (madeOfCalls_buildOption parent closure).bind fun _ => .pure _
  | ifElse condition thenBody elseBody =>
      exact (madeOfCalls_build (some parent) condition).bind fun _ =>
        (madeOfCalls_buildOption parent thenBody).bind fun _ =>
        (madeOfCalls_buildOption parent elseBody).bind fun _ => .pure _
  | requiredArgument _ | restArgument _ | blockArgument _ | noop | fixnum _ | float _ | str _
  | boolean _ | null | selfRef | localRead _ | constant _ => exact .pure _

end

end Build

namespace ExpansionRules

theorem edited_instantiate
    (arena : Arena) (call : Node) (parameters : List NodeId) (rule : ExpansionRule) :
    arena.Edited (instantiate arena call parameters rule).2 := by
  let builder : Builder := {
    arena, source := call.location.source, line := call.location.line
    column := call.location.column }
  exact (Build.madeOfCalls_build _ (rule.parent <|> call.parent) rule.template).edits builder

/-- An expander that follows rules edits the tree, whatever its rules are. -/
theorem expander_edits (rules : List ExpansionRule) :
    (expander rules).Edits := by
  intro before after call receiver state answer later asked
  simp only [expander, expand] at asked
  split at asked
  · cases asked
    exact .refl
  · rename_i node _
    generalize take (applies _ _ _) state.rules = taken at asked
    cases taken with
    | none =>
        cases asked
        exact .refl
    | some taken =>
        cases asked
        exact edited_instantiate before node (callParts node.kind).2 taken.1

end ExpansionRules

end DeferredTyping
