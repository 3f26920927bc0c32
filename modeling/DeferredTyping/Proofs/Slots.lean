import DeferredTyping.Proofs.Drafts
import DeferredTyping.Proofs.Extraction

/-!
# Filling the slots of a node

Where a kind brings no arguments of a delegation that was split off, building it is building its
children one after another, and what is built differs from the draft only in what its child
slots hold.  Then the node is added, and a constructor whose leading statement is no delegation
call stays as it was added.
-/

namespace DeferredTyping

variable {ρ : Type}

namespace Build

variable {β : Type}

theorem exec_pure {value : β} (builder : Builder) :
    exec (pure value) builder = (.ok value, builder) := rfl

theorem exec_map {γ : Type} (view : β → γ) (step : Build β) (builder : Builder) :
    exec (view <$> step) builder =
      ((exec step builder).1.map view, (exec step builder).2) := by
  rw [map_eq_pure_bind, exec_bind]
  rcases exec step builder with ⟨cause | value, after⟩ <;> rfl

/-- What the step answers has the property. -/
def Answers (property : β → Prop) (step : Build β) : Prop :=
  ∀ builder, ∀ {value after}, exec step builder = (.ok value, after) → property value

namespace Answers

variable (resolve : ρ → NodeId) {property : β → Prop}

protected theorem pure {value : β} (holds : property value) :
    Answers property (Pure.pure value) := by
  rintro _ _ _ ⟨⟩
  exact holds

protected theorem bind {γ : Type} {answers : γ → Prop} {step : Build γ} {next : γ → Build β}
    (first : Answers answers step)
    (second : ∀ value, answers value → Answers property (next value)) :
    Answers property (step >>= next) := by
  intro builder value after run
  rw [exec_bind] at run
  rcases ran : exec step builder with ⟨cause | middle, later⟩
  · rw [ran] at run
    cases run
  · rw [ran] at run
    exact second middle (first builder ran) later run

theorem trivial (step : Build β) : Answers (fun _ => True) step :=
  fun _ _ _ _ => .intro

/-- As many slots are filled as there are drafts for them. -/
theorem buildList (parent : NodeId) (drafts : List (Draft ρ)) :
    Answers (fun ids => ids.map (fun _ => (none : Option Unit)) = drafts.map fun _ => none)
      (Draft.buildList resolve parent drafts) := by
  induction drafts with
  | nil => exact .pure rfl
  | cons draft rest ih =>
      exact (trivial _).bind fun _ _ => ih.bind fun ids same => .pure (by simp [same])

theorem buildOption (parent : NodeId) (draft : Option (Draft ρ)) :
    Answers (fun id => id.map (fun _ => (none : Option Unit)) = draft.map fun _ => none)
      (Draft.buildOption resolve parent draft) := by
  cases draft with
  | none => exact .pure rfl
  | some draft => exact (trivial _).bind fun _ _ => .pure rfl

end Answers

variable (resolve : ρ → NodeId)

theorem buildList_append (parent : NodeId) (early late : List (Draft ρ)) :
    Draft.buildList resolve parent (early ++ late) = (do
      let first ← Draft.buildList resolve parent early
      let second ← Draft.buildList resolve parent late
      return first ++ second) := by
  induction early with
  | nil => simp [Draft.buildList]
  | cons draft rest ih => simp [Draft.buildList, ih]

theorem buildList_toList (parent : NodeId) (draft : Option (Draft ρ)) :
    Draft.buildList resolve parent draft.toList =
      Option.toList <$> Draft.buildOption resolve parent draft := by
  cases draft <;> simp [Draft.buildList, Draft.buildOption]

/-- Where no arguments were split off, none are built. -/
theorem buildDelegation_of_attached (parent : NodeId) {drafts : Option (List (Draft ρ))}
    (attached : drafts.getD [] = []) :
    Draft.buildDelegation resolve parent drafts = pure (drafts.map fun _ => []) := by
  cases drafts with
  | none => rfl
  | some drafts =>
      obtain rfl : drafts = [] := attached
      rfl

/-- Where no delegation was split off, building a kind is building its children in turn. -/
theorem children_buildKind (parent : NodeId) {kind : Kind (Draft ρ)}
    (attached : kind.detached = []) :
    Kind.children <$> Draft.buildKind resolve parent kind =
      Draft.buildList resolve parent kind.children := by
  cases kind with
  | methodDefinition method =>
      obtain ⟨name, kind, declared, arguments, body, thisArgs, superArgs⟩ := method
      obtain ⟨noThis, noSuper⟩ := List.append_eq_nil_iff.mp attached
      simp [Draft.buildKind, Draft.buildMethod, Draft.buildList, Kind.children, buildList_toList,
        buildDelegation_of_attached resolve parent noThis,
        buildDelegation_of_attached resolve parent noSuper]
  | arguments list =>
      obtain ⟨required, optional, rest, block⟩ := list
      simp [Draft.buildKind, Draft.buildArguments, Kind.children, buildList_append,
        buildList_toList]
  | _ =>
      simp [Draft.buildKind, Draft.buildList, Kind.children, buildList_append, buildList_toList]

/-- What the slots of a kind hold changes, and nothing else of it. -/
theorem answers_outline (parent : NodeId) {kind : Kind (Draft ρ)}
    (attached : kind.detached = []) :
    Answers (fun built => built.outline (fun _ => ()) = kind.outline fun _ => ())
      (Draft.buildKind resolve parent kind) := by
  cases kind with
  | script _ content | classDefinition _ _ _ content | interfaceDeclaration _ _ content
  | returning content =>
      exact (Answers.buildOption resolve parent content).bind fun _ held =>
        .pure (by simp only [Kind.outline, held])
  | methodDefinition method =>
      obtain ⟨name, kind, declared, arguments, body, thisArgs, superArgs⟩ := method
      obtain ⟨noThis, noSuper⟩ := List.append_eq_nil_iff.mp attached
      dsimp only at noThis noSuper
      rw [Draft.buildKind, Draft.buildMethod, buildDelegation_of_attached resolve parent noThis,
        buildDelegation_of_attached resolve parent noSuper]
      simp only [bind_assoc, pure_bind]
      exact (Answers.trivial _).bind fun _ _ =>
        (Answers.buildOption resolve parent body).bind fun _ held =>
          .pure (by cases thisArgs <;> cases superArgs <;> simp_all [Kind.outline])
  | arguments list =>
      obtain ⟨required, optional, rest, block⟩ := list
      rw [Draft.buildKind, Draft.buildArguments]
      simp only [bind_assoc, pure_bind]
      exact (Answers.buildList resolve parent required).bind fun _ required =>
        (Answers.buildList resolve parent optional).bind fun _ optional =>
        (Answers.buildOption resolve parent rest).bind fun _ rest =>
        (Answers.buildOption resolve parent block).bind fun _ block =>
          .pure (by simp only [Kind.outline, required, optional, rest, block])
  | optionalArgument _ value | localAssignment _ value | raise value =>
      exact (Answers.trivial _).bind fun _ _ => .pure rfl
  | block parameters content =>
      exact (Answers.trivial _).bind fun _ _ =>
        (Answers.buildOption resolve parent content).bind fun _ held =>
          .pure (by simp only [Kind.outline, held])
  | body slots | superCall slots =>
      exact (Answers.buildList resolve parent slots).bind fun _ held =>
        .pure (by simp only [Kind.outline, held])
  | functionalCall _ parameters closure =>
      exact (Answers.buildList resolve parent parameters).bind fun _ given =>
        (Answers.buildOption resolve parent closure).bind fun _ held =>
          .pure (by simp only [Kind.outline, given, held])
  | call target _ parameters closure =>
      exact (Answers.trivial _).bind fun _ _ =>
        (Answers.buildList resolve parent parameters).bind fun _ given =>
        (Answers.buildOption resolve parent closure).bind fun _ held =>
          .pure (by simp only [Kind.outline, given, held])
  | ifElse condition thenBody elseBody =>
      exact (Answers.trivial _).bind fun _ _ =>
        (Answers.buildOption resolve parent thenBody).bind fun _ second =>
        (Answers.buildOption resolve parent elseBody).bind fun _ third =>
          .pure (by simp only [Kind.outline, second, third])
  | requiredArgument _ | restArgument _ | blockArgument _ | noop | fixnum _ | float _ | str _
  | boolean _ | null | selfRef | localRead _ | constant _ => exact .pure rfl

/-- What is built where the children of a kind are. -/
theorem exec_buildKind_of_list
    {parent : NodeId} {kind : Kind (Draft ρ)} (attached : kind.detached = [])
    {builder after : Builder} {ids : List NodeId}
    (listed : exec (Draft.buildList resolve parent kind.children) builder = (.ok ids, after)) :
    ∃ built, exec (Draft.buildKind resolve parent kind) builder = (.ok built, after) ∧
      built.children = ids ∧ built.outline (fun _ => ()) = kind.outline fun _ => () := by
  rw [← children_buildKind resolve parent attached, exec_map] at listed
  rcases run : exec (Draft.buildKind resolve parent kind) builder with ⟨cause | built, last⟩
  · rw [run] at listed
    cases listed
  · rw [run] at listed
    obtain ⟨children, rfl⟩ := Prod.mk.inj listed
    exact ⟨built, rfl, Except.ok.inj children,
      answers_outline resolve parent attached builder run⟩

theorem exec_addNode_of_calm {node : Node} {splits : Bool} {builder : Builder} {grown : Arena}
    (added : builder.arena.add node = .ok grown)
    (whole : splits = true → grown.extractDelegation node.id = .ok grown) :
    exec (addNode node splits) builder = (.ok node.id, { builder with arena := grown }) := by
  rw [exec_addNode added]
  cases splits with
  | false => rfl
  | true => rw [if_pos rfl, whole rfl]

end Build

namespace Arena

variable {arena : Arena} {id : NodeId}

/-- A constructor whose leading statement is no delegation call is left alone. -/
theorem extractDelegation_of_calm
    {node : Node} {method : Method NodeId} (present : arena.find? id = some node)
    (kind : node.kind = .methodDefinition method) (constructs : method.isConstructor = true)
    (calm : ∀ body, method.body = some body → arena.leadingStatement? id body = .ok none ∨
      ∃ holder first statement, arena.leadingStatement? id body = .ok (some (holder, first)) ∧
        arena.find? first = some statement ∧ Delegation.ofKind? statement.kind = none) :
    arena.extractDelegation id = .ok arena := by
  cases delegated : method.thisArgs.isSome || method.superArgs.isSome with
  | true =>
      simp only [extractDelegation, node_of_find? present, kind, constructs, delegated, bind,
        Except.bind]
      rfl
  | false =>
      cases stated : method.body with
      | none =>
          simp only [extractDelegation, node_of_find? present, kind, constructs, delegated,
            stated, bind, Except.bind]
          rfl
      | some body =>
          rcases calm body stated with leading | ⟨holder, first, statement, leading, held, none⟩
          · simp only [extractDelegation, node_of_find? present, kind, constructs, delegated,
              stated, leading, bind, Except.bind]
            rfl
          · simp only [extractDelegation, node_of_find? present, kind, constructs, delegated,
              stated, leading, node_of_find? held, none, bind, Except.bind]
            rfl

end Arena

end DeferredTyping
