import DeferredTyping.Proofs.Dependence
import DeferredTyping.Proofs.Outcomes

/-!
# Without a new type nothing is learned

A rule learns a fact only on its way to a type for its node.  The signature
and the class of a method definition are the exception: these are kept as soon
as they are looked up.  Once they are known, a visit during which no node takes
a type leaves everything but the worklist as it was.
-/

namespace DeferredTyping

variable {σ : Type}

namespace Session

/-- The tree is intact, every method definition has a signature, and those
among the given nodes know their class. -/
structure Prepared (tree : Arena) (visited : NodeId → Prop)
    (session : Session σ) : Prop extends Intact tree session where
  signatures : ∀ {id method}, tree.method? id = some method →
    ∃ signature, session.facts.signature? id = some signature
  classes : ∀ {id method}, visited id → tree.method? id = some method →
    ∃ lexical, session.facts.definingClasses.get? id = some lexical

theorem Prepared.grow
    {arena : Arena} {visited allowed : NodeId → Prop} {before after : Session σ}
    (prepared : before.Prepared arena visited)
    (grows : before.GrowsWithin allowed after) :
    after.Prepared arena visited where
  toIntact := grows.intact prepared.toIntact
  signatures defines := by
    obtain ⟨signature, known⟩ := prepared.signatures defines
    obtain ⟨later, kept, _⟩ := grows.facts.signatures known
    exact ⟨later, kept⟩
  classes inside defines := by
    obtain ⟨lexical, known⟩ := prepared.classes inside defines
    exact ⟨lexical, grows.facts.definingClasses known⟩

/-- Every node with a type had one before. -/
def Idle (before after : Session σ) : Prop :=
  ∀ {id ty}, after.facts.nodeType? id = some ty →
    ∃ earlier, before.facts.nodeType? id = some earlier

theorem Idle.left
    {first second third : Session σ}
    (idle : first.Idle third)
    (late : second.Extends third) :
    first.Idle second :=
  fun known => idle (late.facts.nodeTypes known)

theorem Idle.right
    {first second third : Session σ}
    (idle : first.Idle third)
    (early : first.Extends second) :
    second.Idle third := by
  intro id ty known
  obtain ⟨earlier, before⟩ := idle known
  exact ⟨earlier, early.facts.nodeTypes before⟩

/-- A session that knows more.  When no node took a type on the way, it differs
in its worklist at most. -/
structure Quiet (before after : Session σ) : Prop
    extends before.Extends after where
  unchanged : before.Idle after → before.Alike after

namespace Quiet

theorem refl (session : Session σ) : session.Quiet session where
  toExtends := .refl session
  unchanged _ := .refl session

theorem trans
    {first second third : Session σ}
    (early : first.Quiet second)
    (late : second.Quiet third) :
    first.Quiet third where
  toExtends := early.toExtends.trans late.toExtends
  unchanged idle :=
    (early.unchanged (idle.left late.toExtends)).trans
      (late.unchanged (idle.right early.toExtends))

end Quiet

end Session

open Infer

namespace Infer

/-- A step that ends with a value learns nothing unless some node takes a
type. -/
abbrev LearnsByTyping (arena : Arena) (visited : NodeId → Prop) {α : Type}
    (ids : List NodeId) (step : Infer σ α) : Prop :=
  Visits (Session.Prepared arena visited) Session.Quiet (fun _ _ => True) ids step

variable {setting : Setting σ} {arena : Arena} {visited : NodeId → Prop}

theorem sequential_learnsByTyping :
    Sequential fun ids (step : Infer σ _) =>
      LearnsByTyping arena visited ids step := by
  apply Sequential.ofVisits
  · exact Session.Quiet.refl
  · intro first second third early late
    exact early.trans late
  · intro before after id _ _
    trivial

section Known

variable {before after : Session σ} (prepared : before.Prepared arena visited)

include prepared

/-- A signature that is resolved is only looked up. -/
theorem signatureOf_keeps
    {id : NodeId} {method declared : Method NodeId} {signature : Signature}
    (defines : arena.method? id = some declared)
    (returned : Returns (signatureOf setting id method) before signature after) :
    after = before := by
  obtain ⟨known, resolved⟩ := prepared.signatures defines
  rcases returns_signatureOf returned with ⟨_, kept⟩ | ⟨unknown, _⟩
  · exact kept
  · rw [resolved] at unknown
    cases unknown

theorem declaredType?_keeps
    {argument : NodeId} {name : String} {declared : Option Ty}
    (returned : Returns (declaredType? setting argument name) before declared after) :
    after = before := by
  rcases returns_declaredType? returned with ⟨_, _, kept⟩ |
    ⟨owner, method, signature, owns, looked, _⟩
  · exact kept
  · rw [prepared.arena] at owns
    exact signatureOf_keeps prepared (Arena.owningMethod?_ok owns).2 looked

/-- A class that is bound is only looked up. -/
theorem bindDefiningClass_keeps
    {id : NodeId} {method : Method NodeId} {lexical : Ty}
    (inside : visited id)
    (defines : arena.method? id = some method)
    (returned : Returns (bindDefiningClass setting id) before lexical after) :
    after = before := by
  obtain ⟨known, bound⟩ := prepared.classes inside defines
  rcases returns_bindDefiningClass returned with ⟨_, kept⟩ | ⟨unknown, _⟩
  · exact kept
  · rw [bound] at unknown
    cases unknown

end Known

section Rules

variable {infer : NodeId → Infer σ (Option Ty)} {id : NodeId} {before after : Session σ}
  (prepared : before.Prepared arena visited)

include prepared

theorem localAssignment_quiet
    {name : String} {value : NodeId} {location : Location}
    (visits : LearnsByTyping arena visited [value] (infer value))
    (returned : Returns (localAssignment infer id name value location) before none after) :
    before.Quiet after := by
  obtain ⟨given, middle, visit, ⟨_, _, rfl⟩ | ⟨_, _, _, _, _, _, same⟩⟩ :=
    returns_localAssignment returned
  · exact (visits prepared visit).2.1
  · cases same

theorem requiredArgument_quiet
    {name : String}
    (returned : Returns (requiredArgument setting id name) before none after) :
    before.Quiet after := by
  obtain ⟨scope, declared, middle, _, declares, ⟨_, _, rfl⟩ | ⟨_, _, _, _, _, same⟩⟩ :=
    returns_requiredArgument returned
  · rw [declaredType?_keeps prepared declares]
    exact .refl before
  · cases same

theorem optionalArgument_quiet
    {name : String} {value : NodeId}
    (visits : LearnsByTyping arena visited [value] (infer value))
    (returned : Returns (optionalArgument setting infer id name value) before none after) :
    before.Quiet after := by
  obtain ⟨scope, declared, declaredAt, given, middle, _, declares, visit,
    ⟨_, _, rfl⟩ | ⟨_, _, _, _, _, _, same⟩⟩ := returns_optionalArgument returned
  · obtain rfl := declaredType?_keeps prepared declares
    exact (visits prepared visit).2.1
  · cases same

theorem methodDefinition_quiet
    {method : Method NodeId}
    (inside : visited id)
    (defines : arena.method? id = some method)
    (visits : ∀ child ∈ Kind.dependencies (.methodDefinition method),
      LearnsByTyping arena visited [child] (infer child))
    (returned : Returns (methodDefinition setting infer id method) before none after) :
    before.Quiet after := by
  obtain ⟨location, ready, delegated, lexical, bound, delegates, binds, typed⟩ :=
    returns_methodDefinition returned
  have handedOver := sequential_learnsByTyping.delegationReady fun child member =>
    visits child (List.mem_append_left _ member)
  obtain ⟨delegatedPrepared, first, _⟩ := handedOver prepared delegates
  obtain rfl := bindDefiningClass_keeps delegatedPrepared inside defines binds
  obtain ⟨signature, signed, parameters, listed, bodyType, content, resolves, lists,
    body, concluded⟩ := returns_methodInClass typed
  obtain rfl := signatureOf_keeps delegatedPrepared defines resolves
  have list := sequential_learnsByTyping.argumentList
    (visits method.arguments (List.mem_append_right _ List.mem_cons_self))
  obtain ⟨listedPrepared, second, _⟩ := list delegatedPrepared lists
  have content := sequential_learnsByTyping.optional fun child member =>
    visits child (List.mem_append_right _ (List.mem_cons_of_mem _ member))
  obtain ⟨_, third, _⟩ := content listedPrepared body
  rcases concluded with ⟨_, rfl⟩ | ⟨_, _, _, _, _, _, _, _, _, same⟩
  · exact (first.trans second).trans third
  · cases same

theorem arguments_quiet
    {list : ArgumentList NodeId} {node : Node}
    (present : arena.find? id = some node)
    (kind : node.kind = .arguments list)
    (visits : ∀ child ∈ list.typed,
      LearnsByTyping arena visited [child] (infer child))
    (returned : Returns (arguments infer id) before none after) :
    before.Quiet after := by
  rcases returns_arguments returned with
    ⟨types, _, same, _⟩ | ⟨other, middle, _, listed, collects, keeps⟩
  · cases same
  · rw [Arena.argumentsOf_of_find? (prepared.arena ▸ present) kind] at listed
    cases listed
    obtain ⟨_, quiet, _⟩ := sequential_learnsByTyping.all visits prepared collects
    cases keeps
    exact quiet

end Rules

/-- A rule that finds no type for its node learns nothing by itself. -/
theorem rule_quiet
    (declines : setting.expander.Declines)
    {infer : NodeId → Infer σ (Option Ty)} {id : NodeId} {node : Node}
    {before after : Session σ}
    (prepared : before.Prepared arena visited)
    (inside : visited id)
    (present : arena.find? id = some node)
    (visits : ∀ child ∈ node.kind.dependencies,
      LearnsByTyping arena visited [child] (infer child))
    (returned : Returns (rule setting infer id node) before none after) :
    before.Quiet after := by
  cases learning : node.kind.learns with
  | false =>
      have rules : LearnsByTyping arena visited node.kind.dependencies
          (rule setting infer id node) := by
        refine sequential_learnsByTyping.rule ?_ ?_ visits
        · intro learns
          rw [learning] at learns
          cases learns
        · intro receiver name types
          exact sequential_learnsByTyping.read (.resolveCall declines id receiver name types)
      exact (rules prepared returned).2.1
  | true =>
      unfold rule at returned
      cases kind : node.kind with
      | methodDefinition method =>
          rw [kind] at visits returned
          have defines : arena.method? id = some method := by
            simp [Arena.method?, present, kind, Kind.method?]
          exact methodDefinition_quiet prepared inside defines visits returned
      | arguments list =>
          rw [kind] at visits returned
          obtain ⟨types, listed, unknown⟩ := returns_map.mp returned
          cases types with
          | some types => cases unknown
          | none => exact arguments_quiet prepared present kind visits listed
      | requiredArgument name =>
          rw [kind] at returned
          exact requiredArgument_quiet prepared returned
      | optionalArgument name value =>
          rw [kind] at visits returned
          exact optionalArgument_quiet prepared (visits value List.mem_cons_self) returned
      | restArgument name =>
          rw [kind] at returned
          exact requiredArgument_quiet prepared returned
      | localAssignment name value =>
          rw [kind] at visits returned
          exact localAssignment_quiet prepared (visits value List.mem_cons_self) returned
      | _ =>
          rw [kind] at learning
          cases learning

/-- A visit among nodes that know their classes learns nothing unless some node
takes a type. -/
theorem node_learnsByTyping
    (declines : setting.expander.Declines)
    (closed : ∀ {id child}, visited id → arena.DependsOn id child → visited child)
    (fuel : Nat) :
    ∀ id, visited id → LearnsByTyping arena visited [id] (node setting fuel id) := by
  induction fuel with
  | zero =>
      intro id _ before answer after _ returned
      cases returned
  | succ fuel visits =>
      intro id inside before answer after prepared returned
      have grows := node_growsWithin declines (fuel + 1) id before prepared.toIntact
      rw [returned] at grows
      refine ⟨prepared.grow grows, ?_, fun _ _ => trivial⟩
      rcases returns_node returned with ⟨ty, _, _, rfl⟩ |
        ⟨expansion, _, _, _, expanded, _, _⟩ |
        ⟨found, inferred, middle, unknown, _, present, typed, kept⟩
      · exact .refl _
      · rw [Facts.expansionOf?, prepared.unexpanded] at expanded
        cases expanded
      · rw [prepared.arena] at present
        cases inferred with
        | some ty =>
            refine { grows.toExtends with unchanged := ?_ }
            intro idle
            obtain ⟨_, rfl⟩ := returns_remember_some.mp kept
            obtain ⟨taken, typed⟩ := Table.contains_eq_true_iff.mp
              (Table.contains_insertIfNew_self middle.facts.nodeTypes id ty)
            obtain ⟨earlier, known⟩ := idle typed
            rw [unknown] at known
            cases known
        | none =>
            obtain ⟨_, rfl⟩ := returns_remember_none.mp kept
            have quiet : before.Quiet middle :=
              rule_quiet declines prepared inside present
                (fun child member => visits child (closed inside ⟨found, present, member⟩))
                typed
            refine { quiet.toExtends.trans (.defer middle id) with unchanged := ?_ }
            intro idle
            exact (quiet.unchanged idle).trans { Session.Alike.refl middle with }

end Infer

end DeferredTyping
