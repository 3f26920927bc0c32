import DeferredTyping.Proofs.Outlines
import DeferredTyping.Tree.Draft

/-!
# The order of drafts

The order in which the nodes of a draft get their ids is told from the draft alone: a node
before its children, and these in the order of their slots.  So are the ids of the children,
which lie as far apart as their own subtrees are large, and the position that is in force when
an id is handed out, which is the one that was set last.
-/

namespace DeferredTyping

variable {α ρ : Type}

namespace Kind

/-- The arguments of a delegation that is split off already. -/
def detached : Kind α → List α
  | .methodDefinition method => method.thisArgs.getD [] ++ method.superArgs.getD []
  | _ => []

/-- The kind of a delegation call. -/
def delegates : Kind α → Bool
  | .functionalCall name _ _ => name == "initialize"
  | .superCall _ => true
  | _ => false

theorem sizeOf_lt_of_mem_children [SizeOf α] {kind : Kind α} {child : α}
    (member : child ∈ kind.children) : sizeOf child < sizeOf kind := by
  have inList : ∀ {slots : List α}, child ∈ slots → sizeOf child < sizeOf slots :=
    List.sizeOf_lt_of_mem
  have inOption : ∀ {slot : Option α}, child ∈ slot.toList → sizeOf child < sizeOf slot := by
    rintro (_ | held) present <;> simp_all
  cases kind with
  | methodDefinition method =>
      obtain ⟨name, kind, declared, arguments, body, thisArgs, superArgs⟩ := method
      simp only [methodDefinition.sizeOf_spec, Method.mk.sizeOf_spec]
      rcases List.mem_cons.mp member with rfl | held
      · omega
      · have smaller := inOption held
        dsimp only at smaller
        omega
  | arguments list =>
      obtain ⟨required, optional, rest, block⟩ := list
      simp only [children, List.mem_append] at member
      simp only [arguments.sizeOf_spec, ArgumentList.mk.sizeOf_spec]
      rcases member with ((held | held) | held) | held
      · have := inList held; omega
      · have := inList held; omega
      · have := inOption held; omega
      · have := inOption held; omega
  | script _ content | classDefinition _ _ _ content | interfaceDeclaration _ _ content
  | returning content =>
      have := inOption member
      simp; omega
  | body statements | superCall statements =>
      have smaller : sizeOf child < sizeOf statements := inList member
      simp; omega
  | optionalArgument _ value | localAssignment _ value | raise value =>
      obtain rfl := List.mem_singleton.mp member
      simp only [optionalArgument.sizeOf_spec, localAssignment.sizeOf_spec, raise.sizeOf_spec]
      omega
  | block parameters content =>
      rcases List.mem_cons.mp member with rfl | held
      · simp; omega
      · have := inOption held
        simp; omega
  | functionalCall name parameters closure =>
      rcases List.mem_append.mp member with held | held
      · have := inList held
        simp; omega
      · have := inOption held
        simp; omega
  | call target name parameters closure =>
      simp only [children, List.mem_cons, List.mem_append] at member
      rcases member with rfl | held | held
      · simp; omega
      · have := inList held
        simp; omega
      · have := inOption held
        simp; omega
  | ifElse condition thenBody elseBody =>
      simp only [children, List.mem_cons, List.mem_append] at member
      rcases member with rfl | held | held
      · simp; omega
      · have := inOption held
        simp; omega
      · have := inOption held
        simp; omega
  | requiredArgument _ | restArgument _ | blockArgument _ | noop | fixnum _ | float _ | str _
  | boolean _ | null | selfRef | localRead _ | constant _ => cases member

theorem delegates_outline {β : Type} (view : α → β) (kind : Kind α) :
    (kind.outline view).delegates = kind.delegates := by
  cases kind <;> rfl

theorem delegates_eq_of_outline {β : Type} {left : Kind α} {right : Kind β}
    (outline : left.outline (fun _ => ()) = right.outline fun _ => ()) :
    left.delegates = right.delegates := by
  rw [← left.delegates_outline fun _ => (), outline, delegates_outline]

theorem eq_body_of_outline {β : Type} {view : α → β} {kind : Kind α}
    {slots : List (Option β)} (outline : kind.outline view = .body slots) :
    ∃ statements, kind = .body statements := by
  cases kind <;> first | exact ⟨_, rfl⟩ | cases outline

theorem eq_methodDefinition_of_outline {β : Type} {view : α → β} {kind : Kind α}
    {shown : Method (Option β)} (outline : kind.outline view = .methodDefinition shown) :
    ∃ method, kind = .methodDefinition method := by
  cases kind <;> first | exact ⟨_, rfl⟩ | cases outline

end Kind

theorem Delegation.ofKind?_eq_none_iff {kind : Kind NodeId} :
    ofKind? kind = none ↔ kind.delegates = false := by
  cases kind <;> simp [ofKind?, Kind.delegates]

namespace Draft

/-- The position that is set before the draft is built. -/
def mark : Draft ρ → Option (Nat × Nat)
  | .ref _ => none
  | .node position _ _ => position

/-- The draft builds a delegation call. -/
def delegates : Draft ρ → Bool
  | .ref _ => false
  | .node _ _ kind => kind.delegates

/-- The leading statement of a body: the first of its statements, or the body itself when it is
no list of statements. -/
def leading? : Draft ρ → Option (Draft ρ)
  | .node _ _ (.body []) => none
  | .node _ _ (.body (first :: _)) => some first
  | draft => some draft

/-- A constructor whose body starts with no delegation call. -/
def StartsPlainly : Kind (Draft ρ) → Prop
  | .methodDefinition method => method.isConstructor = true ∧
      ∀ body, method.body = some body → ∀ first, body.leading? = some first →
        first.delegates = false
  | _ => False

/-- Everything that the draft builds is in a child slot of its parent, and there is no
delegation to split off. -/
inductive Plain : Draft ρ → Prop where
  | node {position : Option (Nat × Nat)} {splits : Bool} {kind : Kind (Draft ρ)}
      (children : ∀ child ∈ kind.children, Plain child) (attached : kind.detached = [])
      (start : splits = true → StartsPlainly kind) :
      Plain (.node position splits kind)

/-- The drafts of the nodes that are built, a node before its children and these in the order
of their slots. -/
def preorder : Draft ρ → List (Draft ρ)
  | .ref _ => []
  | .node position splits kind =>
      .node position splits kind ::
        kind.children.attach.flatMap fun child => preorder child.1
termination_by draft => sizeOf draft
decreasing_by
  have smaller := Kind.sizeOf_lt_of_mem_children child.2
  simp only [node.sizeOf_spec]
  omega

theorem preorder_node (position : Option (Nat × Nat)) (splits : Bool) (kind : Kind (Draft ρ)) :
    (node position splits kind).preorder =
      node position splits kind :: kind.children.flatMap preorder := by
  rw [preorder]
  simp

theorem flatMap_preorder_node
    (position : Option (Nat × Nat)) (splits : Bool) (kind : Kind (Draft ρ)) :
    [node position splits kind].flatMap preorder =
      node position splits kind :: kind.children.flatMap preorder := by
  rw [List.flatMap_singleton, preorder_node]

/-- The ids of the roots of drafts that are built one after another. -/
def firstIds : NodeId → List (Draft ρ) → List NodeId
  | _, [] => []
  | first, draft :: rest => first :: firstIds (first + draft.preorder.length) rest

/-- The position that is in force after these drafts. -/
def inForce (place : Nat × Nat) (drafts : List (Draft ρ)) : Nat × Nat :=
  drafts.foldl (fun place draft => draft.mark.getD place) place

theorem firstIds_append (first : NodeId) (early late : List (Draft ρ)) :
    firstIds first (early ++ late) = firstIds first early ++
      firstIds (first + (early.flatMap preorder).length) late := by
  induction early generalizing first with
  | nil => rfl
  | cons draft rest ih =>
      simp only [List.cons_append, firstIds, ih, List.flatMap_cons, List.length_append,
        Nat.add_assoc]

theorem inForce_append (place : Nat × Nat) (early late : List (Draft ρ)) :
    inForce place (early ++ late) = inForce (inForce place early) late :=
  List.foldl_append

theorem plain_node_iff {position : Option (Nat × Nat)} {splits : Bool} {kind : Kind (Draft ρ)} :
    (node position splits kind).Plain ↔
      (∀ child ∈ kind.children, child.Plain) ∧ kind.detached = [] ∧
        (splits = true → StartsPlainly kind) :=
  ⟨fun ⟨children, attached, start⟩ => ⟨children, attached, start⟩,
    fun ⟨children, attached, start⟩ => .node children attached start⟩

theorem Plain.exists_node {draft : Draft ρ} (plain : draft.Plain) :
    ∃ position splits kind, draft = .node position splits kind ∧
      ∀ child ∈ kind.children, child.Plain := by
  cases plain with
  | node children attached start => exact ⟨_, _, _, rfl, children⟩

/-- What is built is a node. -/
theorem Plain.exists_node_of_mem_preorder {draft built : Draft ρ} (plain : draft.Plain)
    (member : built ∈ draft.preorder) :
    ∃ position splits kind, built = .node position splits kind := by
  induction plain with
  | @node position splits kind children attached start ih =>
      rw [preorder_node] at member
      rcases List.mem_cons.mp member with rfl | below
      · exact ⟨position, splits, kind, rfl⟩
      · obtain ⟨child, inside, within⟩ := List.mem_flatMap.mp below
        exact ih child inside within

end Draft

end DeferredTyping
