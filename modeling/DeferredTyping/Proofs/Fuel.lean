import DeferredTyping.Proofs.Dependence

/-!
# The fuel of a visit suffices

A visit runs out of fuel only along a path of nodes each of which depends on
the next.  In a tree without cycles such a path holds each node at most once,
so fuel for one level more than there are nodes is never used up.
-/

namespace DeferredTyping

variable {σ : Type}

namespace Infer

/-- While the tree is intact, the step ends with a value or for an accepted
reason. -/
structure StopsBy (arena : Arena) (accepts : Stop → Prop) {α : Type}
    (step : Infer σ α) : Prop where
  grows : GrowsWithin arena (fun _ => True) step
  stops : ∀ {session stop}, session.Intact arena →
    (step.run session).1 = .error stop → accepts stop

variable {setting : Setting σ} {arena : Arena} {accepts : Stop → Prop}

protected theorem StopsBy.bind
    {α β : Type} {step : Infer σ α} {next : α → Infer σ β}
    (first : StopsBy arena accepts step)
    (second : ∀ value, StopsBy arena accepts (next value)) :
    StopsBy arena accepts (step >>= next) where
  grows := first.grows.bind fun value => (second value).grows
  stops {session stop} kept stopped := by
    have grown := first.grows session kept
    have answered := @first.stops session
    rw [run_bind] at stopped
    rcases run : step.run session with ⟨answer, middle⟩
    rw [run] at stopped grown answered
    cases answer with
    | error cause =>
        cases stopped
        exact answered kept rfl
    | ok value => exact (second value).stops (grown.intact kept) stopped

theorem own_stopsBy
    (faults : ∀ stop, stop.isFault = true → accepts stop)
    {α : Type} {step : Infer σ α}
    (own : OwnStep setting step) :
    StopsBy arena accepts step where
  grows := (traversal_growsWithin setting).own own
  stops _ stopped := faults _ (own.answers stopped)

theorem traversal_stopsBy
    (faults : ∀ stop, stop.isFault = true → accepts stop) :
    Traversal setting fun _ step => StopsBy arena accepts step where
  own own := own_stopsBy faults own
  bind first second := first.bind second
  fewer stops _ := stops

theorem remember_stopsBy
    {step : Infer σ (Option Ty)} {session : Session σ} {id : NodeId} {stop : Stop}
    (stops : StopsBy arena accepts step)
    (kept : session.Intact arena)
    (stopped : ((step >>= remember id).run session).1 = .error stop) :
    accepts stop := by
  have answered := @stops.stops session
  rw [run_bind] at stopped
  rcases run : step.run session with ⟨answer, middle⟩
  rw [run] at stopped answered
  cases answer with
  | error cause =>
      cases stopped
      exact answered kept rfl
  | ok value =>
      cases value with
      | none => simp at stopped
      | some ty => simp at stopped

theorem rule_stopsBy
    (declines : setting.expander.Declines)
    (faults : ∀ stop, stop.isFault = true → accepts stop)
    {infer : NodeId → Infer σ (Option Ty)} {id : NodeId} {node : Node}
    (present : arena.find? id = some node)
    (visits : ∀ child ∈ node.kind.dependencies,
      StopsBy arena accepts (infer child)) :
    StopsBy arena accepts (rule setting infer id node) := by
  have traversal : Traversal setting fun _ step => StopsBy arena accepts step :=
    traversal_stopsBy faults
  refine traversal.rule ?_ ?_ visits
  · intro receiver name types
    exact traversal.read (.resolveCall declines id receiver name types)
  · intro list kind
    rw [kind] at visits
    have keeps : ∀ types, StopsBy arena accepts
        (keepArgumentTypes id types : Infer σ (Option (List Ty))) := by
      intro types
      refine ⟨keepArgumentTypes_growsWithin types, ?_⟩
      intro session stop _ stopped
      cases types with
      | none => simp at stopped
      | some types => simp at stopped
    refine ⟨arguments_growsWithin setting present kind
      fun child member => (visits child member).grows, ?_⟩
    intro session stop kept stopped
    rcases run_arguments infer id session with
      ⟨types, _, run⟩ | ⟨cause, _, run⟩ | ⟨other, _, listed, run⟩
    · rw [run] at stopped
      cases stopped
    · rw [run] at stopped
      cases stopped
      exact faults _ rfl
    · rw [Arena.argumentsOf_of_find? (kept.arena ▸ present) kind] at listed
      cases listed
      rw [run] at stopped
      exact (traversal.allKept visits keeps).stops kept stopped

theorem node_stopsBy
    (declines : setting.expander.Declines)
    (faults : ∀ stop, stop.isFault = true → accepts stop)
    {fuel : Nat} {id : NodeId}
    (visits : ∀ found, arena.find? id = some found →
      ∀ child ∈ found.kind.dependencies,
        StopsBy arena accepts (node setting fuel child)) :
    StopsBy arena accepts (node setting (fuel + 1) id) := by
  refine ⟨(node_growsWithin declines (fuel + 1) id).mono fun _ => trivial, ?_⟩
  intro session stop kept stopped
  rcases run_node setting fuel id session with ⟨ty, _, run⟩ |
    ⟨expansion, _, expanded, run⟩ | ⟨cause, _, run⟩ |
    ⟨found, _, _, required, run⟩
  · rw [run] at stopped
    cases stopped
  · rw [Facts.expansionOf?, kept.unexpanded] at expanded
    cases expanded
  · rw [run] at stopped
    cases stopped
    exact faults _ rfl
  · rw [run] at stopped
    have present : arena.find? id = some found :=
      kept.arena ▸ Arena.find?_of_require required
    have stops := rule_stopsBy declines faults present (visits found present)
    exact remember_stopsBy stops kept stopped

/-- The driver gives up, and never a visit. -/
theorem node_never_gives_up
    (declines : setting.expander.Declines)
    (fuel : Nat) :
    ∀ id, StopsBy arena (fun stop => stop.isFault = true ∨ stop = .exhausted)
      (node setting fuel id) := by
  induction fuel with
  | zero =>
      intro id
      refine ⟨(node_growsWithin declines 0 id).mono fun _ => trivial, ?_⟩
      intro session stop _ stopped
      cases stopped
      exact .inr rfl
  | succ fuel visits =>
      intro id
      exact node_stopsBy declines (fun _ => .inl) fun _ _ child _ => visits child

/-- Along a path of nodes that are visited for one another, fuel is left for
every node that is not on it.  In a tree without cycles the path never comes
back, so there is always a level left for the next node. -/
theorem node_stopsBy_fault
    (declines : setting.expander.Declines)
    (acyclic : arena.Acyclic)
    (fuel : Nat) :
    ∀ (id : NodeId) (path : List NodeId), arena.Trail arena.DependsOn path id →
      arena.size < path.length + fuel →
      StopsBy arena (fun stop => stop.isFault = true) (node setting fuel id) := by
  induction fuel with
  | zero =>
      intro id path trail enough
      have fits := trail.length_le
      omega
  | succ fuel visits =>
      intro id path trail enough
      refine node_stopsBy declines (fun _ fault => fault) ?_
      intro found present child member
      have dependence : arena.DependsOn id child := ⟨found, present, member⟩
      apply visits child (id :: path) (trail.cons (acyclic id) present dependence)
      rw [List.length_cons]
      omega

end Infer

open Infer

namespace Typer

variable {typer : Typer σ} {arena : Arena} {accepts : Stop → Prop}

/-- A visit from the driver has a level of fuel for every node and more. -/
theorem infer_stopsBy_fault
    (declines : typer.expander.Declines)
    (acyclic : arena.Acyclic)
    (id : NodeId) :
    StopsBy arena (fun stop => stop.isFault = true) (typer.infer id) where
  grows := (infer_growsWithin declines id).mono fun _ => trivial
  stops {session stop} kept stopped := by
    rw [run_infer] at stopped
    have enough : arena.size < 0 + (typer.nodeBound session + 2) := by
      rw [nodeBound, kept.arena]
      omega
    exact (node_stopsBy_fault declines acyclic _ id [] .nil enough).stops kept stopped

theorem infer_never_gives_up
    (declines : typer.expander.Declines)
    (id : NodeId) :
    StopsBy arena (fun stop => stop.isFault = true ∨ stop = .exhausted)
      (typer.infer id) where
  grows := (infer_growsWithin declines id).mono fun _ => trivial
  stops {session stop} kept stopped := by
    rw [run_infer] at stopped
    exact (node_never_gives_up declines _ id).stops kept stopped

theorem each_stopsBy
    (visits : ∀ id, StopsBy arena accepts (typer.infer id))
    (ids : List NodeId) :
    StopsBy arena accepts (each typer.infer ids) := by
  induction ids with
  | nil => exact ⟨fun session _ => .refl _ session, nofun⟩
  | cons id rest ih => exact (visits id).bind fun _ => ih

theorem pass_stops
    (visits : ∀ id, StopsBy arena accepts (typer.infer id))
    {session after : Session σ} {stop : Stop}
    (kept : session.Intact arena)
    (passed : (pass typer.infer).run session = (.error stop, after)) :
    accepts stop := by
  have started : (passStart session).Intact arena := ⟨kept.arena, kept.unexpanded⟩
  have stops := each_stopsBy visits session.worklist.queue
  rcases run_pass typer.infer session with ⟨other, middle, visited, run⟩ |
    ⟨middle, visited, run⟩
  · rw [run] at passed
    cases passed
    exact stops.stops started (congrArg Prod.fst visited)
  · rw [run] at passed
    cases passed

end Typer

end DeferredTyping
