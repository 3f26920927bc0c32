import DeferredTyping.Proofs.Driver
import DeferredTyping.Proofs.Extension

/-!
# What a visit reaches

A node depends on the nodes that its rule visits.  Without macros the tree
never changes, and a visit touches nothing but the nodes at or below the one
that is visited: those take types, and those without a type are deferred.
-/

namespace DeferredTyping

variable {σ : Type}

/-- The expander declines every call and leaves the tree alone. -/
def Expander.Declines (expander : Expander σ) : Prop :=
  ∀ arena id receiver state,
    expander.expand arena id receiver state = (none, arena, state)

theorem Expander.declines_declining : Expander.declining.Declines :=
  fun _ _ _ _ => rfl

/-- The typer that is used by default, without macros. -/
def Typer.plain : Typer Unit where
  expander := .declining

theorem Typer.plain_declines : Typer.plain.expander.Declines :=
  Expander.declines_declining

open Infer

theorem Infer.offer_eq_of_declines
    {setting : Setting σ} (declines : setting.expander.Declines)
    (id : NodeId) (receiver : Ty) :
    offer setting id receiver = pure none := by
  apply eq_of_run_eq
  intro session
  simp [offer, run_bind, run_map, declines session.facts.arena]

theorem ReadStep.resolveCall
    {setting : Setting σ} {infer : NodeId → Infer σ (Option Ty)}
    (declines : setting.expander.Declines)
    (id : NodeId) (receiver : Ty) (name : String) (types : List Ty) :
    ReadStep (resolveCall setting infer id receiver name types) := by
  refine (ReadStep.locationOf id).bind fun location =>
    (ReadStep.findMethod _ _ _ _).bind fun found => ?_
  cases found with
  | some method => exact .pure _
  | none =>
      rw [offer_eq_of_declines declines]
      simp only [pure_bind]
      exact .pure _

/-- The session still has this tree, and no call was expanded. -/
structure Session.Intact (arena : Arena) (session : Session σ) : Prop where
  arena : session.facts.arena = arena
  unexpanded : session.facts.expansions = {}

/-- A session that knows more, in which nothing but the allowed nodes was
touched.  A node that was queued had no type before. -/
structure Session.GrowsWithin (allowed : NodeId → Prop)
    (before after : Session σ) : Prop extends before.Extends after where
  arena : after.facts.arena = before.facts.arena
  expansions : after.facts.expansions = before.facts.expansions
  typed : ∀ {id ty}, after.facts.nodeType? id = some ty →
    before.facts.nodeType? id = some ty ∨
      before.facts.nodeType? id = none ∧ allowed id ∧
        ∃ node, before.facts.arena.find? id = some node
  queued : ∀ {id}, id ∈ after.worklist.queue → id ∈ before.worklist.queue ∨
    before.facts.nodeType? id = none ∧ allowed id

namespace Session.GrowsWithin

theorem refl (allowed : NodeId → Prop) (session : Session σ) :
    session.GrowsWithin allowed session where
  toExtends := .refl session
  arena := rfl
  expansions := rfl
  typed known := .inl known
  queued member := .inl member

theorem trans
    {allowed : NodeId → Prop} {first second third : Session σ}
    (early : first.GrowsWithin allowed second)
    (late : second.GrowsWithin allowed third) :
    first.GrowsWithin allowed third where
  toExtends := early.toExtends.trans late.toExtends
  arena := late.arena.trans early.arena
  expansions := late.expansions.trans early.expansions
  typed {id ty} known := by
    rcases late.typed known with before | ⟨unknown, inside, node, present⟩
    · exact early.typed before
    · exact .inr ⟨early.facts.nodeType?_eq_none unknown, inside, node, early.arena ▸ present⟩
  queued {id} member := by
    rcases late.queued member with before | ⟨unknown, inside⟩
    · exact early.queued before
    · exact .inr ⟨early.facts.nodeType?_eq_none unknown, inside⟩

theorem intact
    {allowed : NodeId → Prop} {before after : Session σ} {arena : Arena}
    (grows : before.GrowsWithin allowed after)
    (kept : before.Intact arena) :
    after.Intact arena where
  arena := grows.arena.trans kept.arena
  unexpanded := grows.expansions.trans kept.unexpanded

theorem mono
    {allowed wider : NodeId → Prop} {before after : Session σ}
    (grows : before.GrowsWithin allowed after)
    (included : ∀ {id}, allowed id → wider id) :
    before.GrowsWithin wider after :=
  { grows with
    typed := fun known =>
      (grows.typed known).imp_right fun ⟨unknown, inside, present⟩ =>
        ⟨unknown, included inside, present⟩
    queued := fun member =>
      (grows.queued member).imp_right fun ⟨unknown, inside⟩ =>
        ⟨unknown, included inside⟩ }

theorem learned
    {allowed : NodeId → Prop} {session : Session σ} {scriptClass : String}
    {facts : Facts}
    (learned : Facts.Learned scriptClass session.catalog session.facts facts) :
    session.GrowsWithin allowed { session with facts } := by
  have same := learned.sameNodes
  constructor
  · exact .ofFacts learned.extends
  · exact same.arena
  · exact same.expansions
  · intro id ty known
    exact .inl (same.nodeType?_eq ▸ known)
  · intro id member
    exact .inl member

/-- The node that is visited takes its type, or is queued for want of one. -/
theorem remember
    {allowed wider : NodeId → Prop} {before middle : Session σ}
    {id : NodeId} {node : Node}
    (grows : before.GrowsWithin allowed middle)
    (included : ∀ {id}, allowed id → wider id)
    (inside : wider id)
    (unknown : before.facts.nodeType? id = none)
    (present : before.facts.arena.find? id = some node)
    (answer : Option Ty) :
    before.GrowsWithin wider ((Infer.remember id answer).run middle).2 := by
  have wide := grows.mono included
  cases answer with
  | some ty =>
      refine { wide with
        toExtends := grows.toExtends.trans (.ofFacts (Facts.extends_setNodeType _ id ty))
        typed := ?_ }
      intro other found known
      by_cases same : other = id
      · subst same
        exact .inr ⟨unknown, inside, node, present⟩
      · apply wide.typed
        rw [← known]
        exact (Table.get?_insertIfNew_of_ne _ same ty).symm
  | none =>
      refine { wide with
        toExtends := grows.toExtends.trans (.defer middle id)
        queued := ?_ }
      intro other member
      rcases Worklist.mem_queue_of_mem_push member with earlier | rfl
      · exact wide.queued earlier
      · exact .inr ⟨unknown, inside⟩

end Session.GrowsWithin

namespace Infer

/-- While the tree is intact, a step touches the allowed nodes at most. -/
def GrowsWithin (arena : Arena) (allowed : NodeId → Prop) {α : Type}
    (step : Infer σ α) : Prop :=
  Relates (fun before after =>
    before.Intact arena → before.GrowsWithin allowed after) step

variable {setting : Setting σ} {arena : Arena} {allowed wider : NodeId → Prop}

theorem GrowsWithin.mono
    {α : Type} {step : Infer σ α}
    (grows : GrowsWithin arena allowed step)
    (included : ∀ {id}, allowed id → wider id) :
    GrowsWithin arena wider step :=
  fun session kept => (grows session kept).mono included

protected theorem GrowsWithin.bind
    {α β : Type} {step : Infer σ α} {next : α → Infer σ β}
    (first : GrowsWithin arena allowed step)
    (second : ∀ value, GrowsWithin arena allowed (next value)) :
    GrowsWithin arena allowed (step >>= next) := by
  refine Relates.bind first ?_ second
  intro first second third early late kept
  have begun := early kept
  exact begun.trans (late (begun.intact kept))

theorem traversal_growsWithin (setting : Setting σ) :
    Traversal setting fun _ step => GrowsWithin arena allowed step where
  own own session _ := by
    obtain ⟨facts, learned, ended⟩ := own.learns session
    rw [ended]
    exact .learned learned
  bind first second := first.bind second
  fewer grows _ := grows

theorem keepArgumentTypes_growsWithin
    {id : NodeId} (types : Option (List Ty)) :
    GrowsWithin arena allowed (keepArgumentTypes id types : Infer σ _) := by
  intro session _
  cases types with
  | none => exact .refl _ session
  | some types =>
      exact { Session.GrowsWithin.refl allowed session with
        toExtends := .ofFacts (Facts.extends_setArgumentTypes _ id types) }

theorem arguments_growsWithin
    (setting : Setting σ)
    {infer : NodeId → Infer σ (Option Ty)} {id : NodeId} {node : Node}
    {list : ArgumentList NodeId}
    (present : arena.find? id = some node)
    (kind : node.kind = .arguments list)
    (visits : ∀ child ∈ list.typed, GrowsWithin arena allowed (infer child)) :
    GrowsWithin arena allowed (arguments infer id) := by
  intro session kept
  have found := Arena.argumentsOf_of_find? (kept.arena ▸ present) kind
  rcases run_arguments infer id session with
    ⟨types, _, run⟩ | ⟨cause, refused, run⟩ | ⟨other, _, listed, run⟩
  · rw [run]
    exact .refl _ session
  · rw [found] at refused
    cases refused
  · rw [found] at listed
    cases listed
    rw [run]
    have traversal : Traversal setting fun _ step => GrowsWithin arena allowed step :=
      traversal_growsWithin setting
    exact traversal.allKept visits keepArgumentTypes_growsWithin session kept

theorem remember_growsWithin
    {step : Infer σ (Option Ty)} {session : Session σ} {id : NodeId} {node : Node}
    (grows : GrowsWithin arena allowed step)
    (included : ∀ {id}, allowed id → wider id)
    (inside : wider id)
    (kept : session.Intact arena)
    (unknown : session.facts.nodeType? id = none)
    (present : session.facts.arena.find? id = some node) :
    session.GrowsWithin wider ((step >>= remember id).run session).2 := by
  have begun := grows session kept
  rw [run_bind]
  rcases run : step.run session with ⟨answer, middle⟩
  rw [run] at begun
  cases answer with
  | error stop => exact begun.mono included
  | ok answer => exact begun.remember included inside unknown present answer

theorem rule_growsWithin
    (declines : setting.expander.Declines)
    {infer : NodeId → Infer σ (Option Ty)} {id : NodeId} {node : Node}
    (present : arena.find? id = some node)
    (visits : ∀ child ∈ node.kind.dependencies,
      GrowsWithin arena allowed (infer child)) :
    GrowsWithin arena allowed (rule setting infer id node) := by
  have traversal : Traversal setting fun _ step => GrowsWithin arena allowed step :=
    traversal_growsWithin setting
  refine traversal.rule ?_ ?_ visits
  · intro receiver name types
    exact traversal.read (.resolveCall declines id receiver name types)
  · intro list kind
    rw [kind] at visits
    exact arguments_growsWithin setting present kind visits

/-- A visit touches nothing but nodes at or below the one visited. -/
theorem node_growsWithin
    (declines : setting.expander.Declines)
    (fuel : Nat) :
    ∀ id, GrowsWithin arena (arena.Below id) (node setting fuel id) := by
  induction fuel with
  | zero =>
      intro id session _
      exact .refl _ session
  | succ fuel visits =>
      intro id session kept
      rcases run_node setting fuel id session with ⟨ty, _, run⟩ |
        ⟨expansion, _, expanded, run⟩ | ⟨cause, _, run⟩ |
        ⟨found, unknown, _, required, run⟩
      · rw [run]
        exact .refl _ session
      · rw [Facts.expansionOf?, kept.unexpanded] at expanded
        cases expanded
      · rw [run]
        exact .refl _ session
      · rw [run]
        have present := Arena.find?_of_require required
        have there : arena.find? id = some found := kept.arena ▸ present
        have inner : GrowsWithin arena (Relation.TransGen arena.DependsOn id)
            (rule setting (node setting fuel) id found) := by
          apply rule_growsWithin declines there
          intro child member
          have dependence : arena.DependsOn id child := ⟨found, there, member⟩
          exact (visits child).mono fun below => .head' dependence below
        exact remember_growsWithin inner (fun below => below.to_reflTransGen)
          .refl kept unknown present

/-- Where no call was expanded, a visit keeps what rules keep together with the note of their
answers. -/
theorem node_upholds
    {invariant : Session σ → Prop} {accepts : Stop → Prop}
    (intact : ∀ {session}, invariant session → session.Intact arena)
    (exhausted : accepts .exhausted)
    (broken : ∀ {cause}, (TypeError.broken cause).isOrdinary = true →
      accepts (.failed (.broken cause)))
    (rules : ∀ {fuel id found session},
      (∀ child, Upholds invariant accepts (node setting fuel child)) →
      invariant session → session.facts.nodeType? id = none → arena.find? id = some found →
        UpholdsFrom session invariant accepts
          (rule setting (node setting fuel) id found >>= remember id))
    (fuel : Nat) :
    ∀ id, Upholds invariant accepts (node setting fuel id) := by
  induction fuel with
  | zero => exact fun id session holds => UpholdsFrom.of_stop rfl holds exhausted
  | succ fuel visits =>
      intro id session holds
      have kept := intact holds
      rcases run_node setting fuel id session with ⟨ty, _, run⟩ |
        ⟨expansion, _, expanded, _⟩ | ⟨cause, missing, run⟩ | ⟨found, unknown, _, required, run⟩
      · exact UpholdsFrom.of_run run holds
      · rw [Facts.expansionOf?, kept.unexpanded] at expanded
        cases expanded
      · exact UpholdsFrom.of_stop run holds
          (broken (session.facts.arena.require_blamesTree id missing))
      · rw [run]
        exact rules visits holds unknown (kept.arena ▸ Arena.find?_of_require required)

end Infer

namespace Typer

theorem infer_extends (typer : Typer σ) (id : NodeId) :
    Relates Session.Extends (typer.infer id) := by
  intro session
  rw [run_infer]
  exact node_extends typer.setting _ id session

variable {typer : Typer σ} {arena : Arena}

theorem infer_growsWithin
    (declines : typer.expander.Declines)
    (id : NodeId) :
    Infer.GrowsWithin arena (arena.Below id) (typer.infer id) := by
  intro session kept
  rw [run_infer]
  exact node_growsWithin declines _ id session kept

theorem each_growsWithin
    (declines : typer.expander.Declines)
    (ids : List NodeId) :
    Infer.GrowsWithin arena (fun id => ∃ top ∈ ids, arena.Below top id)
      (each typer.infer ids) := by
  apply (traversal_growsWithin typer.setting).each
  intro id member
  exact (infer_growsWithin declines id).mono fun below => ⟨id, member, below⟩

/-- What a pass adds lies below the nodes that were deferred. -/
theorem pass_growsWithin
    (declines : typer.expander.Declines)
    {session after : Session σ} {answer : Except Stop Bool}
    (kept : session.Intact arena)
    (passed : (pass typer.infer).run session = (answer, after)) :
    (passStart session).GrowsWithin
      (fun id => ∃ top ∈ session.worklist.queue, arena.Below top id) after := by
  have started : (passStart session).Intact arena := ⟨kept.arena, kept.unexpanded⟩
  have grows := each_growsWithin declines session.worklist.queue _ started
  rcases run_pass typer.infer session with ⟨stop, other, visited, run⟩ |
    ⟨other, visited, run⟩
  · rw [visited] at grows
    rw [run] at passed
    cases passed
    exact grows
  · rw [visited] at grows
    rw [run] at passed
    cases passed
    exact grows

end Typer

end DeferredTyping
