import DeferredTyping.Proofs.Reachable
import DeferredTyping.Proofs.Reentry

/-!
# What happens to the tree

Most steps of inference leave the tree, the types of its nodes, the expansions and the
expander alone.  Two do not: a node takes its type, and a call is offered to the expander.
Both find the node without a type, and a call that is offered has no expansion yet: no visit
that ends with a value comes back to a node that is being typed.  So a relation between
sessions that these two steps respect holds across every operation, also across those that
fail.
-/

namespace DeferredTyping

variable {σ : Type}

namespace Infer

/-- A relation between sessions that holds when nothing but the tree, its types and its
expansions matters, and that is respected by what happens to them. -/
structure Watches (setting : Setting σ) (relation : Session σ → Session σ → Prop) : Prop where
  trans : ∀ ⦃first second third⦄, relation first second → relation second third →
    relation first third
  calm : ∀ {before after : Session σ}, after.facts.arena = before.facts.arena →
    after.facts.nodeTypes = before.facts.nodeTypes →
    after.facts.expansions = before.facts.expansions →
    after.expanderState = before.expanderState → relation before after
  /-- A node takes its type, an expanded call that of its expansion. -/
  notes : ∀ {session : Session σ} {id ty}, session.facts.nodeType? id = none →
    session.facts.AnswersFor id (some ty) →
      relation session { session with facts := session.facts.setNodeType id ty }
  /-- A call is offered to the expander. -/
  offers : ∀ {session : Session σ} {id receiver answer arena state},
    session.facts.nodeType? id = none → session.facts.expansionOf? id = none →
    setting.expander.expand session.facts.arena id receiver session.expanderState =
      (answer, arena, state) →
      relation session (afterOffer session arena state)
  /-- What the expander answers takes the slot of the call. -/
  splices : ∀ {session : Session σ} {id receiver expansion arena state parent spliced},
    session.facts.nodeType? id = none → session.facts.expansionOf? id = none →
    setting.expander.expand session.facts.arena id receiver session.expanderState =
      (some expansion, arena, state) →
    arena.replaceChild parent id expansion = .ok spliced →
      relation session (afterSplice (afterOffer session arena state) id expansion spliced)

namespace Watches

variable {setting : Setting σ} {relation : Session σ → Session σ → Prop}
  (watches : Watches setting relation)

include watches

theorem refl (session : Session σ) : relation session session :=
  watches.calm rfl rfl rfl rfl

theorem traversal : Traversal setting fun _ step => Relates relation step :=
  .ofRelation watches.trans fun learned =>
    have same := learned.sameNodes
    watches.calm same.arena same.nodeTypes same.expansions rfl

theorem keepArgumentTypes (id : NodeId) (types : Option (List Ty)) :
    Relates relation (keepArgumentTypes id types) := by
  intro session
  cases types with
  | none => exact watches.refl session
  | some types => exact watches.calm rfl rfl rfl rfl

theorem remember {session : Session σ} {id : NodeId} {answer : Option Ty}
    (unknown : session.facts.nodeType? id = none)
    (answered : session.facts.AnswersFor id answer) :
    relation session ((remember id answer).run session).2 := by
  cases answer with
  | none => exact watches.calm rfl rfl rfl rfl
  | some ty => exact watches.notes unknown answered

/-- Looking at the session comes before a step from the same session. -/
theorem read_bind {α β : Type} {step : Infer σ α} {next : α → Infer σ β} {session : Session σ}
    (reads : ReadStep step) (onward : ∀ value, relation session ((next value).run session).2) :
    relation session ((step >>= next).run session).2 := by
  have kept := reads.keeps session
  rw [run_bind]
  rcases run : step.run session with ⟨stop | value, middle⟩
  all_goals
    rw [run] at kept
    obtain rfl : middle = session := kept
  · exact watches.refl middle
  · exact onward value

/-- A step that ends with an answer for a node is followed by a note of it. -/
theorem bind_remember {step : Infer σ (Option Ty)} {session : Session σ} {id : NodeId}
    (related : relation session (step.run session).2)
    (answered : ∀ {answer middle}, Returns step session answer middle →
      middle.facts.nodeType? id = none ∧ middle.facts.AnswersFor id answer) :
    relation session ((step >>= Infer.remember id).run session).2 := by
  rw [run_bind]
  rcases run : step.run session with ⟨stop | answer, middle⟩
  · rwa [run] at related
  · rw [run] at related
    obtain ⟨unknown, answers⟩ := answered run
    exact watches.trans related (watches.remember unknown answers)

section Calls

variable {infer : NodeId → Infer σ (Option Ty)} {session : Session σ} {id : NodeId}
  (visits : ∀ child, Relates relation (infer child))
  (unknown : session.facts.nodeType? id = none)
  (unexpanded : session.facts.expansionOf? id = none)

include visits unknown unexpanded

theorem graft (receiver : Ty) :
    relation session ((graft setting infer id receiver).run session).2 := by
  have grafted := grafted setting infer id receiver session
  generalize (Infer.graft setting infer id receiver).run session = outcome at grafted ⊢
  cases grafted with
  | declined asked | refused asked _ => exact watches.offers unknown unexpanded asked
  | @placed expansion arena state _ spliced asked replaced =>
      exact watches.trans (watches.splices unknown unexpanded asked replaced)
        (visits expansion (afterSplice (afterOffer session arena state) id expansion spliced))

theorem serve (request : Option Request) :
    relation session ((serve setting infer id request).run session).2 := by
  rcases request with _ | ⟨instanceType, types⟩ | ⟨receiver, name, types⟩
  · exact watches.refl session
  · exact watches.traversal.read (.instantiation id instanceType types) session
  · rw [Infer.serve, resolveCall_eq]
    refine watches.read_bind (.locationOf id) fun location =>
      watches.read_bind (.findMethod receiver name types location) fun found => ?_
    cases found with
    | some method => exact watches.refl session
    | none => exact watches.graft visits unknown unexpanded receiver

end Calls

variable (keeps : setting.expander.KeepsNodes)

include keeps

/-- A rule respects the relation where its node has neither a type nor an expansion. -/
theorem rule {fuel : Nat} {id : NodeId} {found : Node} {session : Session σ}
    (visits : ∀ child, Relates relation (node setting fuel child))
    (unknown : session.facts.nodeType? id = none)
    (unexpanded : session.facts.expansionOf? id = none)
    (present : session.facts.arena.find? id = some found) :
    relation session ((rule setting (node setting fuel) id found).run session).2 := by
  have traversal := watches.traversal
  cases isCall : found.kind.isCall with
  | false =>
      have rules : Relates relation (Infer.rule setting (node setting fuel) id found) := by
        refine traversal.toBuilding.ruleByKind ?_ ?_ ?_ fun child _ => visits child
        · intro method _
          exact traversal.methodDefinition fun child _ => visits child
        · intro list _
          exact traversal.arguments visits (watches.keepArgumentTypes id)
        · intro calls
          rw [isCall] at calls
          cases calls
      exact rules session
  | true =>
      have asks : Relates relation (requestOf setting (node setting fuel) id found.kind) :=
        traversal.toOrderly.requestOf isCall fun child _ => visits child
      have asked := asks session
      rw [rule_eq_of_isCall isCall, run_bind]
      rcases run : (requestOf setting (node setting fuel) id found.kind).run session with
        ⟨stop | request, middle⟩
      · rwa [run] at asked
      · rw [run] at asked
        obtain ⟨untyped, unmoved⟩ :=
          untouched_of_requestOf keeps unknown unexpanded present isCall run
        exact watches.trans asked (watches.serve visits untyped unmoved request)

/-- A visit respects the relation, whether it ends with a value or not. -/
theorem node (fuel : Nat) : ∀ id, Relates relation (node setting fuel id) := by
  -- The fuel bounds the depth of the visits; without any, a visit stops where it begins.
  induction fuel with
  | zero => exact fun id session => watches.refl session
  | succ fuel visits =>
      intro id session
      rcases run_node setting fuel id session with ⟨ty, _, run⟩ |
        ⟨expansion, unknown, expanded, run⟩ | ⟨cause, _, run⟩ |
        ⟨found, unknown, unexpanded, required, run⟩
      · exact run ▸ watches.refl session
      · rw [run]
        exact watches.bind_remember (visits expansion session) fun visited =>
          answersFor_of_expansion keeps unknown expanded visited
      · exact run ▸ watches.refl session
      · rw [run]
        have present := Arena.find?_of_require required
        exact watches.bind_remember
          (watches.rule keeps visits unknown unexpanded present) fun ruled =>
          answersFor_of_rule keeps unknown unexpanded present ruled

end Watches

end Infer

open Infer

/-- Every operation respects a relation that a visit respects. -/
theorem Infer.Watches.respects
    {typer : Typer σ} {relation : Session σ → Session σ → Prop}
    (watches : Watches typer.setting relation) (keeps : typer.expander.KeepsNodes) :
    typer.Respects relation where
  trans := watches.trans
  drives _ _ _ _ := watches.calm rfl rfl rfl rfl
  registers session := by
    rcases registers : typer.registerTypes.run session with ⟨answer, after⟩
    obtain ⟨catalog, declaredConstructors, facts, added, rfl, _⟩ :=
      typer.registerTypes_added registers
    have same := Facts.Learned.sameNodes (Facts.Added.learned added)
    exact watches.calm same.arena same.nodeTypes same.expansions rfl
  visits id session := by
    rw [Typer.run_infer]
    exact watches.node keeps _ id session
  keeps := watches.keepArgumentTypes
  adds adds := watches.traversal.own adds.own

end DeferredTyping
