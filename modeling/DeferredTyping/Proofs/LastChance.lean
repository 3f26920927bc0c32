import DeferredTyping.Proofs.Branches
import DeferredTyping.Proofs.Permanence

/-!
# Last chances end with the driver

While a last chance is on, a choice may take the type of its only known branch.  The driver
turns last chances on for the pass after an idle one and off again after a productive one, so
they are off when it ends with a value.  When it gives up or fails they stay as they are, and
the operations that follow are made with them.  As long as every run of the driver has ended
with a value, last chances are off between operations, and a choice takes a type outside of the
driver, or in its first pass, only at a moment when both branches have types.

Nothing is said about the expander, which may rebuild the tree meanwhile.
-/

namespace DeferredTyping

variable {σ : Type}

/-- The operation makes passes. -/
def Operation.drives : Operation → Bool
  | .inferTypes | .resolve => true
  | _ => false

/-- No call has an expansion. -/
def Facts.Unexpanded (facts : Facts) : Prop :=
  ∀ call, facts.expansionOf? call = none

namespace Infer

variable {setting : Setting σ} {id : NodeId} {ty : Ty}

/-- On the way between two sessions a node took its type when its rule ended with it, and the
rule began with the last chance of the first session.  Unless calls are expanded, the rule was
that of the node in the tree of the first session. -/
inductive TakesType (setting : Setting σ) (before : Session σ) (id : NodeId) (ty : Ty)
    (after : Session σ) : Prop where
  | intro {fuel : Nat} {found : Node} {begun moment : Session σ}
      (sameChance : begun.lastChance = before.lastChance)
      (present : begun.facts.arena.find? id = some found)
      (answers : Returns (rule setting (node setting fuel) id found) begun (some ty) moment)
      (later : moment.facts.Extends after.facts)
      (inTree : setting.expander.Declines → after.facts.Unexpanded →
        before.facts.arena.find? id = some found) :
      TakesType setting before id ty after

theorem TakesType.mono
    {before middle after : Session σ}
    (takes : TakesType setting before id ty middle)
    (facts : middle.facts.Extends after.facts)
    (unexpanded : after.facts.Unexpanded → middle.facts.Unexpanded) :
    TakesType setting before id ty after := by
  obtain ⟨sameChance, present, answers, later, inTree⟩ := takes
  exact .intro sameChance present answers (later.trans facts) fun declines none =>
    inTree declines (unexpanded none)

/-- More is known in the second session, and each node that has a type since then took it for
an expansion or by its rule. -/
structure Records (setting : Setting σ) (before after : Session σ) : Prop where
  facts : before.facts.Extends after.facts
  lastChance : after.lastChance = before.lastChance
  passes : after.passes = before.passes
  unexpanded : ∀ {call}, after.facts.expansionOf? call = none →
    before.facts.expansionOf? call = none
  arena : setting.expander.Declines → after.facts.Unexpanded →
    after.facts.arena = before.facts.arena
  taken : ∀ {id ty}, before.facts.nodeType? id = none →
    after.facts.nodeType? id = some ty → after.facts.expansionOf? id = none →
    TakesType setting before id ty after

namespace Records

/-- Neither nodes nor expansions change. -/
theorem ofSameNodes
    {before after : Session σ}
    (same : before.facts.SameNodes after.facts)
    (facts : before.facts.Extends after.facts)
    (lastChance : after.lastChance = before.lastChance)
    (passes : after.passes = before.passes) :
    Records setting before after where
  facts := facts
  lastChance := lastChance
  passes := passes
  unexpanded {call} none := by rwa [Facts.expansionOf?, ← same.expansions]
  arena _ _ := same.arena
  taken {id ty} unknown known _ := by
    rw [Facts.nodeType?, same.nodeTypes] at known
    cases unknown.symm.trans known

theorem refl (session : Session σ) : Records setting session session :=
  .ofSameNodes ⟨rfl, rfl, rfl, rfl⟩ (.refl _) rfl rfl

theorem trans
    {first second third : Session σ}
    (early : Records setting first second) (late : Records setting second third) :
    Records setting first third where
  facts := early.facts.trans late.facts
  lastChance := late.lastChance.trans early.lastChance
  passes := late.passes.trans early.passes
  unexpanded none := early.unexpanded (late.unexpanded none)
  arena declines unexpanded :=
    (late.arena declines unexpanded).trans
      (early.arena declines fun call => late.unexpanded (unexpanded call))
  taken {id ty} unknown known single := by
    -- What has no expansion at the end had none in between, so the tree is the same throughout.
    have backward : third.facts.Unexpanded → second.facts.Unexpanded :=
      fun none call => late.unexpanded (none call)
    cases between : second.facts.nodeType? id with
    | some other =>
        obtain rfl : other = ty :=
          Option.some.inj ((late.facts.nodeTypes between).symm.trans known)
        exact (early.taken unknown between (late.unexpanded single)).mono late.facts backward
    | none =>
        obtain ⟨sameChance, present, answers, later, inTree⟩ := late.taken between known single
        refine .intro (sameChance.trans early.lastChance) present answers later ?_
        intro declines none
        rw [← early.arena declines (backward none)]
        exact inTree declines none

/-- A visit ends by queueing the node or by noting its type, which is accounted for. -/
theorem remember
    {session middle : Session σ} {answer : Option Ty}
    (records : Records setting session middle)
    (own : ∀ {ty}, answer = some ty → middle.facts.expansionOf? id = none →
      TakesType setting session id ty middle) :
    Records setting session ((Infer.remember id answer).run middle).2 := by
  cases answer with
  | none =>
      exact { records with
        taken := fun unknown known single =>
          (records.taken unknown known single).mono (.refl _) fun none => none }
  | some ty =>
      have kept := Facts.extends_setNodeType middle.facts id ty
      refine { records with facts := records.facts.trans kept, taken := ?_ }
      intro other known unknown typed single
      suffices taken : TakesType setting session other known middle from
        taken.mono kept fun none => none
      cases between : middle.facts.nodeType? other with
      | some earlier =>
          obtain rfl : earlier = known :=
            Option.some.inj ((kept.nodeTypes between).symm.trans typed)
          exact records.taken unknown between single
      | none =>
          by_cases here : other = id
          · subst here
            obtain rfl : ty = known :=
              Option.some.inj ((Table.get?_insertIfNew_self between ty).symm.trans typed)
            exact own rfl single
          · have untouched : middle.facts.nodeType? other = some known :=
              (Table.get?_insertIfNew_of_ne _ here ty).symm.trans typed
            cases between.symm.trans untouched

end Records

/-- The step leads to a session in which every new type is accounted for. -/
abbrev Recording (setting : Setting σ) {α : Type} (step : Infer σ α) : Prop :=
  Relates (Records setting) step

theorem traversal_recording (setting : Setting σ) :
    Traversal setting fun _ step => Recording setting step :=
  .ofRelation (fun _ _ _ => Records.trans) fun learned =>
    .ofSameNodes learned.sameNodes learned.extends rfl rfl

theorem offer_recording (id : NodeId) (receiver : Ty) :
    Recording setting (offer setting id receiver) := by
  intro session
  have stays : Records setting session session := .refl session
  refine { stays with
    facts := (offer_extends setting id receiver session).facts, arena := ?_, taken := ?_ }
  · intro declines _
    rw [offer_eq_of_declines declines]
    rfl
  · intro other ty unknown known
    cases unknown.symm.trans known

theorem splice_recording (id expansion : NodeId) :
    Recording setting (splice id expansion : Infer σ Unit) := by
  intro session
  rcases splice_cases id expansion session with ⟨stop, run⟩ | ⟨parent, arena, after, _, run, rfl⟩
  · rw [run]
    exact .refl session
  · rw [run]
    have stays : Records setting session session := .refl session
    refine { stays with
      facts := { Facts.Extends.refl session.facts with }
      unexpanded := ?_, arena := ?_, taken := ?_ }
    · intro call none
      by_cases here : call = id
      · subst here
        cases none.symm.trans (Table.get?_insert_self _ _ _)
      · exact (Table.get?_insert_of_ne _ here _).symm.trans none
    · intro _ none
      cases (none id).symm.trans (Table.get?_insert_self _ _ _)
    · intro other ty unknown known
      cases unknown.symm.trans known

theorem keepArgumentTypes_recording (id : NodeId) (types : Option (List Ty)) :
    Recording setting (keepArgumentTypes id types : Infer σ _) := by
  intro session
  cases types with
  | none => exact .refl session
  | some types =>
      have stays : Records setting session session := .refl session
      refine { stays with
        facts := Facts.extends_setArgumentTypes session.facts id types, taken := ?_ }
      intro other ty unknown known
      cases unknown.symm.trans known

theorem rule_recording
    {infer : NodeId → Infer σ (Option Ty)} (visits : ∀ child, Recording setting (infer child))
    (id : NodeId) (found : Node) :
    Recording setting (rule setting infer id found) := by
  have traversal := traversal_recording setting
  refine traversal.rule ?_ ?_ fun child _ => visits child
  · intro receiver name types
    exact traversal.resolveCall (offer_recording id receiver) (splice_recording id) visits
  · intro list _
    exact traversal.arguments visits (keepArgumentTypes_recording id)

/-- Whatever the expander does, a visit accounts for every type that is noted meanwhile. -/
theorem node_recording (fuel : Nat) : ∀ id, Recording setting (node setting fuel id) := by
  refine node_relates .refl ?_ ?_ fuel
  · intro fuel id expansion session visits expanded
    have records := visits expansion session
    rw [run_bind]
    rcases visited : (node setting fuel expansion).run session with ⟨stop | answer, middle⟩
    · rw [visited] at records
      exact records
    · rw [visited] at records
      refine records.remember fun _ single => ?_
      cases expanded.symm.trans (records.unexpanded single)
  · intro fuel id found session visits _ present
    have records := rule_recording visits id found session
    rw [run_bind]
    rcases ruled : (rule setting (node setting fuel) id found).run session with
      ⟨stop | answer, middle⟩
    · rw [ruled] at records
      exact records
    · rw [ruled] at records
      refine records.remember fun {ty} same _ => ?_
      subst same
      exact .intro rfl present ruled (.refl _) fun _ _ => present

/-- Of the nodes that take a type on the way between two sessions, choices with an alternative
take theirs at a moment when both of their branches have types. -/
def ChoosesKnown (setting : Setting σ) (before after : Session σ) : Prop :=
  ∀ {id ty}, before.facts.nodeType? id = none → after.facts.nodeType? id = some ty →
    after.facts.expansionOf? id = none →
      ∃ found fuel begun moment,
        Returns (rule setting (node setting fuel) id found) begun (some ty) moment ∧
        moment.facts.Extends after.facts ∧
        (setting.expander.Declines → after.facts.Unexpanded →
          before.facts.arena.find? id = some found) ∧
        ∀ {condition thenBody elseBody},
          found.kind = .ifElse condition thenBody (some elseBody) →
            (∃ thenType, moment.facts.optionalType? thenBody = some thenType) ∧
            ∃ elseType, moment.facts.nodeType? elseBody = some elseType

/-- Without a last chance, a choice with an alternative takes a type when both branches have
types. -/
theorem branches_typed_of_rule
    {fuel : Nat} {found : Node} {before after : Session σ}
    {condition elseBody : NodeId} {thenBody : Option NodeId}
    (none_on : before.lastChance = false)
    (kind : found.kind = .ifElse condition thenBody (some elseBody))
    (returned : Returns (rule setting (node setting fuel) id found) before (some ty) after) :
    (∃ thenType, after.facts.optionalType? thenBody = some thenType) ∧
      ∃ elseType, after.facts.nodeType? elseBody = some elseType := by
  unfold rule at returned
  rw [kind] at returned
  obtain ⟨_, decided, thenType, chosen, elseType, decides, visits, alternates, concludes⟩ :=
    returns_ifElse_some returned
  have asked : Records setting before decided := (node_recording fuel condition).returned decides
  have early : Records setting decided chosen :=
    ((traversal_recording setting).optional fun child _ =>
      node_recording fuel child).returned visits
  have late : Records setting chosen after := (node_recording fuel elseBody).returned alternates
  rcases concludes with ⟨known, other, rfl, rfl, _⟩ | ⟨lastChance, _⟩
  · refine ⟨?_, typed_of_node alternates⟩
    cases thenBody with
    | none => exact ⟨.void, rfl⟩
    | some thenBody =>
        obtain ⟨kept, typed⟩ := typed_of_node visits
        exact ⟨kept, late.facts.nodeTypes typed⟩
  · -- The visits of the condition and the branches leave the flag as it was.
    cases (((asked.trans early).trans late).lastChance.trans none_on).symm.trans lastChance

theorem Records.choosesKnown
    {before after : Session σ}
    (records : Records setting before after) (none_on : before.lastChance = false) :
    ChoosesKnown setting before after := by
  intro id ty unknown known single
  obtain ⟨sameChance, _, answers, later, inTree⟩ := records.taken unknown known single
  exact ⟨_, _, _, _, answers, later, inTree, fun kind =>
    branches_typed_of_rule (sameChance.trans none_on) kind answers⟩

end Infer

namespace Typer

open Infer

variable {typer : Typer σ}

section Operations

variable (typer)

theorem infer_recording (id : NodeId) : Recording typer.setting (typer.infer id) := by
  intro session
  rw [run_infer]
  exact node_recording _ id session

theorem each_recording (ids : List NodeId) :
    Recording typer.setting (each typer.infer ids) :=
  (traversal_recording typer.setting).each fun id _ => typer.infer_recording id

theorem registerTypes_recording : Recording typer.setting typer.registerTypes := by
  intro session
  rcases registers : typer.registerTypes.run session with ⟨answer, after⟩
  obtain ⟨catalog, declaredConstructors, facts, added, rfl, _⟩ :=
    typer.registerTypes_added registers
  have learned := Facts.Added.learned added
  exact .ofSameNodes learned.sameNodes learned.extends rfl rfl

/-- Outside of the driver, an operation accounts for every type that is noted meanwhile. -/
theorem perform_records
    (session : Session σ) {operation : Operation} (apart : operation.drives = false) :
    Records typer.setting session (typer.perform session operation) := by
  have traversal := traversal_recording typer.setting
  have adds : ∀ {α : Type} {step : Infer σ α}, AddStep typer.setting step →
      Records typer.setting session (step.run session).2 :=
    fun adds => traversal.own adds.own session
  cases operation with
  | registerTypes => exact typer.registerTypes_recording session
  | inferTypes | resolve => cases apart
  | infer id => exact typer.infer_recording id session
  | inferArguments id =>
      exact traversal.arguments typer.infer_recording (keepArgumentTypes_recording id) session
  | defer id =>
      exact .ofSameNodes ⟨rfl, rfl, rfl, rfl⟩ (.refl _) rfl rfl
  | learnLocalType scope name ty => exact adds (typer.learnLocalType_adds scope name ty)
  | learnMethodType method => exact adds (typer.learnMethodType_adds method)

/-- A pass accounts for every type that is noted meanwhile, and counts itself. -/
theorem pass_records (session : Session σ) :
    Records typer.setting (passStart session) ((pass typer.infer).run session).2 := by
  have visits := typer.each_recording session.worklist.queue (passStart session)
  rcases run_pass typer.infer session with ⟨stop, after, visited, run⟩ | ⟨after, visited, run⟩
  · rw [visited] at visits
    rw [run]
    exact visits
  · rw [visited] at visits
    rw [run]
    exact visits

end Operations

section Driver

/-- An idle pass queues everything again that it visits. -/
theorem pending_of_idle_pass
    {session after : Session σ}
    (pending : session.worklist.isEmpty = false)
    (passed : (pass typer.infer).run session = (.ok false, after)) :
    after.worklist.isEmpty = false := by
  have untyped := pending_untyped_of_pass passed
  obtain ⟨id, member⟩ := List.exists_mem_of_ne_nil session.worklist.queue
    (List.isEmpty_eq_false_iff.mp pending)
  rcases run_pass typer.infer session with ⟨_, _, _, run⟩ | ⟨other, visited, run⟩
  · rw [run] at passed
    cases passed
  · obtain rfl : other = after := congrArg Prod.snd (run.symm.trans passed)
    have consistent : (passStart session).worklist.Consistent := fun _ => Iff.rfl
    rcases settled_of_returns_each consistent visited id member with typed | queued
    · cases (untyped id member).symm.trans (Table.contains_eq_true_iff.mpr typed)
    · exact List.isEmpty_eq_false_iff.mpr (List.ne_nil_of_mem queued)

/-- When the driver ends with a value, last chances are off, unless it had nothing to do. -/
theorem resolveWithin_turns_off
    (fuel : Nat) {session after : Session σ}
    (returned : Returns (typer.resolveWithin fuel) session () after) :
    after.lastChance = false ∨ session.worklist.isEmpty = true ∧ after = session := by
  induction fuel generalizing session with
  | zero => cases returned
  | succ fuel ih =>
      rw [Returns] at returned
      have turn := typer.turn fuel session
      generalize (typer.resolveWithin (fuel + 1)).run session = outcome at turn returned
      cases turn with
      | done empty =>
          cases returned
          exact .inr ⟨empty, rfl⟩
      | limited _ _ | stopped _ _ | stuck _ _ _ => cases returned
      | productive _ _ =>
          rcases ih returned with off | ⟨_, rfl⟩
          · exact .inl off
          · exact .inl rfl
      | lastChance pending passed _ =>
          rcases ih returned with off | ⟨empty, _⟩
          · exact .inl off
          · -- After an idle pass the driver has work left, so the pass with last chances is made.
            cases (pending_of_idle_pass pending passed).symm.trans empty

theorem resolve_turns_off
    {session after : Session σ} (returned : Returns typer.resolve session () after) :
    after.lastChance = false ∨ after = session := by
  rw [Returns, run_resolve] at returned
  exact (resolveWithin_turns_off _ returned).imp_right And.right

/-- An operation that ends with a value turns last chances off, or makes no pass and leaves
them as they are. -/
theorem perform_turns_off
    {session : Session σ} {operation : Operation}
    (ends : typer.stop? session operation = none) :
    (typer.perform session operation).lastChance = false ∨
      (typer.perform session operation).lastChance = session.lastChance ∧
        (typer.perform session operation).passes = session.passes := by
  cases drives : operation.drives with
  | false =>
      have records := typer.perform_records session drives
      exact .inr ⟨records.lastChance, records.passes⟩
  | true =>
      cases operation with
      | inferTypes =>
          obtain ⟨_, returned⟩ := Infer.returns_of_stop?_eq_none ends
          obtain ⟨registered, visited, registers, roots, resolves⟩ :=
            (returns_inferTypes typer).mp returned
          have records := (typer.registerTypes_recording.returned registers).trans
            ((typer.each_recording _).returned roots)
          rcases resolve_turns_off resolves with off | same
          · exact .inl off
          · exact .inr ⟨(congrArg Session.lastChance same).trans records.lastChance,
              (congrArg Session.passes same).trans records.passes⟩
      | resolve =>
          obtain ⟨_, returned⟩ := Infer.returns_of_stop?_eq_none ends
          rcases resolve_turns_off returned with off | same
          · exact .inl off
          · exact .inr ⟨congrArg Session.lastChance same, congrArg Session.passes same⟩
      | _ => cases drives

end Driver

/-- The sessions that are reached without a run of the driver that failed or gave up, or with
one that ended with a value and made a pass since. -/
inductive Calm (typer : Typer σ) (arena : Arena) (catalog : Catalog) (state : σ) :
    Session σ → Prop where
  | start : Calm typer arena catalog state (start arena catalog state)
  | apart {session : Session σ} (calm : Calm typer arena catalog state session)
      {operation : Operation} (apart : operation.drives = false) :
      Calm typer arena catalog state (typer.perform session operation)
  | ends {session : Session σ} (calm : Calm typer arena catalog state session)
      {operation : Operation} (ends : typer.stop? session operation = none) :
      Calm typer arena catalog state (typer.perform session operation)
  | passes {session : Session σ} (reached : typer.Reachable arena catalog state session)
      {operation : Operation} (ends : typer.stop? session operation = none)
      (passes : (typer.perform session operation).passes ≠ session.passes) :
      Calm typer arena catalog state (typer.perform session operation)

theorem Calm.lastChance_eq_false
    {arena : Arena} {catalog : Catalog} {state : σ} {session : Session σ}
    (calm : typer.Calm arena catalog state session) :
    session.lastChance = false := by
  induction calm with
  | start => rfl
  | apart _ apart off => exact (typer.perform_records _ apart).lastChance.trans off
  | ends _ ends off =>
      rcases perform_turns_off ends with turned | ⟨same, _⟩
      · exact turned
      · exact same.trans off
  | passes _ ends passes =>
      rcases perform_turns_off ends with turned | ⟨_, same⟩
      · exact turned
      · exact absurd same passes

/-- As long as no run of the driver failed or gave up, and also after one that made a pass and
ended with a value, last chances are off.  Then neither an operation outside of the driver nor
the first pass of the driver gives a choice with an alternative a type while only one of its
branches has one. -/
theorem lastChance_stays_with_the_driver
    {arena : Arena} {catalog : Catalog} {state : σ} {session : Session σ}
    (calm : typer.Calm arena catalog state session) :
    session.lastChance = false ∧
      (∀ {operation : Operation}, operation.drives = false →
        ChoosesKnown typer.setting session (typer.perform session operation)) ∧
      ∀ {begun}, begun = session ∨ Returns typer.visitRoots session () begun →
        begun.lastChance = false ∧
        ChoosesKnown typer.setting begun ((pass typer.infer).run begun).2 := by
  have off := calm.lastChance_eq_false
  refine ⟨off, fun apart => (typer.perform_records session apart).choosesKnown off, ?_⟩
  intro begun starts
  have still : begun.lastChance = false := by
    rcases starts with rfl | visits
    · exact off
    · obtain ⟨registered, registers, roots⟩ := returns_visitRoots visits
      have records := (typer.registerTypes_recording.returned registers).trans
        ((typer.each_recording _).returned roots)
      exact records.lastChance.trans off
  exact ⟨still, (typer.pass_records begun).choosesKnown still⟩

/-- A choice between a local and a call, neither of which is known to the script. -/
def openChoice : Arena where
  nodes := ⟨[
    (1, { id := 1, parent := none, location := {}, kind := .script "" (some 2) }),
    (2, { id := 2, parent := some 1, location := {}, kind := .body [3] }),
    (3, { id := 3, parent := some 2, location := {}, kind := .ifElse 4 (some 5) (some 6) }),
    (4, { id := 4, parent := some 3, location := {}, kind := .boolean true }),
    (5, { id := 5, parent := some 3, location := {}, kind := .localRead "x" }),
    (6, { id := 6, parent := some 3, location := {}, kind := .functionalCall "g" [] none })]⟩
  nextId := 7

/-- The local and the method are learned from outside, and nothing was driven. -/
def supplied : Session Unit :=
  plain.perform (plain.perform (start openChoice .builtin ()) (.learnLocalType 1 "x" .int))
    (.learnMethodType {
      definingClass := (Ty.object "Script").toMeta, name := "g", parameters := []
      returnType := .int })

theorem lastChance_stays_with_the_driver_of_supplied :
    plain.Calm openChoice .builtin () supplied ∧ supplied.lastChance = false ∧
      supplied.facts.nodeType? 3 = none ∧
      (plain.perform supplied (.infer 3)).facts.nodeType? 3 = some .int ∧
      ∃ moment : Session Unit,
        moment.facts.Extends (plain.perform supplied (.infer 3)).facts ∧
        (∃ ty, moment.facts.nodeType? 5 = some ty) ∧
        ∃ ty, moment.facts.nodeType? 6 = some ty := by
  have calm : plain.Calm openChoice .builtin () supplied :=
    .apart (.apart .start rfl) rfl
  have unknown : supplied.facts.nodeType? 3 = none := by decide +kernel
  have known : (plain.perform supplied (.infer 3)).facts.nodeType? 3 = some .int := by
    decide +kernel
  have tree : (plain.perform supplied (.infer 3)).facts.Unexpanded := by
    intro call
    have none : (plain.perform supplied (.infer 3)).facts.expansions = {} := by decide +kernel
    rw [Facts.expansionOf?, none]
    rfl
  have present : supplied.facts.arena.find? 3 = some {
      id := 3, parent := some 2, location := {}, kind := .ifElse 4 (some 5) (some 6) } := by
    decide +kernel
  obtain ⟨off, apart, _⟩ := lastChance_stays_with_the_driver calm
  obtain ⟨found, _, _, moment, _, later, inTree, branches⟩ :=
    apart (rfl : (Operation.infer 3).drives = false) unknown known (tree 3)
  cases (inTree plain_declines tree).symm.trans present
  obtain ⟨thenTyped, elseTyped⟩ := branches rfl
  exact ⟨calm, off, unknown, known, moment, later, thenTyped, elseTyped⟩

/-- The script is driven until the driver gives up, and then its local is learned from
outside. -/
def givenUp : Session Unit :=
  plain.perform (plain.perform (start openChoice .builtin ()) .inferTypes)
    (.learnLocalType 1 "x" .int)

/-- After the driver gave up, a visit from outside gives the choice the type of its only known
branch, and so does the first pass of the next run. -/
theorem lastChance_outlasts_the_driver :
    plain.Reachable openChoice .builtin () givenUp ∧ givenUp.lastChance = true ∧
      givenUp.facts.arena.find? 3 = some {
        id := 3, parent := some 2, location := {}, kind := .ifElse 4 (some 5) (some 6) } ∧
      givenUp.facts.nodeType? 3 = none ∧
      (plain.perform givenUp (.infer 3)).facts.nodeType? 3 = some .int ∧
      (plain.perform givenUp (.infer 3)).facts.nodeType? 6 = none ∧
      ((pass plain.infer).run givenUp).2.facts.nodeType? 3 = some .int ∧
      ((pass plain.infer).run givenUp).2.facts.nodeType? 6 = none := by
  refine ⟨(Reachable.start.step .inferTypes).step (.learnLocalType 1 "x" .int), ?_⟩
  decide +kernel

end Typer

end DeferredTyping
