import DeferredTyping.Proofs.Fuel
import DeferredTyping.Proofs.Reachable

/-!
# The driver terminates

A pass that types a node makes progress.  A pass that types nothing may still
look productive, because a node on the worklist was typed before the pass came
to it; but such a pass leaves no stale entry behind, and after it only the
last chance can bring one more pass.  The budget of a session counts both:
three passes for every node without a type, and at most three more.
-/

namespace DeferredTyping

variable {σ : Type}

/-- The nodes of the tree that have no type. -/
def Facts.untyped (facts : Facts) : List NodeId :=
  facts.arena.nodes.keys.filter fun id => !facts.nodeTypes.contains id

namespace Session

/-- A deferred node has a type already. -/
def isStale (session : Session σ) : Bool :=
  session.worklist.queue.any fun id => session.facts.nodeTypes.contains id

/-- How many passes in a row may type nothing. -/
def idlePasses (config : Config) (session : Session σ) : Nat :=
  if session.isStale then 3
  else if config.lastChance && !session.lastChance then 2
  else 1

/-- A bound on the passes that resolving makes. -/
def budget (config : Config) (session : Session σ) : Nat :=
  3 * session.facts.untyped.length + session.idlePasses config

variable (config : Config) (session : Session σ)

theorem idlePasses_pos : 1 ≤ session.idlePasses config := by
  unfold idlePasses
  split
  · omega
  · split <;> omega

theorem idlePasses_le : session.idlePasses config ≤ 3 := by
  unfold idlePasses
  split
  · omega
  · split <;> omega

theorem budget_le (arena : Arena) (kept : session.Intact arena) :
    session.budget config ≤ 3 * (arena.size + 1) := by
  have idle := session.idlePasses_le config
  have untyped : session.facts.untyped.length ≤ arena.size := by
    have within : session.facts.untyped.length ≤
        session.facts.arena.nodes.keys.length :=
      List.length_filter_le _ _
    rw [kept.arena] at within
    rwa [Table.keys, List.length_map] at within
  unfold budget
  omega

variable {config session}

theorem idlePasses_of_fresh
    (fresh : session.isStale = false) :
    session.idlePasses config = if config.lastChance && !session.lastChance then 2 else 1 := by
  simp [idlePasses, fresh]

end Session

namespace Session.GrowsWithin

variable {allowed : NodeId → Prop} {before after : Session σ}

theorem untyped_eq_filter
    (grows : before.GrowsWithin allowed after) :
    after.facts.untyped =
      before.facts.untyped.filter fun id => !after.facts.nodeTypes.contains id := by
  unfold Facts.untyped
  rw [grows.arena, List.filter_filter]
  apply List.filter_congr
  intro id _
  cases known : before.facts.nodeType? id with
  | none =>
      have absent : before.facts.nodeTypes.get? id = none := known
      simp [Table.contains, absent]
  | some ty =>
      have present : after.facts.nodeTypes.get? id = some ty :=
        grows.facts.nodeTypes known
      simp [Table.contains, present]

theorem untyped_length_le
    (grows : before.GrowsWithin allowed after) :
    after.facts.untyped.length ≤ before.facts.untyped.length := by
  rw [grows.untyped_eq_filter]
  exact List.length_filter_le _ _

/-- A node that takes its type is one node less. -/
theorem untyped_length_lt
    (grows : before.GrowsWithin allowed after)
    {id : NodeId} {ty : Ty}
    (unknown : before.facts.nodeType? id = none)
    (known : after.facts.nodeType? id = some ty) :
    after.facts.untyped.length < before.facts.untyped.length := by
  rw [grows.untyped_eq_filter]
  apply List.length_filter_lt_length_iff_exists.mpr
  refine ⟨id, ?_, ?_⟩
  · rcases grows.typed known with earlier | ⟨_, _, node, present⟩
    · rw [unknown] at earlier
      cases earlier
    · have absent : before.facts.nodeTypes.get? id = none := unknown
      have stored : id ∈ before.facts.arena.nodes.keys :=
        Table.mem_keys_of_get?_eq_some present
      simp [Facts.untyped, stored, Table.contains, absent]
  · have present : after.facts.nodeTypes.get? id = some ty := known
    simp [Table.contains, present]

end Session.GrowsWithin

open Infer

/-- What a pass leaves behind: a node less without a type, or neither a new
type nor a stale entry. -/
theorem untyped_length_lt_or_settled
    {allowed : NodeId → Prop} {session after : Session σ}
    (grows : (passStart session).GrowsWithin allowed after) :
    after.facts.untyped.length < session.facts.untyped.length ∨
      (∀ id, after.facts.nodeTypes.contains id = true →
        session.facts.nodeTypes.contains id = true) ∧
      after.isStale = false := by
  by_cases settled : ∀ id, after.facts.nodeTypes.contains id = true →
      session.facts.nodeTypes.contains id = true
  · refine .inr ⟨settled, ?_⟩
    rw [Session.isStale, List.any_eq_false]
    intro id member typed
    rcases grows.queued member with early | ⟨unknown, _⟩
    · cases early
    · have known := settled id typed
      have absent : session.facts.nodeTypes.get? id = none := unknown
      rw [Table.contains, absent] at known
      cases known
  · left
    simp only [not_forall] at settled
    obtain ⟨id, typed, untyped⟩ := settled
    obtain ⟨ty, known⟩ := Table.contains_eq_true_iff.mp typed
    have unknown : session.facts.nodeTypes.get? id = none := by
      simpa [Table.contains] using untyped
    exact grows.untyped_length_lt unknown known

namespace Typer

variable {typer : Typer σ} {arena : Arena}

theorem passes_of_pass
    (declines : typer.expander.Declines)
    {session after : Session σ} {answer : Except Stop Bool}
    (kept : session.Intact arena)
    (passed : (pass typer.infer).run session = (answer, after)) :
    after.passes = session.passes + 1 :=
  (pass_growsWithin declines kept passed).passes

/-- A productive pass uses up budget, the last chance given back included. -/
theorem budget_lt_of_productive
    (declines : typer.expander.Declines)
    {session after : Session σ}
    (kept : session.Intact arena)
    (passed : (pass typer.infer).run session = (.ok true, after)) :
    { after with lastChance := false : Session σ }.budget typer.config <
      session.budget typer.config := by
  have grows := pass_growsWithin declines kept passed
  have fewer : after.facts.untyped.length ≤ session.facts.untyped.length :=
    grows.untyped_length_le
  have positive := session.idlePasses_pos typer.config
  have bounded := { after with lastChance := false : Session σ }.idlePasses_le typer.config
  unfold Session.budget
  rcases untyped_length_lt_or_settled grows with less | ⟨settled, fresh⟩
  · dsimp only
    omega
  · obtain ⟨id, member, typed⟩ := pending_typed_of_pass passed
    have stale : session.isStale = true :=
      List.any_eq_true.mpr ⟨id, member, settled id typed⟩
    have idle : session.idlePasses typer.config = 3 := by
      simp [Session.idlePasses, stale]
    have later : { after with lastChance := false : Session σ }.idlePasses
        typer.config ≤ 2 := by
      rw [Session.idlePasses_of_fresh (by exact fresh)]
      split <;> omega
    dsimp only
    omega

/-- An idle pass uses up budget when the last chance was still left. -/
theorem budget_lt_of_lastChance
    (declines : typer.expander.Declines)
    {session after : Session σ}
    (kept : session.Intact arena)
    (passed : (pass typer.infer).run session = (.ok false, after))
    (left : (typer.config.lastChance && !after.lastChance) = true) :
    { after with lastChance := true : Session σ }.budget typer.config <
      session.budget typer.config := by
  have grows := pass_growsWithin declines kept passed
  have fewer : after.facts.untyped.length ≤ session.facts.untyped.length :=
    grows.untyped_length_le
  have current : session.isStale = false := by
    rw [Session.isStale, List.any_eq_false]
    intro id member typed
    obtain ⟨ty, known⟩ := Table.contains_eq_true_iff.mp typed
    have later : after.facts.nodeTypes.get? id = some ty :=
      grows.facts.nodeTypes known
    have absent := pending_untyped_of_pass passed id member
    rw [Table.contains, later] at absent
    cases absent
  have unused : session.lastChance = after.lastChance := grows.lastChance.symm
  have idle : session.idlePasses typer.config = 2 := by
    rw [Session.idlePasses_of_fresh current, unused, left]
    rfl
  have bounded := { after with lastChance := true : Session σ }.idlePasses_le typer.config
  unfold Session.budget
  rcases untyped_length_lt_or_settled grows with less | ⟨_, fresh⟩
  · dsimp only
    omega
  · have later : { after with lastChance := true : Session σ }.idlePasses
        typer.config = 1 := by
      rw [Session.idlePasses_of_fresh (by exact fresh)]
      simp
    dsimp only
    omega

/-- Within its budget the driver comes to an end: with everything typed, with
an error of the program, or giving up. -/
theorem resolveWithin_bounded
    (declines : typer.expander.Declines)
    (acyclic : arena.Acyclic)
    (fuel : Nat) :
    ∀ session : Session σ, session.Intact arena →
      session.budget typer.config < fuel →
      ((typer.resolveWithin fuel).run session).1 ≠ .error .exhausted ∧
        ((typer.resolveWithin fuel).run session).2.passes ≤
          session.passes + session.budget typer.config := by
  induction fuel with
  | zero =>
      intro session _ enough
      omega
  | succ fuel ih =>
      intro session kept enough
      have turn := typer.turn fuel session
      generalize (typer.resolveWithin (fuel + 1)).run session = outcome at turn ⊢
      cases turn with
      | done _ => exact ⟨nofun, Nat.le_add_right _ _⟩
      | limited _ _ => exact ⟨nofun, Nat.le_add_right _ _⟩
      | @stopped stop after _ passed =>
          have counted := passes_of_pass declines kept passed
          have positive : 1 ≤ session.idlePasses typer.config :=
            session.idlePasses_pos typer.config
          refine ⟨?_, ?_⟩
          · rintro ⟨⟩
            cases pass_stops (infer_stopsBy_fault declines acyclic) kept passed
          · unfold Session.budget
            dsimp only
            omega
      | @productive after _ passed =>
          have counted := passes_of_pass declines kept passed
          have less := budget_lt_of_productive declines kept passed
          have remains := pass_keepsTree declines session kept
          rw [passed] at remains
          obtain ⟨answered, bounded⟩ := ih { after with lastChance := false }
            ⟨remains.arena, remains.unexpanded⟩ (by omega)
          refine ⟨answered, Nat.le_trans bounded ?_⟩
          dsimp only
          omega
      | @lastChance after _ passed left =>
          have counted := passes_of_pass declines kept passed
          have less := budget_lt_of_lastChance declines kept passed left
          have remains := pass_keepsTree declines session kept
          rw [passed] at remains
          obtain ⟨answered, bounded⟩ := ih { after with lastChance := true }
            ⟨remains.arena, remains.unexpanded⟩ (by omega)
          refine ⟨answered, Nat.le_trans bounded ?_⟩
          dsimp only
          omega
      | @stuck after _ passed _ =>
          have counted := passes_of_pass declines kept passed
          have positive : 1 ≤ session.idlePasses typer.config :=
            session.idlePasses_pos typer.config
          refine ⟨nofun, ?_⟩
          unfold Session.budget
          dsimp only
          omega

theorem resolve_bounded
    (declines : typer.expander.Declines)
    (acyclic : arena.Acyclic)
    {session : Session σ}
    (kept : session.Intact arena) :
    (typer.resolve.run session).1 ≠ .error .exhausted ∧
      (typer.resolve.run session).2.passes ≤
        session.passes + 3 * (arena.size + 1) := by
  have bounded := session.budget_le typer.config arena kept
  have enough : session.budget typer.config <
      3 * (typer.nodeBound session + 1) + 2 := by
    rw [nodeBound, kept.arena]
    omega
  rw [run_resolve]
  obtain ⟨answered, counted⟩ :=
    resolveWithin_bounded declines acyclic _ session kept enough
  exact ⟨answered, by omega⟩

theorem inferTypes_bounded
    (declines : typer.expander.Declines)
    (acyclic : arena.Acyclic)
    {session : Session σ}
    (kept : session.Intact arena) :
    (typer.inferTypes.run session).1 ≠ .error .exhausted ∧
      (typer.inferTypes.run session).2.passes ≤
        session.passes + 3 * (arena.size + 1) := by
  have registersTree : (typer.registerTypes.run session).2.Intact arena :=
    registerTypes_keepsTree session kept
  rcases run_inferTypes typer session with ⟨stop, after, registers, run⟩ |
    ⟨registered, registers, roots⟩
  · obtain ⟨_, _, _, _, rfl, faults⟩ := typer.registerTypes_added registers
    rw [run]
    refine ⟨?_, Nat.le_add_right _ _⟩
    rintro ⟨⟩
    cases faults _ rfl
  · rw [registers] at registersTree
    have counted : registered.passes = session.passes := by
      obtain ⟨_, _, _, _, rfl, _⟩ := typer.registerTypes_added registers
      rfl
    let ids := registered.facts.arena.roots.map Node.id
    have grows := each_growsWithin declines ids registered registersTree
    rcases roots with ⟨stop, after, visits, run⟩ | ⟨visited, visits, run⟩
    · rw [visits] at grows
      rw [run]
      refine ⟨?_, ?_⟩
      · rintro ⟨⟩
        have stops := each_stopsBy (infer_stopsBy_fault declines acyclic) ids
        cases stops.stops registersTree (congrArg Prod.fst visits)
      · have same : after.passes = registered.passes := grows.passes
        dsimp only
        omega
    · rw [visits] at grows
      rw [run]
      have same : visited.passes = registered.passes := grows.passes
      obtain ⟨answered, bounded⟩ := resolve_bounded declines acyclic
        (grows.intact registersTree)
      dsimp only at bounded
      exact ⟨answered, by omega⟩

/-- A script that calls a method before it defines it. -/
def earlyCall : Arena where
  nodes := ⟨[
    (1, { id := 1, parent := none, location := {}, kind := .script "" (some 2) }),
    (2, { id := 2, parent := some 1, location := {}, kind := .body [3, 4] }),
    (3, { id := 3, parent := some 2, location := {},
          kind := .functionalCall "answer" [] none }),
    (4, { id := 4, parent := some 2, location := {},
          kind := .methodDefinition { name := "answer", arguments := 5, body := some 6 } }),
    (5, { id := 5, parent := some 4, location := {}, kind := .arguments {} }),
    (6, { id := 6, parent := some 4, location := {}, kind := .fixnum 42 })]⟩
  nextId := 7

example : (plain.inferTypes.run (start earlyCall {} ())).2.passes = 1 := by
  decide

end Typer

end DeferredTyping
