import DeferredTyping.Proofs.Traversal

/-!
# Runs of the driver

The driver registers the declarations of the tree, visits the roots and then
repeats passes over the deferred nodes.  Each of these is described by what
its run amounts to; the proofs about whole runs start from here.
-/

namespace DeferredTyping

variable {σ : Type}

/-- The catalogue with the classes and interfaces that a tree declares. -/
def Arena.declare (tree : Arena) (catalog : Catalog) : Catalog :=
  (tree.nodes.values.filterMap Infer.declarationOf?).foldl Catalog.define catalog

namespace Infer

theorem run_declareTypes (session : Session σ) :
    (declareTypes : Infer σ Unit).run session =
      (.ok (), { session with catalog := session.facts.arena.declare session.catalog }) :=
  rfl

theorem run_declareConstructors
    (setting : Setting σ) (methods : List (NodeId × Method NodeId))
    (session : Session σ) :
    ∃ declaredConstructors,
      ((declareConstructors setting methods).run session).2 =
        { session with declaredConstructors } ∧
      ∀ stop, ((declareConstructors setting methods).run session).1 = .error stop →
        stop.isOrdinary = true ∧ stop.isClash = false := by
  induction methods generalizing session with
  | nil =>
      refine ⟨session.declaredConstructors, rfl, ?_⟩
      intro stop stopped
      cases stopped
  | cons entry rest ih =>
      obtain ⟨id, method⟩ := entry
      cases constructor : method.isConstructor with
      | false =>
          have run : (declareConstructors setting ((id, method) :: rest)).run session =
              (declareConstructors setting rest).run session := by
            simp [declareConstructors, constructor]
          rw [run]
          exact ih session
      | true =>
          cases stands :
              session.facts.arena.lexicalClass setting.scriptClass id with
          | error cause =>
              have run : (declareConstructors setting ((id, method) :: rest)).run session =
                  (.error (.failed (.broken cause)), session) := by
                simp [declareConstructors, run_bind, constructor, stands]
              rw [run]
              refine ⟨session.declaredConstructors, rfl, ?_⟩
              rintro stop ⟨⟩
              exact ⟨session.facts.arena.lexicalClass_blamesTree _ id stands, rfl⟩
          | ok lexical =>
              have run : (declareConstructors setting ((id, method) :: rest)).run session =
                  (declareConstructors setting rest).run { session with
                    declaredConstructors :=
                      session.declaredConstructors.insert lexical } := by
                simp [declareConstructors, run_bind, constructor, stands]
              rw [run]
              exact ih _

theorem declareSignatures_adds
    {setting : Setting σ} (methods : List (NodeId × Method NodeId)) :
    AddStep setting (declareSignatures setting methods) := by
  induction methods with
  | nil => exact AddStep.pure ()
  | cons entry rest ih => exact (AddStep.signatureOf _ _).bind fun _ => ih

/-- The types of the tree are declared first, which does not fail. -/
theorem run_registerTypes_declared
    (setting : Setting σ) (session : Session σ) :
    (registerTypes setting).run session =
      (do
        declareConstructors setting session.facts.arena.methods
        declareSignatures setting session.facts.arena.methods : Infer σ Unit).run
        { session with catalog := session.facts.arena.declare session.catalog } := by
  rw [registerTypes, run_bind, run_declareTypes]
  rfl

/-- Registering the declarations adds what the signatures say and touches
nothing that visits leave behind. -/
theorem run_registerTypes
    (setting : Setting σ) (session : Session σ) :
    ∃ catalog declaredConstructors facts,
      Facts.Added setting.scriptClass catalog session.facts facts ∧
      ((registerTypes setting).run session).2 =
        { session with catalog, declaredConstructors, facts } ∧
      ∀ stop, ((registerTypes setting).run session).1 = .error stop →
        stop.isFault = true := by
  rw [run_registerTypes_declared, run_bind]
  obtain ⟨declaredConstructors, ended, faults⟩ :=
    run_declareConstructors setting session.facts.arena.methods
      { session with catalog := session.facts.arena.declare session.catalog }
  rcases constructors :
      (declareConstructors setting session.facts.arena.methods).run
        { session with catalog := session.facts.arena.declare session.catalog }
    with ⟨answer, middle⟩
  rw [constructors] at ended faults
  cases ended
  cases answer with
  | error stop =>
      refine ⟨_, declaredConstructors, session.facts, .refl, rfl, ?_⟩
      rintro other ⟨⟩
      exact Stop.isFault_of_isOrdinary (faults stop rfl).1
  | ok value =>
      have adds : AddStep setting
          (declareSignatures setting session.facts.arena.methods) :=
        declareSignatures_adds _
      obtain ⟨facts, added, finished⟩ := adds.learns
        { session with
          catalog := session.facts.arena.declare session.catalog, declaredConstructors }
      exact ⟨_, declaredConstructors, facts, added, finished,
        fun _ => adds.own.answers⟩

/-- Once the types of the tree and its constructors are declared, signatures
are resolved. -/
theorem returns_registerTypes
    {setting : Setting σ} {before after : Session σ}
    (returned : Returns (registerTypes setting) before () after) :
    ∃ declaredConstructors,
      Returns (declareSignatures setting before.facts.arena.methods)
        { before with
          catalog := before.facts.arena.declare before.catalog
          declaredConstructors } () after := by
  rw [Returns, run_registerTypes_declared] at returned
  obtain ⟨_, constructed, constructors, resolves⟩ := returns_bind.mp returned
  obtain ⟨declaredConstructors, ended, _⟩ := run_declareConstructors setting _ _
  rw [constructors] at ended
  cases ended
  exact ⟨declaredConstructors, resolves⟩

/-- The session in which the deferred nodes are visited. -/
def passStart (session : Session σ) : Session σ :=
  { session with worklist := {}, passes := session.passes + 1 }

/-- A pass visits the deferred nodes and looks whether one of them has a type
then. -/
theorem run_pass
    (infer : NodeId → Infer σ (Option Ty)) (session : Session σ) :
    (∃ stop after,
      (each infer session.worklist.queue).run (passStart session) =
        (.error stop, after) ∧
      (pass infer).run session = (.error stop, after)) ∨
    (∃ after,
      (each infer session.worklist.queue).run (passStart session) =
        (.ok (), after) ∧
      (pass infer).run session =
        (.ok (session.worklist.queue.any fun id =>
          after.facts.nodeTypes.contains id), after)) := by
  have begun : (startPass : Infer σ (List NodeId)).run session =
      (.ok session.worklist.queue, passStart session) := rfl
  rcases visited : (each infer session.worklist.queue).run (passStart session) with
    ⟨answer, after⟩
  cases answer with
  | error stop =>
      refine .inl ⟨stop, after, rfl, ?_⟩
      rw [pass, run_bind, begun]
      exact run_bind_of_error visited
  | ok value =>
      refine .inr ⟨after, rfl, ?_⟩
      rw [pass, run_bind, begun]
      dsimp only
      rw [run_bind, visited]
      rfl

end Infer

namespace Typer

open Infer

variable (typer : Typer σ)

theorem run_infer (id : NodeId) (session : Session σ) :
    (typer.infer id).run session =
      (node typer.setting (typer.nodeBound session + 2) id).run session := by
  rw [infer, run_bind, run_get]

theorem learnLocalType_adds (scope : NodeId) (name : String) (ty : Ty) :
    AddStep typer.setting (learnLocalType scope name ty) :=
  AddStep.after (.locationOf scope) fun location => .learnLocal scope name ty location

theorem learnMethodType_adds (method : MethodType) :
    AddStep typer.setting (learnMethodType method) :=
  .learnMethod method {}

theorem pending_typed_of_pass
    {typer : Typer σ} {session after : Session σ}
    (passed : (pass typer.infer).run session = (.ok true, after)) :
    ∃ id ∈ session.worklist.queue, after.facts.nodeTypes.contains id = true := by
  rcases run_pass typer.infer session with ⟨_, _, _, run⟩ | ⟨other, _, run⟩
  · rw [run] at passed
    cases passed
  · rw [run, Prod.mk.injEq, Except.ok.injEq] at passed
    obtain ⟨productive, rfl⟩ := passed
    exact List.any_eq_true.mp productive

theorem pending_untyped_of_pass
    {typer : Typer σ} {session after : Session σ}
    (passed : (pass typer.infer).run session = (.ok false, after)) :
    ∀ id ∈ session.worklist.queue, after.facts.nodeTypes.contains id = false := by
  rcases run_pass typer.infer session with ⟨_, _, _, run⟩ | ⟨other, _, run⟩
  · rw [run] at passed
    cases passed
  · rw [run, Prod.mk.injEq, Except.ok.injEq] at passed
    obtain ⟨idle, rfl⟩ := passed
    intro id member
    simpa using List.any_eq_false.mp idle id member

theorem registerTypes_added
    {session after : Session σ} {answer : Except Stop Unit}
    (registers : typer.registerTypes.run session = (answer, after)) :
    ∃ catalog declaredConstructors facts,
      Facts.Added typer.setting.scriptClass catalog session.facts facts ∧
      after = { session with catalog, declaredConstructors, facts } ∧
      ∀ stop, answer = .error stop → stop.isFault = true := by
  have run := run_registerTypes typer.setting session
  rw [registerTypes] at registers
  rw [registers] at run
  exact run

theorem run_resolve (session : Session σ) :
    typer.resolve.run session =
      (typer.resolveWithin (3 * (typer.nodeBound session + 1) + 2)).run session := by
  rw [resolve, run_bind, run_get]

/-- Typing a whole arena succeeds when its three stages do. -/
theorem returns_inferTypes {before after : Session σ} :
    Returns typer.inferTypes before () after ↔
      ∃ registered visited,
        Returns typer.registerTypes before () registered ∧
        Returns (each typer.infer (registered.facts.arena.roots.map Node.id)) registered ()
          visited ∧
        Returns typer.resolve visited () after := by
  constructor
  · intro success
    obtain ⟨_, registered, registers, visited⟩ := returns_bind.mp success
    obtain ⟨_, _, read, visits⟩ := returns_bind.mp visited
    obtain ⟨rfl, rfl⟩ := returns_getArena.mp read
    obtain ⟨_, visited, roots, resolves⟩ := returns_bind.mp visits
    exact ⟨registered, visited, registers, roots, resolves⟩
  · rintro ⟨registered, visited, registers, roots, resolves⟩
    exact returns_bind.mpr ⟨(), registered, registers, returns_bind.mpr
      ⟨_, registered, returns_getArena.mpr ⟨rfl, rfl⟩, returns_bind.mpr
        ⟨(), visited, roots, resolves⟩⟩⟩

/-- Registering the declarations, visiting the roots and resolving what was
deferred; the first that does not end with a value ends the run. -/
theorem run_inferTypes (session : Session σ) :
    (∃ stop after, typer.registerTypes.run session = (.error stop, after) ∧
      typer.inferTypes.run session = (.error stop, after)) ∨
    (∃ registered, typer.registerTypes.run session = (.ok (), registered) ∧
      ((∃ stop after,
        (each typer.infer (registered.facts.arena.roots.map Node.id)).run registered =
          (.error stop, after) ∧
        typer.inferTypes.run session = (.error stop, after)) ∨
      (∃ visited,
        (each typer.infer (registered.facts.arena.roots.map Node.id)).run registered =
          (.ok (), visited) ∧
        typer.inferTypes.run session = typer.resolve.run visited))) := by
  rcases registers : typer.registerTypes.run session with ⟨answer, registered⟩
  cases answer with
  | error stop => exact .inl ⟨stop, registered, rfl, run_bind_of_error registers⟩
  | ok value =>
      refine .inr ⟨registered, rfl, ?_⟩
      have run : typer.inferTypes.run session =
          (do
            each typer.infer (registered.facts.arena.roots.map Node.id)
            typer.resolve : Infer σ Unit).run registered := by
        rw [inferTypes, run_bind, registers]
        rfl
      rw [run]
      rcases visits :
          (each typer.infer (registered.facts.arena.roots.map Node.id)).run registered
        with ⟨answer, visited⟩
      cases answer with
      | error stop => exact .inl ⟨stop, visited, rfl, run_bind_of_error visits⟩
      | ok value => exact .inr ⟨visited, rfl, run_bind_of_returns visits⟩

/-- A turn of the driver: nothing is deferred, the passes are used up, or a
pass is made.  After the pass the driver goes on without a last chance or
with one, or gives up. -/
inductive Turn (fuel : Nat) (session : Session σ) :
    Except Stop Unit × Session σ → Prop where
  | done (empty : session.worklist.isEmpty = true) :
      Turn fuel session (.ok (), session)
  | limited {limit : Nat} (pending : session.worklist.isEmpty = false)
      (bound : typer.config.maxPasses = some limit) :
      Turn fuel session (.error (.failed (.passLimitExceeded limit)), session)
  | stopped {stop : Stop} {after : Session σ}
      (pending : session.worklist.isEmpty = false)
      (passed : (pass typer.infer).run session = (.error stop, after)) :
      Turn fuel session (.error stop, after)
  | productive {after : Session σ}
      (pending : session.worklist.isEmpty = false)
      (passed : (pass typer.infer).run session = (.ok true, after)) :
      Turn fuel session
        ((typer.resolveWithin fuel).run { after with lastChance := false })
  | lastChance {after : Session σ}
      (pending : session.worklist.isEmpty = false)
      (passed : (pass typer.infer).run session = (.ok false, after))
      (left : (typer.config.lastChance && !after.lastChance) = true) :
      Turn fuel session
        ((typer.resolveWithin fuel).run { after with lastChance := true })
  | stuck {after : Session σ}
      (pending : session.worklist.isEmpty = false)
      (passed : (pass typer.infer).run session = (.ok false, after))
      (none_left : (typer.config.lastChance && !after.lastChance) = false) :
      Turn fuel session (.error (.failed (cannotInfer after)), after)

private theorem turn_of_pass {fuel : Nat} {session : Session σ}
    (pending : session.worklist.isEmpty = false) :
    typer.Turn fuel session
      ((do
        if ← pass typer.infer then
          modify fun session => { session with lastChance := false }
          typer.resolveWithin fuel
        else if typer.config.lastChance && !(← get).lastChance then
          modify fun session => { session with lastChance := true }
          typer.resolveWithin fuel
        else
          fail (cannotInfer (← get)) : Infer σ Unit).run session) := by
  rw [run_bind]
  rcases passed : (pass typer.infer).run session with ⟨answer, after⟩
  cases answer with
  | error stop => exact .stopped pending passed
  | ok productive =>
      cases productive with
      | true => exact .productive pending passed
      | false =>
          cases left : typer.config.lastChance && !after.lastChance with
          | true =>
              simp only [Bool.false_eq_true, if_false, run_bind, run_get, left, if_true]
              exact .lastChance pending passed left
          | false =>
              simp only [Bool.false_eq_true, if_false, run_bind, run_get, left]
              exact .stuck pending passed left

theorem turn (fuel : Nat) (session : Session σ) :
    typer.Turn fuel session ((typer.resolveWithin (fuel + 1)).run session) := by
  unfold resolveWithin
  rw [run_bind, run_get]
  dsimp only
  cases empty : session.worklist.isEmpty with
  | true => exact .done empty
  | false =>
      simp only [Bool.false_eq_true, if_false]
      cases bound : typer.config.maxPasses with
      | none => exact typer.turn_of_pass empty
      | some limit =>
          dsimp only
          split
          · exact .limited empty bound
          · exact typer.turn_of_pass empty

end Typer

end DeferredTyping
