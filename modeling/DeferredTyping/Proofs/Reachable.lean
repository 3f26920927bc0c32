import DeferredTyping.Proofs.Dependence

/-!
# Reachable sessions

A session is reached by any sequence of operations on a typer, those that
fail included.  Without macros none of them touches the tree.
-/

namespace DeferredTyping

variable {σ : Type}

/-- What can be asked of a typer. -/
inductive Operation where
  | registerTypes
  | inferTypes
  | resolve
  | infer (id : NodeId)
  | inferArguments (id : NodeId)
  | defer (id : NodeId)
  | learnLocalType (scope : NodeId) (name : String) (ty : Ty)
  | learnMethodType (method : MethodType)
deriving DecidableEq, Repr

namespace Typer

variable (typer : Typer σ)

/-- The session that an operation leaves behind, whether it fails or not. -/
def perform (session : Session σ) : Operation → Session σ
  | .registerTypes => (typer.registerTypes.run session).2
  | .inferTypes => (typer.inferTypes.run session).2
  | .resolve => (typer.resolve.run session).2
  | .infer id => ((typer.infer id).run session).2
  | .inferArguments id => ((typer.inferArguments id).run session).2
  | .defer id => ((Infer.defer id).run session).2
  | .learnLocalType scope name ty => ((learnLocalType scope name ty).run session).2
  | .learnMethodType method => ((learnMethodType method).run session).2

/-- The sessions that are reached from a fresh one. -/
inductive Reachable (arena : Arena) (catalog : Catalog) (state : σ) :
    Session σ → Prop where
  | start : Reachable arena catalog state (start arena catalog state)
  | step {session : Session σ} (reached : Reachable arena catalog state session)
      (operation : Operation) :
      Reachable arena catalog state (typer.perform session operation)

/-- The sessions that operations lead to from a given one. -/
inductive Continues (first : Session σ) : Session σ → Prop where
  | refl : Continues first first
  | step {session : Session σ} (continues : Continues first session)
      (operation : Operation) : Continues first (typer.perform session operation)

theorem Continues.trans
    {typer : Typer σ} {first second third : Session σ} (early : typer.Continues first second)
    (late : typer.Continues second third) :
    typer.Continues first third := by
  induction late with
  | refl => exact early
  | step _ operation ih => exact ih.step operation

end Typer

open Infer

/-- Why a run of the step ends without a value. -/
def Infer.stop? {α : Type} (step : Infer σ α) (session : Session σ) : Option Stop :=
  match (step.run session).1 with
  | .ok _ => none
  | .error stop => some stop

/-- Why an operation ends without a value. -/
def Typer.stop? (typer : Typer σ) (session : Session σ) : Operation → Option Stop
  | .registerTypes => Infer.stop? typer.registerTypes session
  | .inferTypes => Infer.stop? typer.inferTypes session
  | .resolve => Infer.stop? typer.resolve session
  | .infer id => Infer.stop? (typer.infer id) session
  | .inferArguments id => Infer.stop? (typer.inferArguments id) session
  | .defer id => Infer.stop? (Infer.defer id) session
  | .learnLocalType scope name ty => Infer.stop? (learnLocalType scope name ty) session
  | .learnMethodType method => Infer.stop? (learnMethodType method) session

theorem Infer.returns_of_stop?_eq_none {α : Type} {step : Infer σ α} {session : Session σ}
    (ends : Infer.stop? step session = none) :
    ∃ value, Returns step session value (step.run session).2 := by
  unfold Infer.stop? at ends
  split at ends
  · rename_i value answered
    exact ⟨value, run_eq_of_answer answered⟩
  · cases ends

/-- Visits and the bookkeeping of the driver keep an invariant, whether they end with
a value or not, and stop for accepted reasons. -/
structure Typer.Sustains (typer : Typer σ) (invariant : Session σ → Prop)
    (accepts : Stop → Prop) : Prop where
  /-- Bookkeeping of the driver. -/
  drives : ∀ {session : Session σ} worklist lastChance passes,
    (session.worklist.Sound → worklist.Sound) → invariant session →
      invariant { session with worklist, lastChance, passes }
  givesUp : ∀ {stop : Stop}, stop.isFault = false → accepts stop
  visits : ∀ id, Upholds invariant accepts (typer.infer id)

namespace Typer.Sustains

variable {typer : Typer σ} {invariant : Session σ → Prop} {accepts : Stop → Prop}
  (sustains : typer.Sustains invariant accepts)

include sustains

theorem each (ids : List NodeId) : Upholds invariant accepts (each typer.infer ids) := by
  induction ids with
  | nil => exact fun _ holds => ⟨holds, nofun⟩
  | cons id rest ih => exact (sustains.visits id).bind fun _ => ih

theorem pass : Upholds invariant accepts (pass typer.infer) := by
  have starts : Upholds invariant accepts (startPass : Infer σ _) := by
    intro session holds
    exact ⟨sustains.drives _ _ _ (fun _ => .empty) holds, nofun⟩
  exact starts.bind fun pending => (sustains.each pending).bind fun _ _ holds =>
    ⟨holds, nofun⟩

theorem resolveWithin (fuel : Nat) :
    Upholds invariant accepts (typer.resolveWithin fuel) := by
  induction fuel with
  | zero =>
      intro session holds
      refine ⟨holds, ?_⟩
      rintro stop ⟨⟩
      exact sustains.givesUp rfl
  | succ fuel ih =>
      intro session holds
      have passes := sustains.pass holds
      have turn := typer.turn fuel session
      generalize (typer.resolveWithin (fuel + 1)).run session = outcome at turn ⊢
      cases turn with
      | done _ => exact ⟨holds, nofun⟩
      | limited _ _ =>
          refine ⟨holds, ?_⟩
          rintro stop ⟨⟩
          exact sustains.givesUp rfl
      | stopped _ passed =>
          rw [passed] at passes
          refine ⟨passes.1, ?_⟩
          rintro stop ⟨⟩
          exact passes.2 rfl
      | productive _ passed =>
          rw [passed] at passes
          exact ih (sustains.drives _ _ _ id passes.1)
      | lastChance _ passed _ =>
          rw [passed] at passes
          exact ih (sustains.drives _ _ _ id passes.1)
      | stuck _ passed _ =>
          rw [passed] at passes
          refine ⟨passes.1, ?_⟩
          rintro stop ⟨⟩
          exact sustains.givesUp rfl

theorem resolve : Upholds invariant accepts typer.resolve := by
  intro session holds
  rw [run_resolve]
  exact sustains.resolveWithin _ holds

/-- A run keeps the invariant from when the declarations are registered. -/
theorem inferTypes {session registered : Session σ}
    (registers : Returns typer.registerTypes session () registered)
    (holds : invariant registered) :
    UpholdsFrom session invariant accepts typer.inferTypes := by
  have onward : Upholds invariant accepts (do
      let roots := (← getArena).roots
      Infer.each typer.infer (roots.map Node.id)
      typer.resolve : Infer σ Unit) :=
    fun session holds => ((sustains.each (session.facts.arena.roots.map Node.id)).bind
      fun _ => sustains.resolve) holds
  have rest := onward holds
  rw [UpholdsFrom, Typer.inferTypes, run_bind_of_returns registers]
  exact rest

end Typer.Sustains

/-- Every operation keeps an invariant, whether it ends with a value or not, and stops for
accepted reasons. -/
structure Typer.Maintains (typer : Typer σ) (invariant : Session σ → Prop)
    (accepts : Stop → Prop) : Prop extends typer.Sustains invariant accepts where
  registers : Upholds invariant accepts typer.registerTypes
  lists : ∀ id, Upholds invariant accepts (typer.inferArguments id)
  locals : ∀ scope name ty, Upholds invariant accepts (learnLocalType scope name ty)
  methods : ∀ method, Upholds invariant accepts (learnMethodType method)

namespace Typer.Maintains

variable {typer : Typer σ} {invariant : Session σ → Prop} {accepts : Stop → Prop}
  (maintains : typer.Maintains invariant accepts)

include maintains

theorem inferTypes : Upholds invariant accepts typer.inferTypes :=
  maintains.registers.bind fun _ session holds =>
    ((maintains.each (session.facts.arena.roots.map Node.id)).bind
      fun _ => maintains.resolve) holds

/-- Every operation keeps the invariant and stops for accepted reasons. -/
theorem perform {session : Session σ} (holds : invariant session)
    (operation : Operation) :
    invariant (typer.perform session operation) ∧
      ∀ {stop}, typer.stop? session operation = some stop → accepts stop := by
  have ends : ∀ {α : Type} {step : Infer σ α}, Upholds invariant accepts step →
      invariant (step.run session).2 ∧
        ∀ {stop}, Infer.stop? step session = some stop → accepts stop := by
    intro α step upholds
    obtain ⟨kept, stops⟩ := upholds holds
    refine ⟨kept, ?_⟩
    intro stop stopped
    unfold Infer.stop? at stopped
    split at stopped
    · cases stopped
    · rename_i answered
      cases stopped
      exact stops answered
  cases operation with
  | registerTypes => exact ends maintains.registers
  | inferTypes => exact ends maintains.inferTypes
  | resolve => exact ends maintains.resolve
  | infer id => exact ends (maintains.visits id)
  | inferArguments id => exact ends (maintains.lists id)
  | defer id =>
      refine ends fun session holds => ⟨maintains.drives _ _ _ (·.push id) holds, ?_⟩
      intro stop stopped
      cases stopped
  | learnLocalType scope name ty => exact ends (maintains.locals scope name ty)
  | learnMethodType method => exact ends (maintains.methods method)

theorem continues {first last : Session σ} (holds : invariant first)
    (continues : typer.Continues first last) : invariant last := by
  induction continues with
  | refl => exact holds
  | step _ operation ih => exact (maintains.perform ih operation).1

end Typer.Maintains

/-- Every operation keeps an invariant, and so does whatever adds facts. -/
structure Typer.Preserves (typer : Typer σ) (invariant : Session σ → Prop)
    (accepts : Stop → Prop) : Prop extends typer.Maintains invariant accepts where
  adds : ∀ {α : Type} {step : Infer σ α}, AddStep typer.setting step →
    Upholds invariant accepts step
  locals := fun scope name ty => adds (typer.learnLocalType_adds scope name ty)
  methods := fun method => adds (typer.learnMethodType_adds method)

/-- The declarations of a tree are registered by resolving its signatures, once its classes are
known and those that declare a constructor are recorded. -/
theorem Typer.registerTypes_upholds
    {typer : Typer σ} {invariant : Session σ → Prop} {accepts : Stop → Prop}
    {session : Session σ} (keyed : session.facts.arena.Keyed)
    (holds : ∀ declaredConstructors, invariant { session with
      catalog := session.facts.arena.declare session.catalog, declaredConstructors })
    (ordinary : ∀ {stop : Stop}, stop.isOrdinary = true → stop.isClash = false → accepts stop)
    (signs : ∀ {id method}, session.facts.arena.method? id = some method →
      Upholds invariant accepts (signatureOf typer.setting id method)) :
    UpholdsFrom session invariant accepts typer.registerTypes := by
  have resolves : ∀ methods : List (NodeId × Method NodeId),
      (∀ {id method}, (id, method) ∈ methods → session.facts.arena.method? id = some method) →
        Upholds invariant accepts (declareSignatures typer.setting methods) := by
    intro methods defines
    induction methods with
    | nil => exact fun _ holds => ⟨holds, nofun⟩
    | cons entry rest ih =>
        exact (signs (defines List.mem_cons_self)).bind fun _ =>
          ih fun member => defines (List.mem_cons_of_mem entry member)
  have constructs : UpholdsFrom
      { session with catalog := session.facts.arena.declare session.catalog }
      invariant accepts (declareConstructors typer.setting session.facts.arena.methods) := by
    obtain ⟨declaredConstructors, ended, stops⟩ := run_declareConstructors typer.setting
      session.facts.arena.methods
      { session with catalog := session.facts.arena.declare session.catalog }
    refine ⟨?_, fun stopped => ordinary (stops _ stopped).1 (stops _ stopped).2⟩
    rw [ended]
    exact holds declaredConstructors
  have registers := constructs.bind fun {_ _} _ kept =>
    resolves session.facts.arena.methods keyed.mem_methods_iff.mp kept
  rwa [UpholdsFrom, ← run_registerTypes_declared] at registers

/-- The driver and everything that it does lead from every session to a related
one, whether they end with a value or not. -/
structure Typer.Respects (typer : Typer σ)
    (relation : Session σ → Session σ → Prop) : Prop where
  trans : ∀ ⦃first second third⦄, relation first second → relation second third →
    relation first third
  drives : ∀ (session : Session σ) worklist lastChance passes,
    relation session { session with worklist, lastChance, passes }
  registers : Relates relation typer.registerTypes
  visits : ∀ id, Relates relation (typer.infer id)
  keeps : ∀ id types, Relates relation (keepArgumentTypes id types)
  adds : ∀ {α : Type} {step : Infer σ α}, AddStep typer.setting step →
    Relates relation step

namespace Typer.Respects

variable {typer : Typer σ} {relation : Session σ → Session σ → Prop}
  (respects : typer.Respects relation)

include respects

theorem preserves (first : Session σ) :
    typer.Preserves (relation first) fun _ => True := by
  have upholds : ∀ {α : Type} {step : Infer σ α}, Relates relation step →
      Upholds (relation first) (fun _ => True) step :=
    fun relates session related =>
      ⟨respects.trans related (relates session), fun _ => trivial⟩
  have building : Building typer.setting fun _ step => Relates relation step :=
    { add := respects.adds
      bind := fun first second => first.bind respects.trans second
      fewer := fun relates _ => relates }
  exact {
    drives := fun _ _ _ _ related => respects.trans related (respects.drives _ _ _ _)
    givesUp := fun _ => trivial
    registers := upholds respects.registers
    visits := fun id => upholds (respects.visits id)
    lists := fun id => upholds (building.arguments respects.visits (respects.keeps id))
    adds := fun adds => upholds (respects.adds adds) }

theorem refl (session : Session σ) : relation session session :=
  respects.drives session session.worklist session.lastChance session.passes

theorem perform (session : Session σ) (operation : Operation) :
    relation session (typer.perform session operation) :=
  ((respects.preserves session).perform (respects.refl session) operation).1

theorem continues {first last : Session σ} (continues : typer.Continues first last) :
    relation first last :=
  (respects.preserves first).continues (respects.refl first) continues

end Typer.Respects

/-- The step leaves the tree alone, whether it ends with a value or not. -/
abbrev Infer.KeepsTree (arena : Arena) {α : Type} (step : Infer σ α) : Prop :=
  Relates (fun before after => before.Intact arena → after.Intact arena) step

namespace Typer

variable {typer : Typer σ} {arena : Arena}

theorem registerTypes_keepsTree :
    KeepsTree arena typer.registerTypes := by
  intro session kept
  rcases registers : typer.registerTypes.run session with ⟨answer, after⟩
  obtain ⟨catalog, declaredConstructors, facts, added, rfl, _⟩ :=
    typer.registerTypes_added registers
  have same := Facts.Learned.sameNodes (Facts.Added.learned added)
  exact ⟨same.arena.trans kept.arena, same.expansions.trans kept.unexpanded⟩

theorem respects_intact
    (declines : typer.expander.Declines) :
    typer.Respects fun before after => before.Intact arena → after.Intact arena where
  trans _ _ _ early late kept := late (early kept)
  drives _ _ _ _ kept := ⟨kept.arena, kept.unexpanded⟩
  registers := registerTypes_keepsTree
  visits id session kept := (infer_growsWithin declines id session kept).intact kept
  keeps id types session kept := by
    have grows : GrowsWithin arena (fun _ => True) (keepArgumentTypes id types : Infer σ _) :=
      keepArgumentTypes_growsWithin types
    exact (grows session kept).intact kept
  adds adds session kept := by
    have grows : GrowsWithin arena (fun _ => True) _ :=
      (traversal_growsWithin typer.setting).own adds.own
    exact (grows session kept).intact kept

theorem pass_keepsTree
    (declines : typer.expander.Declines) :
    KeepsTree arena (pass typer.infer) :=
  fun session => (((respects_intact declines).preserves session).pass
    ((respects_intact declines).refl session)).1

/-- Without macros, the tree is as it was in every session that is reached. -/
theorem Reachable.intact
    (declines : typer.expander.Declines)
    {catalog : Catalog} {state : σ} {session : Session σ}
    (reached : typer.Reachable arena catalog state session) :
    session.Intact arena := by
  induction reached with
  | start => exact ⟨rfl, rfl⟩
  | step _ operation kept => exact (respects_intact declines).perform _ operation kept

end Typer

end DeferredTyping
