import DeferredTyping.Proofs.Branches

/-!
# What the settings of the driver decide

The driver goes from session to session, one pass at a time, until it halts.  No visit looks
at its settings: the limit on passes is looked at before a pass, and whether last chances are
allowed after an idle one.  Two drivers that differ in one setting therefore make the same
passes, up to the session in which that setting makes one of them halt.

Nothing is said about the expander, which may rebuild the tree in every pass.
-/

namespace DeferredTyping

variable {σ : Type}

/-- The driver ended because it gave up. -/
def Stop.givesUp : Stop → Bool
  | .failed error => error.givesUp
  | .exhausted => false

theorem Stop.givesUp_of_isFault {stop : Stop} (fault : stop.isFault = true) :
    stop.givesUp = false := by
  cases stop with
  | exhausted => rfl
  | failed error => simpa [Stop.isFault, Stop.givesUp] using fault

namespace Infer

/-- The step may fail or run out of fuel, but it does not give up. -/
abbrev GoesOn {α : Type} (step : Infer σ α) : Prop :=
  Upholds (fun _ => True) (fun stop => stop.givesUp = false) step

theorem goesOn_of_answers
    {α : Type} {step : Infer σ α}
    (answers : ∀ session stop, (step.run session).1 = .error stop → stop.givesUp = false) :
    GoesOn step :=
  fun session _ => ⟨trivial, answers session _⟩

variable (setting : Setting σ)

theorem traversal_goesOn : Traversal setting fun _ (step : Infer σ _) => GoesOn step where
  own own := goesOn_of_answers fun _ _ stopped => Stop.givesUp_of_isFault (own.answers stopped)
  bind first second := first.bind second
  fewer goesOn _ := goesOn

theorem splice_goesOn (id expansion : NodeId) :
    GoesOn (splice id expansion : Infer σ Unit) := by
  refine Upholds.bind (goesOn_of_answers nofun) fun arena => ?_
  split
  · exact goesOn_of_answers fun _ _ stopped => by cases stopped; rfl
  · rename_i parent _
    cases arena.replaceChild parent id expansion with
    | error cause => exact goesOn_of_answers fun _ _ stopped => by cases stopped; rfl
    | ok replaced => exact goesOn_of_answers nofun

theorem remember_goesOn (id : NodeId) (answer : Option Ty) :
    GoesOn (remember id answer : Infer σ _) := by
  cases answer with
  | some ty => exact goesOn_of_answers nofun
  | none => exact goesOn_of_answers nofun

/-- Whatever the expander does, giving up is not for visits to decide. -/
theorem node_goesOn (fuel : Nat) : ∀ id, GoesOn (node setting fuel id) := by
  induction fuel with
  | zero => exact fun id => goesOn_of_answers fun _ _ stopped => by cases stopped; rfl
  | succ fuel visits =>
      intro id session _
      have traversal := traversal_goesOn setting
      rcases run_node setting fuel id session with ⟨ty, _, run⟩ |
        ⟨expansion, _, _, run⟩ | ⟨cause, _, run⟩ | ⟨found, _, _, _, run⟩
      · rw [run]
        exact ⟨trivial, nofun⟩
      · rw [run]
        exact Upholds.bind (visits expansion) (remember_goesOn id) trivial
      · rw [run]
        refine ⟨trivial, ?_⟩
        rintro stop ⟨⟩
        rfl
      · rw [run]
        refine Upholds.bind (traversal.rule ?_ ?_ fun child _ => visits child)
          (remember_goesOn id) trivial
        · intro receiver name types
          exact traversal.resolveCall (goesOn_of_answers nofun) (splice_goesOn id) visits
        · intro list _
          refine traversal.arguments visits fun types => ?_
          cases types <;> exact goesOn_of_answers nofun

end Infer

open Infer

namespace Typer

section Passes

variable (typer : Typer σ)

theorem infer_goesOn (id : NodeId) : GoesOn (typer.infer id) := by
  intro session _
  rw [run_infer]
  exact node_goesOn typer.setting _ id trivial

variable {typer}

/-- A pass that does not end was not given up. -/
theorem pass_stop_givesUp
    {session after : Session σ} {stop : Stop}
    (stopped : (pass typer.infer).run session = (.error stop, after)) :
    stop.givesUp = false := by
  have visits : GoesOn (each typer.infer session.worklist.queue) :=
    (traversal_goesOn typer.setting).each fun id _ => typer.infer_goesOn id
  rcases run_pass typer.infer session with ⟨other, last, visited, run⟩ | ⟨last, _, run⟩
  · rw [run] at stopped
    cases stopped
    exact (visits trivial).2 (congrArg Prod.fst visited)
  · rw [run] at stopped
    cases stopped

/-- A pass that ends is counted once. -/
theorem passes_of_returns_pass
    {session after : Session σ} {productive : Bool}
    (passed : Returns (pass typer.infer) session productive after) :
    after.passes = session.passes + 1 := by
  have visits : Relates Session.Extends (each typer.infer session.worklist.queue) :=
    sequential_extends.each fun id _ => typer.infer_extends id
  rw [Returns] at passed
  rcases run_pass typer.infer session with ⟨_, _, _, run⟩ | ⟨last, visited, run⟩
  · rw [run] at passed
    cases passed
  · rw [run] at passed
    cases passed
    exact (visits.returned visited).passes

end Passes

/-- The limit leaves room for a pass in this session. -/
def HasRoom (typer : Typer σ) (session : Session σ) : Prop :=
  ∀ {limit}, typer.config.maxPasses = some limit → session.passes < limit

/-- The driver makes a pass in the first session, and it ends in the second one. -/
structure Passes (typer : Typer σ) (session : Session σ) (productive : Bool)
    (after : Session σ) : Prop where
  pending : session.worklist.isEmpty = false
  room : typer.HasRoom session
  passed : Returns (pass typer.infer) session productive after

/-- The driver goes on from the first session in the second one, a pass later. -/
inductive Advances (typer : Typer σ) (session : Session σ) : Session σ → Prop where
  | productive {after : Session σ} (passes : typer.Passes session true after) :
      Advances typer session { after with lastChance := false }
  | lastChance {after : Session σ} (passes : typer.Passes session false after)
      (left : (typer.config.lastChance && !after.lastChance) = true) :
      Advances typer session { after with lastChance := true }

/-- The driver ends in this session, or in the pass that it makes in it. -/
inductive Halts (typer : Typer σ) (session : Session σ) :
    Except Stop Unit × Session σ → Prop where
  | done (empty : session.worklist.isEmpty = true) : Halts typer session (.ok (), session)
  | limited {limit : Nat} (pending : session.worklist.isEmpty = false)
      (bound : typer.config.maxPasses = some limit) (reached : limit ≤ session.passes) :
      Halts typer session (.error (.failed (.passLimitExceeded limit)), session)
  | stopped {stop : Stop} {after : Session σ} (pending : session.worklist.isEmpty = false)
      (room : typer.HasRoom session)
      (passed : (pass typer.infer).run session = (.error stop, after)) :
      Halts typer session (.error stop, after)
  | stuck {after : Session σ} (passes : typer.Passes session false after)
      (none_left : (typer.config.lastChance && !after.lastChance) = false) :
      Halts typer session (.error (.failed (cannotInfer after)), after)

/-- The sessions that the driver comes to, each one pass after the one before. -/
abbrev ComesTo (typer : Typer σ) : Session σ → Session σ → Prop :=
  Relation.ReflTransGen typer.Advances

section Turns

variable {typer : Typer σ}

theorem Advances.passes_eq {session next : Session σ} (advances : typer.Advances session next) :
    next.passes = session.passes + 1 := by
  cases advances with
  | productive passes =>
      have counted := passes_of_returns_pass passes.passed
      exact counted
  | lastChance passes _ =>
      have counted := passes_of_returns_pass passes.passed
      exact counted

theorem Advances.hasRoom {session next : Session σ} (advances : typer.Advances session next) :
    typer.HasRoom session := by
  cases advances with
  | productive passes => exact passes.room
  | lastChance passes _ => exact passes.room

/-- Where there is something to do and room for a pass, the pass is made. -/
theorem run_resolveWithin_of_hasRoom
    (fuel : Nat) {session : Session σ} (pending : session.worklist.isEmpty = false)
    (room : typer.HasRoom session) :
    (typer.resolveWithin (fuel + 1)).run session =
      (do
        if ← pass typer.infer then
          modify fun session => { session with lastChance := false }
          typer.resolveWithin fuel
        else if typer.config.lastChance && !(← get).lastChance then
          modify fun session => { session with lastChance := true }
          typer.resolveWithin fuel
        else
          fail (cannotInfer (← get)) : Infer σ Unit).run session := by
  rw [resolveWithin, run_bind, run_get]
  dsimp only
  rw [pending]
  simp only [Bool.false_eq_true, if_false]
  cases bound : typer.config.maxPasses with
  | none => rfl
  | some limit =>
      have below : ¬ limit ≤ session.passes := Nat.not_le_of_lt (room bound)
      simp only [if_neg below]

theorem run_resolveWithin_of_advances
    (fuel : Nat) {session next : Session σ} (advances : typer.Advances session next) :
    (typer.resolveWithin (fuel + 1)).run session = (typer.resolveWithin fuel).run next := by
  cases advances with
  | productive passes =>
      rw [run_resolveWithin_of_hasRoom fuel passes.pending passes.room,
        run_bind_of_returns passes.passed]
      rfl
  | lastChance passes left =>
      rw [run_resolveWithin_of_hasRoom fuel passes.pending passes.room,
        run_bind_of_returns passes.passed]
      simp only [Bool.false_eq_true, if_false, run_bind, run_get, left, if_true]
      rfl

theorem run_resolveWithin_of_halts
    (fuel : Nat) {session : Session σ} {outcome : Except Stop Unit × Session σ}
    (halts : typer.Halts session outcome) :
    (typer.resolveWithin (fuel + 1)).run session = outcome := by
  cases halts with
  | done empty =>
      rw [resolveWithin, run_bind, run_get]
      simp only [empty, if_true, run_pure]
  | limited pending bound reached =>
      rw [resolveWithin, run_bind, run_get]
      simp only [pending, Bool.false_eq_true, if_false, bound, if_pos reached]
      rfl
  | stopped pending room passed =>
      rw [run_resolveWithin_of_hasRoom fuel pending room, run_bind_of_error passed]
  | stuck passes none_left =>
      rw [run_resolveWithin_of_hasRoom fuel passes.pending passes.room,
        run_bind_of_returns passes.passed]
      simp only [Bool.false_eq_true, if_false, run_bind, run_get, none_left, run_fail]

variable (typer)

/-- In every session the driver halts or goes on. -/
theorem halts_or_advances (session : Session σ) :
    (∃ outcome, typer.Halts session outcome) ∨ ∃ next, typer.Advances session next := by
  cases pending : session.worklist.isEmpty with
  | true => exact .inl ⟨_, .done pending⟩
  | false =>
      by_cases room : typer.HasRoom session
      · rcases passed : (pass typer.infer).run session with ⟨stop | productive, after⟩
        · exact .inl ⟨_, .stopped pending room passed⟩
        · cases productive with
          | true => exact .inr ⟨_, .productive ⟨pending, room, passed⟩⟩
          | false =>
              cases left : typer.config.lastChance && !after.lastChance with
              | true => exact .inr ⟨_, .lastChance ⟨pending, room, passed⟩ left⟩
              | false => exact .inl ⟨_, .stuck ⟨pending, room, passed⟩ left⟩
      · unfold HasRoom at room
        push Not at room
        obtain ⟨limit, bound, reached⟩ := room
        exact .inl ⟨_, .limited pending bound reached⟩

/-- A driver that makes the passes of another one comes where that one runs out of fuel or
halts, with as much fuel left. -/
theorem resolveWithin_lockstep
    {first second : Typer σ} (fuel : Nat) :
    ∀ {session : Session σ},
      (∀ {middle next}, first.ComesTo session middle → first.Advances middle next →
        second.Advances middle next) →
      ∃ left last, first.ComesTo session last ∧ second.ComesTo session last ∧
        (first.resolveWithin fuel).run session = (first.resolveWithin left).run last ∧
        (second.resolveWithin fuel).run session = (second.resolveWithin left).run last ∧
        (left = 0 ∨ ∃ fewer outcome, left = fewer + 1 ∧ first.Halts last outcome) := by
  induction fuel with
  | zero => exact fun {session} _ => ⟨0, session, .refl, .refl, rfl, rfl, .inl rfl⟩
  | succ fuel ih =>
      intro session follows
      rcases first.halts_or_advances session with ⟨outcome, halts⟩ | ⟨next, advances⟩
      · exact ⟨fuel + 1, session, .refl, .refl, rfl, rfl, .inr ⟨fuel, outcome, rfl, halts⟩⟩
      · have followed := follows .refl advances
        obtain ⟨left, last, comes, alsoComes, run, alsoRun, ends⟩ :=
          ih fun later => follows (.head advances later)
        refine ⟨left, last, .head advances comes, .head followed alsoComes, ?_, ?_, ends⟩
        · rw [run_resolveWithin_of_advances fuel advances, run]
        · rw [run_resolveWithin_of_advances fuel followed, alsoRun]

/-- A driver that makes the passes of another one, and halts where that one does, ends as that
one does. -/
theorem resolveWithin_eq
    {first second : Typer σ} (fuel : Nat) {session : Session σ}
    (follows : ∀ {middle next}, first.ComesTo session middle → first.Advances middle next →
      second.Advances middle next)
    (alike : ∀ {last outcome}, first.ComesTo session last → first.Halts last outcome →
      (first.resolveWithin fuel).run session = outcome → second.Halts last outcome) :
    (second.resolveWithin fuel).run session = (first.resolveWithin fuel).run session := by
  obtain ⟨left, last, comes, _, run, alsoRun, ends⟩ := resolveWithin_lockstep fuel follows
  rcases ends with rfl | ⟨fewer, outcome, rfl, halts⟩
  · rw [run, alsoRun]
    rfl
  · rw [run_resolveWithin_of_halts fewer halts] at run
    rw [run, alsoRun, run_resolveWithin_of_halts fewer (alike comes halts run)]

end Turns

section LastChances

/-- The typer that allows last chances, or one that does not. -/
def withLastChance (typer : Typer σ) (allowed : Bool) : Typer σ :=
  { typer with config := { typer.config with lastChance := allowed } }

/-- Every pass that the driver makes from a session on is productive. -/
def ProductiveFrom (typer : Typer σ) (session : Session σ) : Prop :=
  ∀ middle productive after, typer.ComesTo session middle →
    typer.Passes middle productive after → productive = true

variable {typer : Typer σ} {allowed : Bool} {session : Session σ}

theorem productiveFrom_of_isEmpty (empty : session.worklist.isEmpty = true) :
    typer.ProductiveFrom session := by
  intro middle productive last comes passes
  rcases comes.cases_head with rfl | ⟨next, advances, _⟩
  · rw [passes.pending] at empty
    cases empty
  · cases advances with
    | productive first | lastChance first _ =>
        rw [first.pending] at empty
        cases empty

/-- A productive pass first, and productive passes from there on. -/
theorem Passes.productiveFrom
    {after : Session σ} (passes : typer.Passes session true after)
    (rest : typer.ProductiveFrom { after with lastChance := false }) :
    typer.ProductiveFrom session := by
  have only : ∀ {productive last}, typer.Passes session productive last →
      (true, after) = (productive, last) := by
    intro productive last other
    have same := passes.passed.symm.trans other.passed
    cases same
    rfl
  intro middle productive last comes made
  rcases comes.cases_head with rfl | ⟨next, advances, later⟩
  · cases only made
    rfl
  · cases advances with
    | productive first =>
        cases only first
        exact rest _ _ _ later made
    | lastChance first _ => cases only first

theorem Passes.withLastChance
    {productive : Bool} {after : Session σ}
    (passes : (typer.withLastChance allowed).Passes session productive after) (other : Bool) :
    (typer.withLastChance other).Passes session productive after :=
  ⟨passes.pending, passes.room, passes.passed⟩

/-- Unless a pass is idle, the driver goes on alike. -/
theorem Advances.withLastChance
    {next : Session σ} (advances : (typer.withLastChance allowed).Advances session next)
    (other : Bool) :
    (typer.withLastChance other).Advances session next ∨
      allowed = true ∧ ∃ after, (typer.withLastChance allowed).Passes session false after := by
  cases advances with
  | productive passes => exact .inl (.productive (passes.withLastChance other))
  | lastChance passes left => exact .inr ⟨(Bool.and_eq_true_iff.mp left).1, _, passes⟩

/-- Unless a pass is idle, the driver halts alike. -/
theorem Halts.withLastChance
    {outcome : Except Stop Unit × Session σ}
    (halts : (typer.withLastChance allowed).Halts session outcome) (other : Bool) :
    (typer.withLastChance other).Halts session outcome ∨
      ∃ after, (typer.withLastChance allowed).Passes session false after ∧
        outcome = (.error (.failed (cannotInfer after)), after) := by
  cases halts with
  | done empty => exact .inl (.done empty)
  | limited pending bound reached => exact .inl (.limited pending bound reached)
  | stopped pending room passed => exact .inl (.stopped pending room passed)
  | stuck passes _ => exact .inr ⟨_, passes, rfl⟩

/-- A run without last chances that does not give up is the run with them. -/
theorem resolve_withLastChance_true
    (answered : ∀ unresolved, ((typer.withLastChance false).resolve.run session).1 ≠
      .error (.failed (.cannotInfer unresolved))) :
    (typer.withLastChance true).resolve.run session =
      (typer.withLastChance false).resolve.run session := by
  rw [run_resolve] at answered
  rw [run_resolve, run_resolve]
  apply resolveWithin_eq (3 * ((typer.withLastChance false).nodeBound session + 1) + 2)
  · intro middle next _ advances
    rcases advances.withLastChance true with alike | ⟨off, _⟩
    · exact alike
    · cases off
  · intro last outcome _ halts run
    rcases halts.withLastChance true with alike | ⟨after, _, rfl⟩
    · exact alike
    · exact absurd (congrArg Prod.fst run) (answered _)

/-- A run with last chances in which every pass is productive is the run without them. -/
theorem resolve_withLastChance_false
    (productive : (typer.withLastChance true).ProductiveFrom session) :
    (typer.withLastChance false).resolve.run session =
      (typer.withLastChance true).resolve.run session := by
  rw [run_resolve, run_resolve]
  apply resolveWithin_eq (3 * ((typer.withLastChance true).nodeBound session + 1) + 2)
  · intro middle next comes advances
    rcases advances.withLastChance false with alike | ⟨_, _, idle⟩
    · exact alike
    · cases productive _ _ _ comes idle
  · intro last outcome comes halts _
    rcases halts.withLastChance false with alike | ⟨_, idle, _⟩
    · exact alike
    · cases productive _ _ _ comes idle

/-- Allowing last chances makes no difference to a run that does not need them.  If the run
without them does not end with a report of what could not be inferred, the run with them ends
with the same answer in the same session: the facts, the deferred nodes and the number of
passes are the same.  If every pass of the run with them is productive, the run without them
ends alike. -/
theorem lastChance_matters_only_after_idle_pass (typer : Typer σ) (session : Session σ) :
    ((∀ unresolved, ((typer.withLastChance false).inferTypes.run session).1 ≠
        .error (.failed (.cannotInfer unresolved))) →
      (typer.withLastChance true).inferTypes.run session =
        (typer.withLastChance false).inferTypes.run session) ∧
    ((∀ visited, Returns (typer.withLastChance true).visitRoots session () visited →
        (typer.withLastChance true).ProductiveFrom visited) →
      (typer.withLastChance false).inferTypes.run session =
        (typer.withLastChance true).inferTypes.run session) := by
  have visits : (typer.withLastChance true).visitRoots =
      (typer.withLastChance false).visitRoots := rfl
  rw [inferTypes_eq, inferTypes_eq, visits]
  rcases run : (typer.withLastChance false).visitRoots.run session with ⟨stop | _, visited⟩
  · rw [run_bind_of_error run, run_bind_of_error run]
    exact ⟨fun _ => rfl, fun _ => rfl⟩
  · rw [run_bind_of_returns run, run_bind_of_returns run]
    exact ⟨resolve_withLastChance_true,
      fun productive => resolve_withLastChance_false (productive visited run)⟩

/-- A script that chooses between a number and a call of a method that it defines later. -/
def lateBranch : Arena where
  nodes := ⟨[
    (1, { id := 1, parent := none, location := {}, kind := .script "" (some 2) }),
    (2, { id := 2, parent := some 1, location := {}, kind := .body [3, 7] }),
    (3, { id := 3, parent := some 2, location := {}, kind := .ifElse 4 (some 5) (some 6) }),
    (4, { id := 4, parent := some 3, location := {}, kind := .boolean true }),
    (5, { id := 5, parent := some 3, location := {}, kind := .fixnum 1 }),
    (6, { id := 6, parent := some 3, location := {},
          kind := .functionalCall "answer" [] none }),
    (7, { id := 7, parent := some 2, location := {},
          kind := .methodDefinition { name := "answer", arguments := 8, body := some 9 } }),
    (8, { id := 8, parent := some 7, location := {}, kind := .arguments {} }),
    (9, { id := 9, parent := some 7, location := {}, kind := .fixnum 42 })]⟩
  nextId := 10

/-- The choice waits for the call with and without last chances, and the only pass types
both. -/
theorem lastChance_matters_only_after_idle_pass_of_lateBranch :
    (∃ after,
      Returns (plain.withLastChance false).inferTypes (start lateBranch .builtin ()) () after ∧
      after.facts.nodeType? 3 = some .int ∧ after.passes = 1 ∧
      Returns (plain.withLastChance true).inferTypes (start lateBranch .builtin ()) ()
        after) ∧
    ∃ visited,
      Returns (plain.withLastChance true).visitRoots (start lateBranch .builtin ()) ()
        visited ∧
      visited.worklist.isEmpty = false ∧ (plain.withLastChance true).ProductiveFrom visited ∧
      (plain.withLastChance false).inferTypes.run (start lateBranch .builtin ()) =
        (plain.withLastChance true).inferTypes.run (start lateBranch .builtin ()) := by
  obtain ⟨withChances, without⟩ :=
    lastChance_matters_only_after_idle_pass plain (start lateBranch .builtin ())
  have ended : Returns (plain.withLastChance false).inferTypes (start lateBranch .builtin ())
      () ((plain.withLastChance false).inferTypes.run (start lateBranch .builtin ())).2 :=
    returns_of_isOk (by decide +kernel)
  have alike := withChances fun unresolved given => by
    rw [ended] at given
    cases given
  have visits : Returns (plain.withLastChance true).visitRoots (start lateBranch .builtin ())
      () ((plain.withLastChance true).visitRoots.run (start lateBranch .builtin ())).2 :=
    returns_of_isOk (by decide +kernel)
  have pending : ((plain.withLastChance true).visitRoots.run
      (start lateBranch .builtin ())).2.worklist.isEmpty = false := by decide +kernel
  have productive : (plain.withLastChance true).ProductiveFrom
      ((plain.withLastChance true).visitRoots.run (start lateBranch .builtin ())).2 := by
    have passes : (plain.withLastChance true).Passes _ true _ :=
      ⟨pending, nofun, run_eq_of_answer (by decide +kernel)⟩
    exact passes.productiveFrom (productiveFrom_of_isEmpty (by decide +kernel))
  refine ⟨⟨_, ended, by decide +kernel, by decide +kernel, alike.trans ended⟩,
    _, visits, pending, productive, without ?_⟩
  intro visited other
  obtain rfl := congrArg Prod.snd (visits.symm.trans other)
  exact productive

end LastChances

section PassLimits

/-- The typer with another limit on passes. -/
def withMaxPasses (typer : Typer σ) (maxPasses : Option Nat) : Typer σ :=
  { typer with config := { typer.config with maxPasses } }

variable {typer : Typer σ} {limit : Nat} {looser : Option Nat} {session : Session σ}

/-- The limit is kept on the way: it is not passed, unless it was before. -/
theorem ComesTo.passes_le
    {last : Session σ} (comes : (typer.withMaxPasses (some limit)).ComesTo session last) :
    session.passes ≤ last.passes ∧ last.passes ≤ max limit session.passes := by
  induction comes with
  | refl => exact ⟨Nat.le_refl _, Nat.le_max_right _ _⟩
  | tail _ advances ih =>
      have counted := advances.passes_eq
      have below := advances.hasRoom rfl
      omega

section Loosen

variable (larger : ∀ other ∈ looser, limit ≤ other)

include larger

theorem HasRoom.loosen (room : (typer.withMaxPasses (some limit)).HasRoom session) :
    (typer.withMaxPasses looser).HasRoom session :=
  fun bound => Nat.lt_of_lt_of_le (room rfl) (larger _ bound)

theorem Passes.loosen
    {productive : Bool} {after : Session σ}
    (passes : (typer.withMaxPasses (some limit)).Passes session productive after) :
    (typer.withMaxPasses looser).Passes session productive after :=
  ⟨passes.pending, HasRoom.loosen larger passes.room, passes.passed⟩

theorem Advances.loosen
    {next : Session σ} (advances : (typer.withMaxPasses (some limit)).Advances session next) :
    (typer.withMaxPasses looser).Advances session next := by
  cases advances with
  | productive passes => exact .productive (passes.loosen larger)
  | lastChance passes left => exact .lastChance (passes.loosen larger) left

/-- The driver halts alike, unless it is the limit that makes it halt. -/
theorem Halts.loosen
    {outcome : Except Stop Unit × Session σ}
    (halts : (typer.withMaxPasses (some limit)).Halts session outcome) :
    (typer.withMaxPasses looser).Halts session outcome ∧
        (∀ exceeded, outcome.1 ≠ .error (.failed (.passLimitExceeded exceeded))) ∨
      session.worklist.isEmpty = false ∧ limit ≤ session.passes ∧
        outcome = (.error (.failed (.passLimitExceeded limit)), session) := by
  cases halts with
  | done empty => exact .inl ⟨.done empty, nofun⟩
  | limited pending bound reached =>
      cases bound
      exact .inr ⟨pending, reached, rfl⟩
  | stopped pending room passed =>
      refine .inl ⟨.stopped pending (HasRoom.loosen larger room) passed, ?_⟩
      rintro exceeded ⟨⟩
      cases pass_stop_givesUp passed
  | stuck passes none_left => exact .inl ⟨.stuck (passes.loosen larger) none_left, nofun⟩

/-- A run that does not end at its limit ends so with every larger one. -/
theorem resolve_withMaxPasses
    (answered : ∀ exceeded, ((typer.withMaxPasses (some limit)).resolve.run session).1 ≠
      .error (.failed (.passLimitExceeded exceeded))) :
    (typer.withMaxPasses looser).resolve.run session =
      (typer.withMaxPasses (some limit)).resolve.run session := by
  rw [run_resolve] at answered
  rw [run_resolve, run_resolve]
  apply resolveWithin_eq (3 * ((typer.withMaxPasses (some limit)).nodeBound session + 1) + 2)
  · exact fun _ advances => advances.loosen larger
  · intro last outcome _ halts run
    rcases halts.loosen larger with ⟨alike, _⟩ | ⟨_, _, rfl⟩
    · exact alike
    · exact absurd (congrArg Prod.fst run) (answered limit)

end Loosen

/-- A limit on passes only cuts a run short.  A run that does not end at its limit ends in the
same way without one and with every larger one.  A run that ends at its limit has nodes left
to infer and has counted as many passes as the limit allows, or as many as before when there
were more; the longer run comes to that very session and goes on from it. -/
theorem passLimit_only_cuts_short
    (typer : Typer σ) {limit : Nat} {looser : Option Nat}
    (larger : ∀ other ∈ looser, limit ≤ other) (session : Session σ) :
    ((∀ exceeded, ((typer.withMaxPasses (some limit)).resolve.run session).1 ≠
        .error (.failed (.passLimitExceeded exceeded))) →
      (typer.withMaxPasses looser).resolve.run session =
        (typer.withMaxPasses (some limit)).resolve.run session) ∧
    ∀ exceeded last, (typer.withMaxPasses (some limit)).resolve.run session =
        (.error (.failed (.passLimitExceeded exceeded)), last) →
      exceeded = limit ∧ last.worklist.isEmpty = false ∧
        last.passes = max limit session.passes ∧
        (typer.withMaxPasses looser).ComesTo session last ∧
        ∃ fuel, (typer.withMaxPasses looser).resolve.run session =
          ((typer.withMaxPasses looser).resolveWithin (fuel + 1)).run last := by
  refine ⟨resolve_withMaxPasses larger, fun exceeded last ended => ?_⟩
  have follows : ∀ {middle next}, (typer.withMaxPasses (some limit)).ComesTo session middle →
      (typer.withMaxPasses (some limit)).Advances middle next →
        (typer.withMaxPasses looser).Advances middle next :=
    fun _ advances => advances.loosen larger
  obtain ⟨left, middle, comes, alsoComes, run, alsoRun, ends⟩ := resolveWithin_lockstep
    (3 * ((typer.withMaxPasses (some limit)).nodeBound session + 1) + 2) follows
  rw [run_resolve, run] at ended
  rcases ends with rfl | ⟨fewer, outcome, rfl, halts⟩
  · cases ended
  · rw [run_resolveWithin_of_halts fewer halts] at ended
    rcases halts.loosen larger with ⟨_, unlimited⟩ | ⟨pending, reached, rfl⟩
    · exact absurd (congrArg Prod.fst ended) (unlimited exceeded)
    · cases ended
      obtain ⟨above, below⟩ := comes.passes_le
      refine ⟨rfl, pending, by omega, alsoComes, fewer, ?_⟩
      rw [run_resolve]
      exact alsoRun

/-- The choice and its alternative take three passes; after the first one the limit of one
pass is reached. -/
theorem passLimit_only_cuts_short_of_mutualChoice :
    (∀ other ∈ some 3, 1 ≤ other) ∧
    ∃ visited last, Returns plain.visitRoots (start mutualChoice .builtin ()) () visited ∧
      (plain.withMaxPasses (some 1)).resolve.run visited =
        (.error (.failed (.passLimitExceeded 1)), last) ∧
      last.worklist.isEmpty = false ∧ last.passes = 1 ∧
      (plain.withMaxPasses (some 3)).ComesTo visited last ∧
      (∃ fuel, (plain.withMaxPasses (some 3)).resolve.run visited =
        ((plain.withMaxPasses (some 3)).resolveWithin (fuel + 1)).run last) ∧
      ((plain.withMaxPasses (some 3)).resolve.run visited).1 = .ok () ∧
      (plain.withMaxPasses none).resolve.run visited =
        (plain.withMaxPasses (some 3)).resolve.run visited := by
  have larger : ∀ other ∈ some 3, 1 ≤ other := by decide
  have visits : Returns plain.visitRoots (start mutualChoice .builtin ()) ()
      (plain.visitRoots.run (start mutualChoice .builtin ())).2 :=
    returns_of_isOk (by decide +kernel)
  have limited : (plain.withMaxPasses (some 1)).resolve.run
      (plain.visitRoots.run (start mutualChoice .builtin ())).2 =
        (.error (.failed (.passLimitExceeded 1)), _) :=
    run_eq_of_answer (by decide +kernel)
  have ended : ((plain.withMaxPasses (some 3)).resolve.run
      (plain.visitRoots.run (start mutualChoice .builtin ())).2).1 = .ok () := by
    decide +kernel
  obtain ⟨_, pending, _, comes, onward⟩ :=
    (passLimit_only_cuts_short plain larger _).2 _ _ limited
  have none_larger : ∀ other ∈ (none : Option Nat), 3 ≤ other := nofun
  have unlimited := (passLimit_only_cuts_short plain none_larger
    (plain.visitRoots.run (start mutualChoice .builtin ())).2).1 fun exceeded given => by
      rw [ended] at given
      cases given
  exact ⟨larger, _, _, visits, limited, pending, by decide +kernel, comes, onward, ended,
    unlimited⟩

end PassLimits

end Typer

end DeferredTyping
