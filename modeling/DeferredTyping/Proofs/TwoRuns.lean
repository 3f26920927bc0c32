import DeferredTyping.Proofs.Sides

/-!
# The driver on a tree and on its part

The two runs share no clock: a pass of the whole may be productive on the outside alone, and
a last chance is then taken away from the inside or kept from it.  It makes no difference.
An idle pass leaves the inside as it was, so the part either waits with its last chance until
the whole run offers one, or it is stuck, and then the whole run never comes to an end.
-/

namespace DeferredTyping

variable {σ : Type}

open Infer

namespace Division

variable {division : Division} {typer : Typer σ}

section Passes

variable (scripted : typer.config.scriptClass = division.scriptClass)
  (declines : typer.expander.Declines)

include scripted declines

protected theorem Tracks.infer {side : Bool} {id : NodeId} (within : division.inside id = side) :
    division.Tracks side (division.FitsAnswer side) (typer.infer id) (typer.infer id) :=
  fun _ _ mirrors => .get (Tracks.node scripted declines _ _ within _ _ mirrors)

/-- Nodes of both sides are visited in turn; the part visits those inside. -/
protected theorem Tracks.each (ids : List NodeId) :
    division.Tracks true (fun _ => True) (each typer.infer ids)
      (each typer.infer (ids.filter division.inside)) := by
  induction ids with
  | nil => exact .pure trivial
  | cons id rest ih =>
      cases within : division.inside id with
      | true =>
          rw [List.filter_cons_of_pos within]
          exact (Tracks.infer scripted declines within).bind fun _ => ih
      | false =>
          rw [List.filter_cons_of_neg (by simp [within])]
          exact (Tracks.infer scripted declines within).passOver fun _ => ih

variable (acyclic : division.own.Acyclic)

include acyclic

/-- Without cycles the part never runs out of fuel. -/
theorem each_followed {ids : List NodeId} {whole part after : Session σ}
    (mirrors : division.Mirrors whole part)
    (returned : Returns (each typer.infer ids) whole () after) :
    ∃ later, Returns (each typer.infer (ids.filter division.inside)) part () later ∧
      division.Mirrors after later := by
  rcases Tracks.each scripted declines ids _ _ mirrors _ _ returned with
    ⟨later, matched, mirrors, _⟩ | exhausted
  · exact ⟨later, matched, mirrors⟩
  · have stops : StopsBy division.own (fun stop => stop.isFault = true)
        (each typer.infer (ids.filter division.inside)) :=
      Typer.each_stopsBy (fun id => Typer.infer_stopsBy_fault declines acyclic id) _
    cases stops.stops ⟨mirrors.facts.ownArena, mirrors.facts.ownUnexpanded⟩ exhausted

/-- A pass of the whole is a pass of the part; what is productive inside is productive. -/
theorem pass_followed {whole part after : Session σ} {productive : Bool}
    (mirrors : division.Mirrors whole part)
    (passed : (pass typer.infer).run whole = (.ok productive, after)) :
    ∃ own later, (pass typer.infer).run part = (.ok own, later) ∧ division.Mirrors after later ∧
      (own = true → productive = true) := by
  have started : division.Mirrors (passStart whole) (passStart part) :=
    { mirrors with queue := rfl, consistent := fun _ => Iff.rfl, ownConsistent := fun _ => Iff.rfl }
  rcases run_pass typer.infer whole with ⟨_, _, _, run⟩ | ⟨other, visited, run⟩
  · rw [run] at passed
    cases passed
  rw [run] at passed
  cases passed
  obtain ⟨later, matched, mirrored⟩ := each_followed scripted declines acyclic started visited
  rw [← mirrors.queue] at matched
  rcases run_pass typer.infer part with ⟨_, _, stopped, _⟩ | ⟨other, visited, run⟩
  · rw [matched] at stopped
    cases stopped
  rw [matched] at visited
  cases visited
  refine ⟨_, _, run, mirrored, fun some => ?_⟩
  obtain ⟨id, queued, typed⟩ := List.any_eq_true.mp some
  rw [mirrors.queue] at queued
  obtain ⟨member, within⟩ := List.mem_filter.mp queued
  refine List.any_eq_true.mpr ⟨id, member, ?_⟩
  rw [Table.contains, ← mirrored.facts.nodeTypes id within]
  exact typed

end Passes

end Division

namespace Typer

variable {typer : Typer σ} {tree : Arena}

section Turns

variable (unlimited : typer.config.maxPasses = none)

theorem resolveWithin_of_isEmpty
    (fuel : Nat) {session : Session σ} (empty : session.worklist.isEmpty = true) :
    (typer.resolveWithin (fuel + 1)).run session = (.ok (), session) := by
  have turn := typer.turn fuel session
  generalize (typer.resolveWithin (fuel + 1)).run session = outcome at turn ⊢
  cases turn with
  | done _ => rfl
  | limited pending _ | stopped pending _ | productive pending _ | lastChance pending _ _
  | stuck pending _ _ =>
      rw [empty] at pending
      cases pending

include unlimited

theorem resolveWithin_of_productive
    (fuel : Nat) {session after : Session σ} (pending : session.worklist.isEmpty = false)
    (passed : (pass typer.infer).run session = (.ok true, after)) :
    (typer.resolveWithin (fuel + 1)).run session =
      (typer.resolveWithin fuel).run { after with lastChance := false } := by
  have turn := typer.turn fuel session
  generalize (typer.resolveWithin (fuel + 1)).run session = outcome at turn ⊢
  cases turn with
  | done empty =>
      rw [pending] at empty
      cases empty
  | limited _ bound =>
      rw [unlimited] at bound
      cases bound
  | stopped _ other | lastChance _ other _ | stuck _ other _ =>
      rw [passed] at other
      cases other
  | productive _ other =>
      rw [passed] at other
      cases other
      rfl

theorem resolveWithin_of_idle
    (fuel : Nat) {session after : Session σ} (pending : session.worklist.isEmpty = false)
    (passed : (pass typer.infer).run session = (.ok false, after))
    (left : (typer.config.lastChance && !after.lastChance) = true) :
    (typer.resolveWithin (fuel + 1)).run session =
      (typer.resolveWithin fuel).run { after with lastChance := true } := by
  have turn := typer.turn fuel session
  generalize (typer.resolveWithin (fuel + 1)).run session = outcome at turn ⊢
  cases turn with
  | done empty =>
      rw [pending] at empty
      cases empty
  | limited _ bound =>
      rw [unlimited] at bound
      cases bound
  | stopped _ other | productive _ other =>
      rw [passed] at other
      cases other
  | lastChance _ other _ =>
      rw [passed] at other
      cases other
      rfl
  | stuck _ other none =>
      rw [passed] at other
      cases other
      rw [left] at none
      cases none

end Turns

/-- A pass with or without a last chance types nothing and leaves the session alike. -/
def Rests (typer : Typer σ) (lastChance : Bool) (session : Session σ) : Prop :=
  ∃ later, (pass typer.infer).run { session with lastChance } = (.ok false, later) ∧
    later.Alike { session with lastChance } ∧ later.worklist.queue = session.worklist.queue

theorem rests_of_idle
    (declines : typer.expander.Declines) {session after : Session σ}
    (ready : session.Ready tree) (lined : session.Lined tree)
    (passed : (pass typer.infer).run session = (.ok false, after)) :
    typer.Rests session.lastChance session :=
  ⟨after, passed, { pass_idle_alike declines ready passed with },
    pass_idle_queue declines lined passed⟩

theorem rests_again
    (declines : typer.expander.Declines) {session after : Session σ}
    (ready : session.Ready tree) (lined : session.Lined tree)
    (passed : (pass typer.infer).run session = (.ok false, after)) :
    typer.Rests after.lastChance after := by
  obtain ⟨later, again, _, _⟩ := pass_again declines ready passed
  exact rests_of_idle declines (pass_ready declines ready passed).1
    (pass_lined declines lined passed) again

theorem rests_of_empty
    (lastChance : Bool) {session : Session σ} (empty : session.worklist.queue = []) :
    typer.Rests lastChance session := by
  refine ⟨passStart { session with lastChance }, ?_, ⟨rfl, rfl, rfl, rfl, rfl⟩, empty.symm⟩
  rcases run_pass typer.infer { session with lastChance } with ⟨stop, other, visited, _⟩ |
    ⟨other, visited, run⟩
  · rw [empty] at visited
    cases visited
  · rw [empty] at visited run
    cases visited
    exact run

end Typer

namespace Division

open Typer (Rests)

variable {division : Division} {typer : Typer σ}

theorem Mirrors.withLastChance {whole part : Session σ} (mirrors : division.Mirrors whole part)
    (lastChance : Bool) :
    division.Mirrors { whole with lastChance } { part with lastChance } :=
  { mirrors with lastChance := rfl }

theorem Mirrors.ofAlike {whole part other : Session σ} (mirrors : division.Mirrors whole part)
    (alike : part.Alike other) (queue : part.worklist.queue = other.worklist.queue)
    (consistent : other.worklist.Consistent) : division.Mirrors whole other where
  facts := alike.facts ▸ mirrors.facts
  catalog := mirrors.catalog
  ownCatalog := alike.catalog ▸ mirrors.ownCatalog
  constructors := alike.declaredConstructors ▸ mirrors.constructors
  lastChance := alike.lastChance ▸ mirrors.lastChance
  queue := queue ▸ mirrors.queue
  consistent := mirrors.consistent
  ownConsistent := consistent

/-- Where the part stands while the driver goes on.  It is as far as the whole, and rests
without a last chance if it has one; or it waits with its last chance for the whole. -/
inductive Paired (division : Division) (typer : Typer σ) (whole part : Session σ) : Prop where
  | together (mirrors : division.Mirrors whole part)
      (rested : part.lastChance = true → typer.Rests false part)
  | waiting (mirrors : division.Mirrors whole { part with lastChance := false })
      (chance : part.lastChance = true) (rested : typer.Rests false part)

/-- Either way the part mirrors the whole, the last chance aside. -/
theorem Paired.mirrors {whole part : Session σ} (paired : division.Paired typer whole part) :
    division.Mirrors whole { part with lastChance := whole.lastChance } := by
  cases paired with
  | together mirrors _ => exact mirrors.lastChance ▸ mirrors
  | waiting mirrors _ _ => exact mirrors.lastChance ▸ mirrors

/-- The run of the part ends, and leaves behind what the whole run did about the inside, unless
it runs out of fuel. -/
def EndsAlike (division : Division) (typer : Typer σ) (fuel : Nat) (part last : Session σ) :
    Prop :=
  (∃ ownLast, Returns (typer.resolveWithin fuel) part () ownLast ∧
    division.FactsMirror last.facts ownLast.facts) ∨
  ((typer.resolveWithin fuel).run part).1 = .error .exhausted

theorem EndsAlike.ofRun {fuel other : Nat} {part later last : Session σ}
    (step : (typer.resolveWithin other).run part = (typer.resolveWithin fuel).run later)
    (ends : division.EndsAlike typer fuel later last) :
    division.EndsAlike typer other part last := by
  unfold EndsAlike Returns at ends ⊢
  rwa [step]

section Simulation

variable (scripted : typer.config.scriptClass = division.scriptClass)
  (declines : typer.expander.Declines) (acyclic : division.own.Acyclic)

include scripted declines acyclic

/-- A part that rests stays as it is while the whole goes on. -/
theorem mirrors_of_rests {whole part after : Session σ} {productive lastChance : Bool}
    (mirrors : division.Mirrors whole { part with lastChance })
    (rests : typer.Rests lastChance part)
    (passed : (pass typer.infer).run whole = (.ok productive, after)) :
    division.Mirrors after { part with lastChance } := by
  obtain ⟨own, later, run, mirrored, _⟩ :=
    pass_followed scripted declines acyclic mirrors passed
  obtain ⟨other, idle, alike, queue⟩ := rests
  rw [idle] at run
  cases run
  exact mirrored.ofAlike alike queue mirrors.ownConsistent

/-- While a part that has something to do rests with and without a last chance, the whole run
does not end. -/
theorem never_done (fuel : Nat) {whole part last : Session σ}
    (mirrors : division.Mirrors whole { part with lastChance := whole.lastChance })
    (pending : part.worklist.queue ≠ []) (now : typer.Rests whole.lastChance part)
    (without : typer.Rests false part)
    (within : typer.config.lastChance = true → typer.Rests true part) :
    ¬ Returns (typer.resolveWithin fuel) whole () last := by
  induction fuel generalizing whole with
  | zero => exact fun returned => by cases returned
  | succ fuel ih =>
      intro returned
      have turn := typer.turn fuel whole
      rw [Returns] at returned
      generalize (typer.resolveWithin (fuel + 1)).run whole = outcome at turn returned
      cases turn with
      | done empty =>
          have none := mirrors.queue
          rw [List.isEmpty_iff.mp empty] at none
          exact pending none
      | limited _ _ | stopped _ _ | stuck _ _ _ => cases returned
      | productive _ passed =>
          have kept := mirrors_of_rests scripted declines acyclic mirrors now passed
          exact ih (kept.withLastChance false) without returned
      | lastChance _ passed left =>
          have kept := mirrors_of_rests scripted declines acyclic mirrors now passed
          have chance := (Bool.and_eq_true_iff.mp left).1
          exact ih (kept.withLastChance true) (within chance) returned

/-- A part that is done stays as it is. -/
theorem stays_done (fuel : Nat) {whole part last : Session σ}
    (mirrors : division.Mirrors whole { part with lastChance := whole.lastChance })
    (empty : part.worklist.queue = [])
    (returned : Returns (typer.resolveWithin fuel) whole () last) :
    division.FactsMirror last.facts part.facts := by
  induction fuel generalizing whole with
  | zero => cases returned
  | succ fuel ih =>
      have turn := typer.turn fuel whole
      rw [Returns] at returned
      generalize (typer.resolveWithin (fuel + 1)).run whole = outcome at turn returned
      cases turn with
      | done _ =>
          cases returned
          exact mirrors.facts
      | limited _ _ | stopped _ _ | stuck _ _ _ => cases returned
      | productive _ passed =>
          have kept := mirrors_of_rests scripted declines acyclic mirrors
            (Typer.rests_of_empty _ empty) passed
          exact ih (kept.withLastChance false) returned
      | lastChance _ passed _ =>
          have kept := mirrors_of_rests scripted declines acyclic mirrors
            (Typer.rests_of_empty _ empty) passed
          exact ih (kept.withLastChance true) returned

variable (unlimited : typer.config.maxPasses = none)

include unlimited

section Turns

variable {fuel ownFuel : Nat} {whole part after last : Session σ}
  (ih : ∀ ownFuel {whole part : Session σ}, part.Ready division.own → part.Lined division.own →
    division.Paired typer whole part → Returns (typer.resolveWithin fuel) whole () last →
    division.EndsAlike typer ownFuel part last)
  (pending : part.worklist.isEmpty = false)
  (ready : part.Ready division.own) (lined : part.Lined division.own)
  (mirrors : division.Mirrors whole part)

include ih pending ready lined mirrors

/-- After a productive pass of the whole: if it was productive inside, both go on without a
last chance; else the part is offered its last chance and waits, or is stuck. -/
theorem productive_followed
    (rested : part.lastChance = true → typer.Rests false part)
    (passed : (pass typer.infer).run whole = (.ok true, after))
    (returned : Returns (typer.resolveWithin fuel) { after with lastChance := false } () last) :
    division.EndsAlike typer (ownFuel + 1) part last := by
  obtain ⟨own, later, run, mirrored, _⟩ :=
    pass_followed scripted declines acyclic mirrors passed
  have ready' := (Typer.pass_ready declines ready run).1
  have lined' := Typer.pass_lined declines lined run
  have onward := mirrored.withLastChance false
  cases own with
  | true =>
      have step := typer.resolveWithin_of_productive unlimited ownFuel pending run
      exact .ofRun step <| ih ownFuel (ready'.withLastChance false) (lined'.withLastChance false)
        (.together onward fun chance => by cases chance) returned
  | false =>
      have now := Typer.rests_of_idle declines ready lined run
      have nonempty : part.worklist.queue ≠ [] := by simpa [Worklist.isEmpty] using pending
      have stuck : typer.Rests false part →
          (typer.config.lastChance = true → typer.Rests true part) → False := by
        intro without within
        have kept := mirrors_of_rests scripted declines acyclic mirrors now passed
        exact never_done scripted declines acyclic fuel (kept.withLastChance false) nonempty
          without without within returned
      cases chance : part.lastChance with
      | true => exact (stuck (rested chance) fun _ => chance ▸ now).elim
      | false =>
          by_cases offered : typer.config.lastChance = true
          · have without : later.lastChance = false :=
              (Typer.pass_idle_alike declines ready run).lastChance.trans chance
            have step := typer.resolveWithin_of_idle unlimited ownFuel pending run
              (by rw [offered, without]; rfl)
            have again := Typer.rests_again declines ready lined run
            exact .ofRun step <| ih ownFuel (ready'.withLastChance true)
              (lined'.withLastChance true) (.waiting onward rfl (without ▸ again)) returned
          · exact (stuck (chance ▸ now) fun given => absurd given offered).elim

/-- A pass of the whole that is idle was idle inside, and both are offered a last chance. -/
theorem lastChance_followed
    (passed : (pass typer.infer).run whole = (.ok false, after))
    (left : (typer.config.lastChance && !after.lastChance) = true)
    (returned : Returns (typer.resolveWithin fuel) { after with lastChance := true } () last) :
    division.EndsAlike typer (ownFuel + 1) part last := by
  obtain ⟨own, later, run, mirrored, productive⟩ :=
    pass_followed scripted declines acyclic mirrors passed
  cases own with
  | true => cases productive rfl
  | false =>
      have step := typer.resolveWithin_of_idle unlimited ownFuel pending run
        (mirrored.lastChance ▸ left)
      have ready' := (Typer.pass_ready declines ready run).1
      have lined' := Typer.pass_lined declines lined run
      have again := Typer.rests_again declines ready lined run
      have without : later.lastChance = false := by
        rw [mirrored.lastChance]
        simpa using (Bool.and_eq_true_iff.mp left).2
      exact .ofRun step <| ih ownFuel (ready'.withLastChance true) (lined'.withLastChance true)
        (.together (mirrored.withLastChance true) fun _ => without ▸ again) returned

end Turns

/-- When the whole run ends, so does the run of the part, if it does not run out of fuel; and
what it leaves behind is what the whole run left behind about the inside. -/
theorem resolveWithin_followed (fuel ownFuel : Nat) {whole part last : Session σ}
    (ready : part.Ready division.own) (lined : part.Lined division.own)
    (paired : division.Paired typer whole part)
    (returned : Returns (typer.resolveWithin fuel) whole () last) :
    division.EndsAlike typer ownFuel part last := by
  induction fuel generalizing ownFuel whole part with
  | zero => cases returned
  | succ fuel ih =>
      cases ownFuel with
      | zero => exact .inr rfl
      | succ ownFuel =>
          by_cases empty : part.worklist.queue = []
          · have isEmpty : part.worklist.isEmpty = true := List.isEmpty_iff.mpr empty
            exact .inl ⟨part, typer.resolveWithin_of_isEmpty ownFuel isEmpty,
              stays_done scripted declines acyclic (fuel + 1) paired.mirrors empty returned⟩
          · have pending : part.worklist.isEmpty = false := by simpa [Worklist.isEmpty] using empty
            have turn := typer.turn fuel whole
            rw [Returns] at returned
            generalize (typer.resolveWithin (fuel + 1)).run whole = outcome at turn returned
            cases turn with
            | done none =>
                have queue : part.worklist.queue = whole.worklist.queue.filter division.inside :=
                  paired.mirrors.queue
                rw [List.isEmpty_iff.mp none] at queue
                exact absurd queue empty
            | limited _ _ | stopped _ _ | stuck _ _ _ => cases returned
            | productive _ passed =>
                cases paired with
                | together mirrors rested =>
                    exact productive_followed scripted declines acyclic unlimited ih pending ready
                      lined mirrors rested passed returned
                | waiting mirrors chance rested =>
                    have kept := mirrors_of_rests scripted declines acyclic mirrors rested passed
                    exact ih (ownFuel + 1) ready lined
                      (.waiting (kept.withLastChance false) chance rested) returned
            | @lastChance after _ passed left =>
                cases paired with
                | together mirrors rested =>
                    exact lastChance_followed scripted declines acyclic unlimited ih pending ready
                      lined mirrors passed left returned
                | waiting mirrors chance rested =>
                    have kept := mirrors_of_rests scripted declines acyclic mirrors rested passed
                    have same : { part with lastChance := true } = part := by
                      rw [← chance]
                    have onward : division.Mirrors { after with lastChance := true } part :=
                      same ▸ kept.withLastChance true
                    exact ih (ownFuel + 1) ready lined (.together onward fun _ => rested) returned

end Simulation

end Division

end DeferredTyping
