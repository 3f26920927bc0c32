import DeferredTyping.Proofs.Learning

/-!
# Looks that find no clash

Two methods clash when they return different types for the same parameters, or when neither is
more specific for the arguments of a call.  Of all that rules look at, only calls on methods find
such a clash.  A `CalmStep` looks at anything else.
-/

namespace DeferredTyping

variable {σ α β : Type}

/-- Methods that do not go together. -/
def TypeError.isClash : TypeError → Bool
  | .conflictingMethod .. | .ambiguousMethod .. => true
  | _ => false

/-- The step ended for methods that do not go together. -/
def Stop.isClash : Stop → Bool
  | .failed error => error.isClash
  | .exhausted => false

theorem Stop.isClash_of_not_isFault {stop : Stop} (driver : stop.isFault = false) :
    stop.isClash = false := by
  cases stop with
  | exhausted => rfl
  | failed error =>
      cases error with
      | cannotInfer _ | passLimitExceeded _ => rfl
      | _ => cases driver

/-- A step that only looks at the session, and finds no clash. -/
structure CalmStep (step : Infer σ α) : Prop extends ReadStep step where
  calm : ∀ {session : Session σ} {stop : Stop},
    (step.run session).1 = .error stop → stop.isClash = false

open Infer

namespace CalmStep

protected theorem pure (value : α) : CalmStep (pure value : Infer σ α) where
  toReadStep := .pure value
  calm stopped := by simp at stopped

protected theorem fail {error : TypeError} (ordinary : error.isOrdinary = true)
    (calm : error.isClash = false) :
    CalmStep (fail error : Infer σ α) where
  toReadStep := .fail ordinary
  calm := by
    rintro session stop ⟨⟩
    exact calm

protected theorem ofTree {answer : Except Breakage α} (blames : BlamesTree answer) :
    CalmStep (ofTree answer : Infer σ α) := by
  cases answer with
  | ok value => exact CalmStep.pure value
  | error cause => exact CalmStep.fail (blames rfl) rfl

protected theorem bind {step : Infer σ α} {next : α → Infer σ β}
    (first : CalmStep step) (second : ∀ value, CalmStep (next value)) :
    CalmStep (step >>= next) where
  toReadStep := first.toReadStep.bind fun value => (second value).toReadStep
  calm {session stop} stopped := by
    have quiet := @CalmStep.calm _ _ _ first session stop
    rw [run_bind] at stopped
    rcases run : step.run session with ⟨answer, middle⟩
    rw [run] at quiet stopped
    cases answer with
    | error cause =>
        cases stopped
        exact quiet rfl
    | ok value => exact (second value).calm stopped

protected theorem read {next : Session σ → Infer σ α}
    (indifferent : ∀ {left right}, left.Alike right → next left = next right)
    (later : ∀ session, CalmStep (next session)) :
    CalmStep (get >>= next) where
  toReadStep := .read indifferent fun session => (later session).toReadStep
  calm {session _} stopped := (later session).calm stopped

theorem getFacts : CalmStep (getFacts : Infer σ Facts) :=
  .read (fun alike => by rw [alike.facts]) fun _ => .pure _

theorem getArena : CalmStep (getArena : Infer σ Arena) :=
  .read (fun alike => by rw [alike.facts]) fun _ => .pure _

theorem locationOf (id : NodeId) : CalmStep (locationOf id : Infer σ Location) :=
  getArena.bind fun arena =>
    (CalmStep.ofTree (arena.require_blamesTree id)).bind fun _ => .pure _

theorem isParent (expected given : Ty) : CalmStep (isParent expected given : Infer σ Bool) :=
  .read (fun alike => by rw [alike.catalog]) fun _ => .pure _

theorem localRead (id : NodeId) (name : String) : CalmStep (localRead id name : Infer σ _) :=
  getArena.bind fun arena =>
    (CalmStep.ofTree (arena.scopeOf_blamesTree id)).bind fun _ =>
    getFacts.bind fun _ => .pure _

end CalmStep

end DeferredTyping
