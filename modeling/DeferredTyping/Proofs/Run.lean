import DeferredTyping.Inference.Session

/-!
# Runs of inference steps

A run of a step always ends in a session, whether it ends with a value or
not.  The equations below say what session that is for each way of building
a step, and `Returns` is the relation between the two sessions of a run that
ends with a value.
-/

namespace DeferredTyping

/-- What a session knows of methods. -/
def Session.members {σ : Type} (session : Session σ) : Members where
  catalog := session.catalog
  methods := session.facts.methods

namespace Infer

variable {σ α β : Type}

/-- Steps that run alike are the same step. -/
theorem eq_of_run_eq {step other : Infer σ α}
    (same : ∀ session, step.run session = other.run session) : step = other :=
  funext same

@[simp] theorem run_pure (value : α) (session : Session σ) :
    (pure value : Infer σ α).run session = (.ok value, session) := rfl

theorem run_bind (step : Infer σ α) (next : α → Infer σ β)
    (session : Session σ) :
    (step >>= next).run session =
      match step.run session with
      | (.ok value, middle) => (next value).run middle
      | (.error stop, middle) => (.error stop, middle) := by
  simp only [Infer.run, ExceptT.run, StateT.run, bind, ExceptT.bind,
    ExceptT.mk, StateT.bind, ExceptT.bindCont, Id.run]
  rcases step session with ⟨answer, middle⟩
  cases answer <;> rfl

theorem run_map (function : α → β) (step : Infer σ α) (session : Session σ) :
    (function <$> step).run session =
      match step.run session with
      | (.ok value, after) => (.ok (function value), after)
      | (.error stop, after) => (.error stop, after) := by
  rw [← bind_pure_comp, run_bind]
  rfl

@[simp] theorem run_get (session : Session σ) :
    (get : Infer σ (Session σ)).run session = (.ok session, session) := rfl

@[simp] theorem run_set (value session : Session σ) :
    (set value : Infer σ PUnit).run session = (.ok ⟨⟩, value) := rfl

@[simp] theorem run_modify (change : Session σ → Session σ)
    (session : Session σ) :
    (modify change : Infer σ PUnit).run session = (.ok ⟨⟩, change session) := rfl

@[simp] theorem run_throw (stop : Stop) (session : Session σ) :
    (throw stop : Infer σ α).run session = (.error stop, session) := rfl

@[simp] theorem run_fail (error : TypeError) (session : Session σ) :
    (fail error : Infer σ α).run session = (.error (.failed error), session) := rfl

@[simp] theorem run_ofTree_ok (value : α) (session : Session σ) :
    (ofTree (.ok value) : Infer σ α).run session = (.ok value, session) := rfl

@[simp] theorem run_ofTree_error (cause : Breakage) (session : Session σ) :
    (ofTree (.error cause) : Infer σ α).run session =
      (.error (.failed (.broken cause)), session) := rfl

@[simp] theorem run_getFacts (session : Session σ) :
    (getFacts : Infer σ Facts).run session = (.ok session.facts, session) := rfl

@[simp] theorem run_getArena (session : Session σ) :
    (getArena : Infer σ Arena).run session =
      (.ok session.facts.arena, session) := rfl

@[simp] theorem run_modifyFacts (change : Facts → Facts) (session : Session σ) :
    (modifyFacts change : Infer σ Unit).run session =
      (.ok (), { session with facts := change session.facts }) := rfl

@[simp] theorem run_defer (id : NodeId) (session : Session σ) :
    (defer id : Infer σ Unit).run session =
      (.ok (), { session with worklist := session.worklist.push id }) := rfl

@[simp] theorem run_remember_some (id : NodeId) (ty : Ty) (session : Session σ) :
    (remember id (some ty)).run session =
      (.ok (some ty),
        { session with facts := session.facts.setNodeType id ty }) := rfl

@[simp] theorem run_remember_none (id : NodeId) (session : Session σ) :
    (remember id none).run session =
      (.ok none, { session with worklist := session.worklist.push id }) := rfl

@[simp] theorem run_ofLookup_ok (name : String) (arguments : List Ty)
    (location : Location) (method? : Option MethodType) (session : Session σ) :
    (ofLookup name arguments location (.ok method?)).run session =
      (.ok method?, session) := rfl

@[simp] theorem run_ofLookup_error (name : String) (arguments : List Ty)
    (location : Location) (definingClass : Ty) (session : Session σ) :
    (ofLookup name arguments location (.error definingClass)).run session =
      (.error (.failed
        (.ambiguousMethod definingClass name arguments location)), session) := rfl

@[simp] theorem run_getMembers (session : Session σ) :
    (getMembers : Infer σ Members).run session =
      (.ok session.members, session) := rfl

theorem run_findMethod (receiver : Ty) (name : String) (arguments : List Ty)
    (location : Location) (session : Session σ) :
    (findMethod receiver name arguments location).run session =
      (ofLookup name arguments location
        (session.members.find receiver name arguments)).run session := by
  rw [findMethod, run_bind, run_getMembers]

theorem run_findConstructor (definingClass : Ty) (arguments : List Ty)
    (location : Location) (session : Session σ) :
    (findConstructor definingClass arguments location).run session =
      (ofLookup "initialize" arguments location
        (session.members.findConstructor definingClass arguments)).run session := by
  rw [findConstructor, run_bind, run_getMembers]

theorem run_eq_of_answer {step : Infer σ α} {session : Session σ}
    {answer : Except Stop α} (ended : (step.run session).1 = answer) :
    step.run session = (answer, (step.run session).2) :=
  Prod.ext ended rfl

/-- A run from the first session ends with this value in the second one. -/
def Returns (step : Infer σ α) (before : Session σ) (value : α)
    (after : Session σ) : Prop :=
  step.run before = (.ok value, after)

theorem returns_of_isOk {step : Infer σ Unit} {session : Session σ}
    (success : (step.run session).1.isOk = true) :
    Returns step session () (step.run session).2 := by
  unfold Returns
  rcases run : step.run session with ⟨answer, after⟩
  rw [run] at success
  cases answer with
  | error stop => cases success
  | ok value => rfl

theorem returns_bind {step : Infer σ α} {next : α → Infer σ β}
    {before after : Session σ} {value : β} :
    Returns (step >>= next) before value after ↔
      ∃ first middle, Returns step before first middle ∧
        Returns (next first) middle value after := by
  unfold Returns
  rw [run_bind]
  rcases step.run before with ⟨answer, middle⟩
  cases answer with
  | ok first =>
      constructor
      · intro returned
        exact ⟨first, middle, rfl, returned⟩
      · rintro ⟨_, _, ⟨⟩, returned⟩
        exact returned
  | error stop => simp

theorem returns_map {function : α → β} {step : Infer σ α}
    {before after : Session σ} {value : β} :
    Returns (function <$> step) before value after ↔
      ∃ first, Returns step before first after ∧ function first = value := by
  unfold Returns
  rw [run_map]
  rcases step.run before with ⟨answer, middle⟩
  cases answer with
  | ok first =>
      constructor
      · rintro ⟨⟩
        exact ⟨first, rfl, rfl⟩
      · rintro ⟨_, ⟨⟩, rfl⟩
        rfl
  | error stop => simp

@[simp] theorem returns_pure {value result : α} {before after : Session σ} :
    Returns (pure value) before result after ↔
      value = result ∧ before = after := by
  simp [Returns]

@[simp] theorem returns_get {value before after : Session σ} :
    Returns get before value after ↔ before = value ∧ before = after := by
  simp [Returns]

@[simp] theorem returns_set {session before after : Session σ} {value : PUnit} :
    Returns (set session) before value after ↔ session = after := by
  simp [Returns]

@[simp] theorem returns_modify {change : Session σ → Session σ}
    {before after : Session σ} {value : PUnit} :
    Returns (modify change) before value after ↔ change before = after := by
  simp [Returns]

@[simp] theorem returns_fail {error : TypeError} {before after : Session σ}
    {value : α} : ¬ Returns (fail error) before value after := by
  simp [Returns]

@[simp] theorem returns_ofTree {answer : Except Breakage α}
    {before after : Session σ} {value : α} :
    Returns (ofTree answer) before value after ↔
      answer = .ok value ∧ before = after := by
  cases answer with
  | ok result => simp [Returns]
  | error cause => simp [Returns]

@[simp] theorem returns_ofLookup {name : String} {arguments : List Ty}
    {location : Location} {answer : LookupResult} {before after : Session σ}
    {method? : Option MethodType} :
    Returns (ofLookup name arguments location answer) before method? after ↔
      answer = .ok method? ∧ before = after := by
  cases answer with
  | ok result => simp [Returns]
  | error definingClass => simp [Returns]

theorem returns_findMethod {receiver : Ty} {name : String}
    {arguments : List Ty} {location : Location} {before after : Session σ}
    {method? : Option MethodType} :
    Returns (findMethod receiver name arguments location) before method? after ↔
      before.members.find receiver name arguments = .ok method? ∧
        before = after := by
  unfold Returns
  rw [run_findMethod]
  exact returns_ofLookup

theorem returns_findConstructor {definingClass : Ty} {arguments : List Ty}
    {location : Location} {before after : Session σ}
    {method? : Option MethodType} :
    Returns (findConstructor definingClass arguments location) before method?
        after ↔
      before.members.findConstructor definingClass arguments = .ok method? ∧
        before = after := by
  unfold Returns
  rw [run_findConstructor]
  exact returns_ofLookup

@[simp] theorem returns_getFacts {before after : Session σ} {facts : Facts} :
    Returns getFacts before facts after ↔
      before.facts = facts ∧ before = after := by
  simp [Returns]

@[simp] theorem returns_getArena {before after : Session σ} {arena : Arena} :
    Returns getArena before arena after ↔
      before.facts.arena = arena ∧ before = after := by
  simp [Returns]

@[simp] theorem returns_modifyFacts {change : Facts → Facts}
    {before after : Session σ} {value : Unit} :
    Returns (modifyFacts change) before value after ↔
      { before with facts := change before.facts } = after := by
  simp [Returns]

@[simp] theorem returns_remember_some {id : NodeId} {ty : Ty}
    {before after : Session σ} {result : Option Ty} :
    Returns (remember id (some ty)) before result after ↔
      some ty = result ∧
        { before with facts := before.facts.setNodeType id ty } = after := by
  simp [Returns]

@[simp] theorem returns_remember_none {id : NodeId}
    {before after : Session σ} {result : Option Ty} :
    Returns (remember id none) before result after ↔
      none = result ∧
        { before with worklist := before.worklist.push id } = after := by
  simp [Returns]

/-- A run that does not end with a value is cut short at its first step that
does not. -/
theorem run_bind_of_error {step : Infer σ α} {next : α → Infer σ β}
    {session after : Session σ} {stop : Stop}
    (stopped : step.run session = (.error stop, after)) :
    (step >>= next).run session = (.error stop, after) := by
  rw [run_bind, stopped]

theorem run_bind_of_returns {step : Infer σ α} {next : α → Infer σ β}
    {session middle : Session σ} {value : α}
    (returned : Returns step session value middle) :
    (step >>= next).run session = (next value).run middle := by
  rw [run_bind, returned]

end Infer

end DeferredTyping
