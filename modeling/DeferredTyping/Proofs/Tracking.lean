import DeferredTyping.Proofs.Mirrors
import DeferredTyping.Proofs.QueueOrder

/-!
# Steps that a part follows

A session of the part mirrors one of the whole when its facts do and when it defers the same
nodes of the inside in the same order.  A step of the whole session is followed when it is
matched by a step of the part, if it belongs to the inside, or leaves the part as it is, if it
belongs to the outside.  Only writing to the session depends on the side; everything that is
built of followed steps is followed.  The two runs have different bounds on their depth, so
the part may run out of fuel.
-/

namespace DeferredTyping

variable {σ : Type}

open Infer

namespace Division

variable (division : Division)

/-- The answer of a visit on the inside is over known names. -/
def FitsAnswer (side : Bool) (answer : Option Ty) : Prop :=
  ∀ ty, answer = some ty → division.Fits side ty

/-- The answers of visits on the inside are over known names. -/
def FitsAnswers (side : Bool) (answer : Option (List Ty)) : Prop :=
  ∀ types, answer = some types → ∀ ty ∈ types, division.Fits side ty

/-- The session of the part is the one of the whole as far as the inside goes. -/
structure Mirrors (whole part : Session σ) : Prop where
  facts : division.FactsMirror whole.facts part.facts
  catalog : whole.catalog = division.classes
  ownCatalog : part.catalog = division.ownClasses
  constructors : ∀ ty, ty.usesOnly division.known = true →
    part.declaredConstructors.contains ty = whole.declaredConstructors.contains ty
  lastChance : part.lastChance = whole.lastChance
  queue : part.worklist.queue = whole.worklist.queue.filter division.inside
  consistent : whole.worklist.Consistent
  ownConsistent : part.worklist.Consistent

/-- The session that a step of the part reads: on the outside there is no such step, and the
whole session may stand for the one of the part. -/
def seen (side : Bool) (whole part : Session σ) : Session σ :=
  if side then part else whole

/-- A step that belongs to a side is followed from these sessions.  What the step answers
satisfies a condition. -/
def Follows (side : Bool) {α : Type} (holds : α → Prop) (whole part : Session σ)
    (step other : Infer σ α) : Prop :=
  ∀ value after, Returns step whole value after →
    match side with
    | true =>
        (∃ later, Returns other part value later ∧ division.Mirrors after later ∧ holds value) ∨
        (other.run part).1 = .error .exhausted
    | false => division.Mirrors after part ∧ holds value

/-- A step that belongs to a side is followed from all sessions that mirror each other. -/
def Tracks (side : Bool) {α : Type} (holds : α → Prop) (step other : Infer σ α) : Prop :=
  ∀ whole part : Session σ, division.Mirrors whole part →
    division.Follows side holds whole part step other

end Division

namespace Division

variable {division : Division} {side : Bool} {whole part : Session σ} {α β : Type}

namespace Mirrors

variable (mirrors : division.Mirrors whole part)

include mirrors

theorem withFacts {facts own : Facts} (mirror : division.FactsMirror facts own) :
    division.Mirrors { whole with facts } { part with facts := own } :=
  { mirrors with facts := mirror }

theorem defer (id : NodeId) :
    division.Mirrors { whole with worklist := whole.worklist.push id }
      (if division.inside id then { part with worklist := part.worklist.push id } else part) := by
  have consistent := mirrors.consistent.push id
  have queue := mirrors.consistent.queue_push id
  split
  · rename_i within
    refine { mirrors with
      consistent, ownConsistent := mirrors.ownConsistent.push id, queue := ?_ }
    have queued : id ∈ part.worklist.queue ↔ id ∈ whole.worklist.queue := by
      simp [mirrors.queue, within]
    dsimp only
    rw [mirrors.ownConsistent.queue_push, queue, mirrors.queue]
    rw [mirrors.queue] at queued
    simp only [queued]
    split
    · rfl
    · simp [within]
  · rename_i outside
    refine { mirrors with consistent, queue := ?_ }
    rw [mirrors.queue, queue]
    split
    · rfl
    · simp [outside]

theorem members : Members.Agrees division.known whole.members part.members where
  toAgrees := by
    rw [Session.members, Session.members, mirrors.catalog, mirrors.ownCatalog]
    exact division.agrees
  wholeKnows := by
    rw [Session.members, mirrors.catalog]
    exact division.knows
  partKnows := by
    rw [Session.members, mirrors.ownCatalog]
    exact division.ownKnows
  only := mirrors.facts.methodTables
  entries := mirrors.facts.methods

theorem seen_tree (answer : Arena → β)
    (same : side = true → answer division.own = answer division.tree) :
    answer (seen side whole part).facts.arena = answer division.tree := by
  cases side with
  | false => exact congrArg answer mirrors.facts.arena
  | true => exact (congrArg answer mirrors.facts.ownArena).trans (same rfl)

theorem seen_lastChance : (seen side whole part).lastChance = whole.lastChance := by
  cases side with
  | false => rfl
  | true => exact mirrors.lastChance

section Facts

variable {id : NodeId} (within : division.inside id = side)

include within

theorem seen_nodeType? :
    (seen side whole part).facts.nodeType? id = whole.facts.nodeType? id := by
  cases side with
  | false => rfl
  | true => exact mirrors.facts.nodeTypes id within

theorem seen_argumentTypes? :
    (seen side whole part).facts.argumentTypes? id = whole.facts.argumentTypes? id := by
  cases side with
  | false => rfl
  | true => exact mirrors.facts.argumentTypes id within

theorem seen_signature? :
    (seen side whole part).facts.signature? id = whole.facts.signature? id := by
  cases side with
  | false => rfl
  | true => exact mirrors.facts.signatureTables id within

theorem seen_definingClass :
    (seen side whole part).facts.definingClasses.get? id =
      whole.facts.definingClasses.get? id := by
  cases side with
  | false => rfl
  | true => exact mirrors.facts.definingClasses id within

theorem seen_delegateTarget :
    (seen side whole part).facts.delegateTargets.contains id =
      whole.facts.delegateTargets.contains id := by
  cases side with
  | false => rfl
  | true => exact congrArg Option.isSome (mirrors.facts.delegateTargets id within)

theorem seen_own? (name : String) :
    (seen side whole part).facts.scopes.own? id name = whole.facts.scopes.own? id name := by
  cases side with
  | false => rfl
  | true => exact mirrors.facts.own?_eq within name

theorem seen_owner (name : String) :
    (seen side whole part).facts.scopes.owner (seen side whole part).facts.arena id name =
      whole.facts.scopes.owner whole.facts.arena id name := by
  cases side with
  | false => rfl
  | true => exact mirrors.facts.owner_eq within name

theorem seen_localType? (name : String) :
    (seen side whole part).facts.localType? id name = whole.facts.localType? id name := by
  cases side with
  | false => rfl
  | true => exact mirrors.facts.localType?_eq within name

end Facts

theorem seen_resolve {text : String} (spells : side = true → Catalog.Spells division.known text) :
    (seen side whole part).catalog.resolve text = whole.catalog.resolve text := by
  cases side with
  | false => rfl
  | true =>
      rw [mirrors.catalog]
      exact mirrors.ownCatalog ▸ division.agrees.resolve_eq (spells rfl)

theorem seen_resolveSignature {declared : DeclaredSignature}
    (spells : side = true → ∀ text ∈ declared.texts, Catalog.Spells division.known text) :
    (seen side whole part).catalog.resolveSignature declared =
      whole.catalog.resolveSignature declared := by
  cases side with
  | false => rfl
  | true =>
      rw [mirrors.catalog]
      exact mirrors.ownCatalog ▸ division.agrees.resolveSignature_eq (spells rfl)

section Types

variable {expected given : Ty} (expectedFits : division.Fits side expected)
  (givenFits : division.Fits side given)

include expectedFits

theorem seen_declaredConstructors :
    (seen side whole part).declaredConstructors.contains expected =
      whole.declaredConstructors.contains expected := by
  cases side with
  | false => rfl
  | true => exact mirrors.constructors expected (expectedFits rfl)

include givenFits

theorem seen_isParent :
    (seen side whole part).catalog.isParent expected given =
      whole.catalog.isParent expected given := by
  cases side with
  | false => rfl
  | true =>
      rw [mirrors.catalog]
      exact mirrors.ownCatalog ▸ division.agrees.isParent_eq (expectedFits rfl) (givenFits rfl)

theorem seen_join? :
    Assignable.join? (seen side whole part).catalog.isParent expected given =
      Assignable.join? whole.catalog.isParent expected given := by
  cases side with
  | false => rfl
  | true =>
      rw [mirrors.catalog]
      exact mirrors.ownCatalog ▸ division.agrees.join?_eq (expectedFits rfl) (givenFits rfl)

end Types

section Calls

variable {target : Ty} {types : List Ty} (targetFits : division.Fits side target)
  (typesFit : ∀ ty ∈ types, division.Fits side ty)

include targetFits typesFit

theorem seen_find (name : String) :
    (seen side whole part).members.find target name types =
      whole.members.find target name types := by
  cases side with
  | false => rfl
  | true =>
      exact mirrors.members.find_eq (fun ty member => typesFit ty member rfl) name (targetFits rfl)

theorem seen_findConstructor :
    (seen side whole part).members.findConstructor target types =
      whole.members.findConstructor target types := by
  cases side with
  | false => rfl
  | true =>
      exact mirrors.members.declared_eq (fun ty member => typesFit ty member rfl) _
        (targetFits rfl)

end Calls

end Mirrors

namespace Follows

variable {holds : α → Prop} {kept : β → Prop} {step other : Infer σ α}

protected theorem bind {next onward : α → Infer σ β}
    (first : division.Follows side holds whole part step other)
    (second : ∀ {value}, holds value → division.Tracks side kept (next value) (onward value)) :
    division.Follows side kept whole part (step >>= next) (other >>= onward) := by
  intro value after returned
  obtain ⟨result, middle, begun, ended⟩ := returns_bind.mp returned
  have followed := first result middle begun
  cases side with
  | false => exact second followed.2 _ _ followed.1 _ _ ended
  | true =>
      rcases followed with ⟨between, matched, mirrors, held⟩ | exhausted
      · rcases second held _ _ mirrors _ _ ended with ⟨later, onward, mirrors', held'⟩ | exhausted
        · exact .inl ⟨later, returns_bind.mpr ⟨result, between, matched, onward⟩, mirrors', held'⟩
        · exact .inr (by rw [run_bind_of_returns matched, exhausted])
      · exact .inr (by rw [run_bind_of_error (run_eq_of_answer exhausted)])

protected theorem pure {value : α} (mirrors : division.Mirrors whole part)
    (held : holds value) :
    division.Follows side holds whole part (pure value) (pure value) := by
  intro result after returned
  obtain ⟨rfl, rfl⟩ := returns_pure.mp returned
  cases side with
  | false => exact ⟨mirrors, held⟩
  | true => exact .inl ⟨part, returns_pure.mpr ⟨rfl, rfl⟩, mirrors, held⟩

protected theorem fail (error : TypeError) :
    division.Follows side holds whole part (fail error) other :=
  fun _ _ returned => absurd returned returns_fail

protected theorem get {next onward : Session σ → Infer σ α}
    (follows : division.Follows side holds whole part (next whole)
      (onward (seen side whole part))) :
    division.Follows side holds whole part (get >>= next) (get >>= onward) := by
  cases side with
  | false => exact follows
  | true => exact follows

protected theorem getFacts {next onward : Facts → Infer σ α}
    (follows : division.Follows side holds whole part (next whole.facts)
      (onward (seen side whole part).facts)) :
    division.Follows side holds whole part (getFacts >>= next) (getFacts >>= onward) := by
  cases side with
  | false => exact follows
  | true => exact follows

theorem ofTree {answer : Except Breakage β} {next onward : β → Infer σ α}
    (later : ∀ value, answer = .ok value →
      division.Follows side holds whole part (next value) (onward value)) :
    division.Follows side holds whole part (Infer.ofTree answer >>= next)
      (Infer.ofTree answer >>= onward) := by
  cases answer with
  | error cause => exact fun _ _ returned => absurd returned (by simp [Returns, run_bind])
  | ok value => exact later value rfl

/-- The tree answers alike on the inside. -/
theorem ofArena {next onward : β → Infer σ α} (answer : Arena → Except Breakage β)
    (mirrors : division.Mirrors whole part)
    (same : side = true → answer division.own = answer division.tree)
    (later : ∀ value, answer division.tree = .ok value →
      division.Follows side holds whole part (next value) (onward value)) :
    division.Follows side holds whole part
      (getArena >>= fun arena => Infer.ofTree (answer arena) >>= next)
      (getArena >>= fun arena => Infer.ofTree (answer arena) >>= onward) := by
  refine Follows.get (?_ : division.Follows _ _ _ _
    (Infer.ofTree (answer whole.facts.arena) >>= next)
    (Infer.ofTree (answer (seen side whole part).facts.arena) >>= onward))
  rw [mirrors.seen_tree answer same, mirrors.facts.arena]
  exact Follows.ofTree later

/-- A change of the facts that keeps the part alike. -/
protected theorem modifyFacts {change another : Facts → Facts} {kept : Unit → Prop}
    (mirrors : division.Mirrors whole part)
    (matched : division.FactsMirror (change whole.facts)
      (if side then another part.facts else part.facts))
    (held : kept ()) :
    division.Follows side kept whole part (modifyFacts change) (modifyFacts another) := by
  intro value after returned
  obtain rfl := returns_modifyFacts.mp returned
  cases side with
  | false => exact ⟨mirrors.withFacts matched, held⟩
  | true => exact .inl ⟨_, returns_modifyFacts.mpr rfl, mirrors.withFacts matched, held⟩

end Follows

namespace Tracks

variable {holds : α → Prop} {kept : β → Prop} {step other : Infer σ α} {id : NodeId}

protected theorem bind {next onward : α → Infer σ β}
    (first : division.Tracks side holds step other)
    (second : ∀ {value}, holds value → division.Tracks side kept (next value) (onward value)) :
    division.Tracks side kept (step >>= next) (other >>= onward) :=
  fun _ _ mirrors => (first _ _ mirrors).bind second

/-- The part passes over a step that belongs to the outside. -/
theorem passOver {next : α → Infer σ β} {onward : Infer σ β}
    (outside : division.Tracks false holds step other)
    (inside : ∀ {value}, holds value → division.Tracks true kept (next value) onward) :
    division.Tracks true kept (step >>= next) onward := by
  intro whole part mirrors value after returned
  obtain ⟨result, middle, begun, ended⟩ := returns_bind.mp returned
  obtain ⟨between, held⟩ := outside _ _ mirrors _ _ begun
  exact inside held _ _ between _ _ ended

protected theorem pure {value : α} (held : holds value) :
    division.Tracks side holds (pure value : Infer σ α) (pure value) :=
  fun _ _ mirrors => .pure mirrors held

protected theorem map {function : α → β} (first : division.Tracks side holds step other)
    (held : ∀ {value}, holds value → kept (function value)) :
    division.Tracks side kept (function <$> step) (function <$> other) := by
  rw [← bind_pure_comp, ← bind_pure_comp]
  exact first.bind fun found => Tracks.pure (held found)

protected theorem locationOf (within : division.inside id = side) :
    division.Tracks side (fun _ => True) (locationOf id : Infer σ Location) (locationOf id) :=
  fun _ _ mirrors => .ofArena (·.require id) mirrors
    (fun inside => Arena.require_only_of_inside (within.trans inside))
    fun _ _ => .pure mirrors trivial

protected theorem isParent {expected given : Ty} (expectedFits : division.Fits side expected)
    (givenFits : division.Fits side given) :
    division.Tracks side (fun _ => True) (isParent expected given : Infer σ Bool)
      (isParent expected given) := by
  intro whole part mirrors
  refine .get ?_
  rw [mirrors.seen_isParent expectedFits givenFits]
  exact .pure mirrors trivial

/-- The node is on the side of the step, so whatever is kept for it is over known names if
the side is the inside. -/
protected theorem remember {inferred : Option Ty} (within : division.inside id = side)
    (fits : division.FitsAnswer side inferred) :
    division.Tracks side (division.FitsAnswer side) (remember id inferred : Infer σ (Option Ty))
      (remember id inferred) := by
  subst within
  intro whole part mirrors
  cases inferred with
  | some ty =>
      exact Follows.bind (.modifyFacts mirrors (mirrors.facts.setNodeType (fits ty rfl)) trivial)
        fun {_} (_ : True) => Tracks.pure fits
  | none =>
      have deferred : division.Follows (division.inside id) (fun _ => True) whole part
          (defer id) (defer id) := by
        intro value after returned
        obtain rfl := returns_modify.mp returned
        have later := mirrors.defer id
        split
        · rename_i within
          rw [if_pos within] at later
          exact .inl ⟨_, returns_modify.mpr rfl, later, trivial⟩
        · rename_i outside
          rw [if_neg (by simp [outside])] at later
          exact ⟨later, trivial⟩
      exact deferred.bind fun _ => Tracks.pure nofun

protected theorem ofLookup {name : String} {arguments : List Ty} {location : Location}
    {answer : LookupResult} {holds : Option MethodType → Prop}
    (held : ∀ method?, answer = .ok method? → holds method?) :
    division.Tracks side holds (ofLookup name arguments location answer : Infer σ _)
      (ofLookup name arguments location answer) := by
  cases answer with
  | ok method? => exact Tracks.pure (held method? rfl)
  | error definingClass => exact fun _ _ _ => Follows.fail _

section Calls

variable {target : Ty} {types : List Ty} (targetFits : division.Fits side target)
  (typesFit : ∀ ty ∈ types, division.Fits side ty)

include targetFits typesFit

/-- A call on known types means the same method, which returns a known type. -/
protected theorem findMethod {name : String} {location : Location} :
    division.Tracks side
      (fun method? => division.FitsAnswer side (method?.map MethodType.returnType))
      (findMethod target name types location : Infer σ (Option MethodType))
      (findMethod target name types location) := by
  intro whole part mirrors
  refine Follows.get (?_ : division.Follows _ _ _ _
    (Infer.ofLookup name types location (whole.members.find target name types))
    (Infer.ofLookup name types location ((seen side whole part).members.find target name types)))
  rw [mirrors.seen_find targetFits typesFit]
  refine Tracks.ofLookup ?_ _ _ mirrors
  intro method? found ty returns inside
  obtain ⟨method, rfl, rfl⟩ := Option.map_eq_some_iff.mp returns
  exact mirrors.members.usesOnly_of_find (targetFits inside) found

protected theorem findConstructor {location : Location} :
    division.Tracks side (fun _ => True)
      (findConstructor target types location : Infer σ (Option MethodType))
      (findConstructor target types location) := by
  intro whole part mirrors
  refine Follows.get (?_ : division.Follows _ _ _ _
    (Infer.ofLookup _ types location (whole.members.findConstructor target types))
    (Infer.ofLookup _ types location
      ((seen side whole part).members.findConstructor target types)))
  rw [mirrors.seen_findConstructor targetFits typesFit]
  exact Tracks.ofLookup (fun _ _ => trivial) _ _ mirrors

end Calls

protected theorem learnLocal {scope : NodeId} {name : String} {ty : Ty} {location : Location}
    (within : division.inside scope = side) (fits : division.Fits side ty) :
    division.Tracks side (division.Fits side)
      (learnLocal scope name ty location : Infer σ Ty) (learnLocal scope name ty location) := by
  intro whole part mirrors
  have ownerSide := (mirrors.facts.inside_owner scope name).trans within
  refine .get ?_
  dsimp only
  rw [mirrors.seen_owner within, mirrors.seen_own? ownerSide]
  cases known : whole.facts.scopes.own?
      (whole.facts.scopes.owner whole.facts.arena scope name) name with
  | some existing =>
      have existingFits : division.Fits side existing := ownerSide ▸ mirrors.facts.locals known
      dsimp only
      rw [mirrors.seen_isParent existingFits fits]
      split
      · exact .pure mirrors existingFits
      · exact .fail _
  | none =>
      have ownerFits : division.Fits
          (division.inside (whole.facts.scopes.owner whole.facts.arena scope name)) ty :=
        ownerSide ▸ fits
      have bind := mirrors.facts.bindLocal name ownerFits
      rw [ownerSide] at bind
      exact Follows.bind (.modifyFacts mirrors bind trivial)
        fun {_} (_ : True) => Tracks.pure fits

/-- The class that defines a method tells the side of the step. -/
protected theorem learnMethod {method : MethodType} {location : Location}
    (defined : method.definingClass.usesOnly division.known = side)
    (fits : side = true → method.UsesOnly division.known) :
    division.Tracks side (fun _ => True) (learnMethod method location : Infer σ Ty)
      (learnMethod method location) := by
  intro whole part mirrors value after returned
  obtain ⟨learned, success, rfl, rfl⟩ := returns_learnMethod returned
  have mirror :=
    mirrors.facts.learnMethod (fun isKnown => fits (defined.symm.trans isKnown)) success
  rw [defined] at mirror
  cases side with
  | false => exact ⟨mirrors.withFacts mirror, trivial⟩
  | true =>
      obtain ⟨kept, matched, mirror⟩ := mirror
      refine .inl ⟨_, ?_, mirrors.withFacts mirror, trivial⟩
      simp [Infer.learnMethod, Returns, run_bind, run_map, matched]

end Tracks

end Division

end DeferredTyping
