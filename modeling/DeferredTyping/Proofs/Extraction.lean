import DeferredTyping.Proofs.Construction

/-!
# Splitting off a delegation

What a constructor opens with is read off the tree before anything is changed, and only the
reading can be refused: the new node takes an id that no node has, it carries the parent that
its slot asks for, and the slot is the one that was just read.  Splitting off is therefore the
same whether it is applied as a whole or step by step.
-/

namespace DeferredTyping

/-- The call is what a node of this kind makes. -/
def Delegation.IsMadeBy (call : Delegation) (kind : Kind NodeId) : Prop :=
  match call with
  | .this arguments => ∃ closure, kind = .functionalCall "initialize" arguments closure
  | .super arguments => kind = .superCall arguments

theorem Delegation.ofKind?_eq_some_iff {kind : Kind NodeId} {call : Delegation} :
    ofKind? kind = some call ↔ call.IsMadeBy kind := by
  constructor
  · intro made
    unfold ofKind? at made
    split at made
    · rename_i name parameters closure
      split at made
      · rename_i named
        cases made
        exact ⟨closure, by rw [beq_iff_eq.mp named]⟩
      · cases made
    · cases made
      rfl
    · cases made
  · intro made
    cases call with
    | this arguments =>
        obtain ⟨closure, rfl⟩ := made
        rfl
    | super arguments =>
        obtain rfl := made
        rfl

namespace Kind

theorem replaceFirst?_body (old new : NodeId) (rest : List NodeId) :
    (body (old :: rest)).replaceFirst? old new = some (body (new :: rest)) := by
  have run : ((body (old :: rest)).mapChildrenM (swapFirst old new)).run false =
      (body (new :: rest), true) := by
    show (body <$> (old :: rest).mapM (swapFirst old new)).run false = _
    rw [StateT.run_map, run_swapAll_here]
    rfl
  rw [replaceFirst?, run]

/-- The body of a method is replaced when it is not its list of parameters. -/
theorem replaceFirst?_methodBody
    {method : Method NodeId} {old : NodeId} (single : method.body = some old)
    (apart : method.arguments ≠ old) (new : NodeId) :
    (methodDefinition method).replaceFirst? old new =
      some (methodDefinition { method with body := some new }) := by
  have missed : (swapFirst old new method.arguments).run false = (method.arguments, false) := by
    simp only [swapFirst, beq_eq_false_iff_ne.mpr apart]
    rfl
  have met : (swapFirst old new old).run false = (new, true) := by
    simp only [swapFirst, BEq.rfl]
    rfl
  have run : ((methodDefinition method).mapChildrenM (swapFirst old new)).run false =
      (methodDefinition { method with body := some new }, true) := by
    simp only [mapChildrenM, single, Option.mapM_some, StateT.run_bind, missed]
    exact congrArg (fun found : NodeId × Bool =>
      (methodDefinition { method with body := some found.1 }, found.2)) met
  rw [replaceFirst?, run]

end Kind

/-- What a constructor opens with: a delegation call, and the node that holds it. -/
structure Opening where
  constructor : Node
  method : Method NodeId
  holder : NodeId
  first : NodeId
  call : Delegation

/-- The node that takes the place of the call. -/
def Opening.noop (opening : Opening) (id : NodeId) : Node where
  id := id
  parent := some opening.holder
  location := opening.constructor.location
  kind := .noop

namespace Arena

variable {arena after : Arena} {id : NodeId}

/-- The leading statement of a constructor and its holder: the first statement of a body that
is a list, or else the body itself. -/
inductive Leads (arena : Arena) (id body : NodeId) : NodeId → NodeId → Prop where
  | list {node : Node} {first : NodeId} {rest : List NodeId}
      (present : arena.find? body = some node) (kind : node.kind = .body (first :: rest)) :
      Leads arena id body body first
  | single {node : Node} (present : arena.find? body = some node)
      (kind : ∀ statements, node.kind ≠ .body statements) : Leads arena id body id body

/-- The node is a constructor without delegation whose leading statement is an unqualified
call named `initialize` or a call of `super`. -/
structure Opens (arena : Arena) (id : NodeId) (opening : Opening) : Prop where
  present : arena.find? id = some opening.constructor
  kind : opening.constructor.kind = .methodDefinition opening.method
  constructs : opening.method.isConstructor = true
  undelegated : opening.method.thisArgs = none ∧ opening.method.superArgs = none
  leads : ∃ body, opening.method.body = some body ∧
    arena.Leads id body opening.holder opening.first
  calls : ∃ statement, arena.find? opening.first = some statement ∧
    opening.call.IsMadeBy statement.kind

/-- A node that does nothing is added, its slot no longer holds the call, and the constructor
records the arguments of the call; everything else is as it was. -/
structure SplitsOff (before : Arena) (id : NodeId) (opening : Opening) (after : Arena) :
    Prop where
  unused : before.find? before.nextId = none
  nextId : after.nextId = before.nextId + 1
  noop : after.find? before.nextId = some (opening.noop before.nextId)
  list : opening.holder ≠ id → ∃ node rest, before.find? opening.holder = some node ∧
    node.kind = .body (opening.first :: rest) ∧
    after.find? opening.holder = some { node with kind := .body (before.nextId :: rest) }
  constructor : after.find? id = some { opening.constructor with
    kind := .methodDefinition <| opening.call.record { opening.method with
      body := if opening.holder = id then some before.nextId else opening.method.body } }
  others : ∀ {other}, other ≠ before.nextId → other ≠ id → other ≠ opening.holder →
    after.find? other = before.find? other

/-- No id is in two child slots. -/
def HoldsOnce (arena : Arena) : Prop :=
  ∀ {first second child : NodeId} {left right : Nat},
    (arena.children first)[left]? = some child →
    (arena.children second)[right]? = some child → first = second ∧ left = right

/-- Reads what a constructor opens with, if it has a delegation to split off. -/
def opening? (arena : Arena) (id : NodeId) : Except TreeError (Option Opening) := do
  let constructor ← arena.node id
  match constructor.kind with
  | .methodDefinition method =>
      unless method.isConstructor do
        throw (.notAConstructor id)
      if method.thisArgs.isSome || method.superArgs.isSome then
        return none
      let some body := method.body | return none
      let some (holder, first) ← arena.leadingStatement? id body | return none
      match Delegation.ofKind? (← arena.node first).kind with
      | some call => return some { constructor, method, holder, first, call }
      | none => return none
  | _ => throw (.notAConstructor id)

theorem node_of_find? {node : Node} (present : arena.find? id = some node) :
    arena.node id = .ok node := by
  rw [Arena.node, present]

theorem leadingStatement?_eq_some_iff {body holder first : NodeId} :
    arena.leadingStatement? id body = .ok (some (holder, first)) ↔
      arena.Leads id body holder first := by
  constructor
  · intro leading
    obtain ⟨node, present, read⟩ := exists_of_bind_eq_ok leading
    have found := find?_of_node present
    split at read
    · cases read
    · rename_i kind
      cases read
      exact .list found kind
    · rename_i empty filled
      cases read
      refine .single found ?_
      rintro (_ | ⟨head, rest⟩) kind
      · exact empty kind
      · exact filled head rest kind
  · intro leads
    cases leads with
    | list present kind =>
        simp only [leadingStatement?, node_of_find? present, bind, Except.bind, kind]
        rfl
    | @single node present kind =>
        simp only [leadingStatement?, node_of_find? present, bind, Except.bind]
        split
        · rename_i empty
          exact absurd empty (kind _)
        · rename_i filled
          exact absurd filled (kind _)
        · rfl

/-- Splitting off is reading first and detaching then. -/
theorem extractDelegation_eq (arena : Arena) (id : NodeId) :
    arena.extractDelegation id = (do
      match ← arena.opening? id with
      | some opening =>
          arena.detach opening.constructor opening.holder opening.first opening.call
      | none => return arena) := by
  unfold extractDelegation opening?
  cases arena.node id with
  | error cause => rfl
  | ok constructor =>
      obtain ⟨_, _, _, kind⟩ := constructor
      cases kind with
      | methodDefinition method =>
          obtain ⟨_, _, _, _, body, _, _⟩ := method
          simp only [bind, Except.bind]
          split
          · split
            · rfl
            · cases body with
              | none => rfl
              | some body =>
                  dsimp only
                  cases arena.leadingStatement? id body with
                  | error cause => rfl
                  | ok leading =>
                      obtain _ | ⟨holder, first⟩ := leading
                      · rfl
                      · dsimp only
                        cases arena.node first with
                        | error cause => rfl
                        | ok statement =>
                            dsimp only
                            cases Delegation.ofKind? statement.kind <;> rfl
          · rfl
      | _ => rfl

theorem opening?_eq_some_iff {opening : Opening} :
    arena.opening? id = .ok (some opening) ↔ arena.Opens id opening := by
  constructor
  · intro read
    obtain ⟨constructor, present, reads⟩ := exists_of_bind_eq_ok read
    split at reads
    · rename_i method kind
      by_cases constructs : method.isConstructor
      · rw [if_pos constructs] at reads
        split at reads
        · cases reads
        · rename_i undelegated
          split at reads
          · rename_i body stated
            obtain ⟨leading, leads, follows⟩ := exists_of_bind_eq_ok reads
            split at follows
            · rename_i holder first
              obtain ⟨statement, stands, calls⟩ := exists_of_bind_eq_ok follows
              split at calls
              · rename_i call made
                cases calls
                exact {
                  present := find?_of_node present
                  kind
                  constructs
                  undelegated := by simpa using undelegated
                  leads := ⟨body, stated, leadingStatement?_eq_some_iff.mp leads⟩
                  calls := ⟨statement, find?_of_node stands,
                    Delegation.ofKind?_eq_some_iff.mp made⟩ }
              · cases calls
            · cases follows
          · cases reads
      · rw [if_neg constructs] at reads
        cases reads
    · cases reads
  · intro opens
    obtain ⟨body, stated, leads⟩ := opens.leads
    obtain ⟨statement, stands, made⟩ := opens.calls
    obtain ⟨noThis, noSuper⟩ := opens.undelegated
    simp only [opening?, node_of_find? opens.present, opens.kind, opens.constructs, noThis,
      noSuper, stated, leadingStatement?_eq_some_iff.mpr leads, node_of_find? stands,
      Delegation.ofKind?_eq_some_iff.mpr made, bind, Except.bind]
    rfl

theorem add_of_unused {node : Node} (positive : node.id ≠ 0)
    (unused : arena.find? node.id = none) :
    arena.add node = .ok {
      nodes := arena.nodes.insert node.id node, nextId := max arena.nextId (node.id + 1) } := by
  have free : arena.nodes.contains node.id = false := by
    rw [Table.contains]
    exact congrArg Option.isSome unused
  simp [add, positive, free]

theorem replaceChild_of_refilled
    {parent old new : NodeId} {newNode node : Node} {kind : Kind NodeId}
    (present : arena.find? new = some newNode) (carried : newNode.parent = some parent)
    (held : arena.find? parent = some node)
    (refilled : node.kind.replaceFirst? old new = some kind) :
    arena.replaceChild parent old new = .ok (arena.setKind parent kind) := by
  simp [replaceChild, node_of_find? present, node_of_find? held, carried, refilled, bind,
    Except.bind]
  rfl

@[simp] theorem nextId_setKind (arena : Arena) (id : NodeId) (kind : Kind NodeId) :
    (arena.setKind id kind).nextId = arena.nextId := by
  unfold setKind
  split <;> rfl

/-- Records the arguments of a delegation in the constructor of this id. -/
def recordCall (arena : Arena) (id : NodeId) (call : Delegation) : Arena :=
  match arena.method? id with
  | some method => arena.setKind id (.methodDefinition (call.record method))
  | none => arena

theorem recordCall_of_method? {method : Method NodeId} (defines : arena.method? id = some method)
    (call : Delegation) :
    arena.recordCall id call = arena.setKind id (.methodDefinition (call.record method)) := by
  rw [recordCall, defines]

theorem detach_eq (arena : Arena) (opening : Opening) :
    arena.detach opening.constructor opening.holder opening.first opening.call = (do
      let grown ← arena.reserve.2.add (opening.noop arena.nextId)
      let edited ← grown.replaceChild opening.holder opening.first arena.nextId
      return edited.recordCall opening.constructor.id opening.call) := by
  refine bind_congr fun grown => bind_congr fun edited => ?_
  rw [recordCall]
  cases edited.method? opening.constructor.id <;> rfl

/-- The call is replaced where the id is unused and the slot is there; what is left to do then
cannot fail. -/
theorem detach_of_refilled
    {opening : Opening} {node : Node} {kind : Kind NodeId}
    (positive : arena.nextId ≠ 0) (unused : arena.find? arena.nextId = none)
    (held : arena.find? opening.holder = some node)
    (refilled : node.kind.replaceFirst? opening.first arena.nextId = some kind) :
    ∃ edited : Arena, edited.nextId = arena.nextId + 1 ∧
      edited.find? arena.nextId = some (opening.noop arena.nextId) ∧
      edited.find? opening.holder = some { node with kind } ∧
      (∀ {other}, other ≠ arena.nextId → other ≠ opening.holder →
        edited.find? other = arena.find? other) ∧
      arena.detach opening.constructor opening.holder opening.first opening.call =
        .ok (edited.recordCall opening.constructor.id opening.call) := by
  have different : opening.holder ≠ arena.nextId := by
    intro same
    rw [same, unused] at held
    cases held
  obtain ⟨grown, added, numbered⟩ : ∃ grown : Arena,
      arena.reserve.2.add (opening.noop arena.nextId) = .ok grown ∧
        grown.nextId = arena.nextId + 1 :=
    ⟨_, add_of_unused positive unused, Nat.max_self _⟩
  obtain ⟨_, stored, others⟩ := find?_add added
  have still : grown.find? opening.holder = some node := (others different).trans held
  have replaced := replaceChild_of_refilled stored rfl still refilled
  refine ⟨grown.setKind opening.holder kind, by simpa using numbered,
    (find?_setKind_of_ne grown kind different.symm).trans stored,
    find?_setKind_self kind still,
    fun apart elsewhere =>
      (find?_setKind_of_ne grown kind elsewhere).trans (others apart), ?_⟩
  rw [detach_eq, added]
  exact congrArg (· >>= fun edited : Arena =>
    .ok (edited.recordCall opening.constructor.id opening.call)) replaced

theorem Leads.list_or_single
    {body holder first : NodeId} (leads : arena.Leads id body holder first) :
    (∃ node rest, arena.find? holder = some node ∧ node.kind = .body (first :: rest)) ∨
      holder = id ∧ first = body := by
  cases leads with
  | list present kind => exact .inl ⟨_, _, present, kind⟩
  | single _ _ => exact .inr ⟨rfl, rfl⟩

theorem HoldsOnce.arguments_ne_body
    (once : arena.HoldsOnce) {node : Node} {method : Method NodeId} {body : NodeId}
    (present : arena.find? id = some node) (kind : node.kind = .methodDefinition method)
    (stated : method.body = some body) : method.arguments ≠ body := by
  intro same
  have children : arena.children id = [body, body] := by
    rw [children_of_find? present, Node.children, kind, Kind.children, stated, same]
    rfl
  have front : (arena.children id)[0]? = some body := by rw [children]; rfl
  have back : (arena.children id)[1]? = some body := by rw [children]; rfl
  cases (once front back).2

section

variable {opening : Opening} (named : opening.constructor.id = id)
  (opens : arena.Opens id opening)

include opens

theorem Opens.extractDelegation_eq :
    arena.extractDelegation id =
      arena.detach opening.constructor opening.holder opening.first opening.call := by
  rw [Arena.extractDelegation_eq, opening?_eq_some_iff.mpr opens]
  rfl

variable (positive : arena.nextId ≠ 0) (unused : arena.find? arena.nextId = none)
  (apart : id ≠ arena.nextId)

include named positive unused apart

theorem Opens.splitsOff_of_list
    {node : Node} {rest : List NodeId} (held : arena.find? opening.holder = some node)
    (kind : node.kind = .body (opening.first :: rest)) :
    ∃ after, arena.extractDelegation id = .ok after ∧ arena.SplitsOff id opening after := by
  have elsewhere : opening.holder ≠ id := by
    intro same
    rw [same, opens.present] at held
    cases held
    cases opens.kind.symm.trans kind
  have refilled : node.kind.replaceFirst? opening.first arena.nextId =
      some (.body (arena.nextId :: rest)) := by
    rw [kind]
    exact Kind.replaceFirst?_body opening.first arena.nextId rest
  obtain ⟨edited, numbered, noop, list, others, detached⟩ :=
    detach_of_refilled positive unused held refilled
  have still := (others apart elsewhere.symm).trans opens.present
  have defines : edited.method? id = some opening.method := by
    rw [method?, still]
    exact Kind.method?_eq_some_iff.mpr opens.kind
  rw [named, recordCall_of_method? defines] at detached
  refine ⟨_, opens.extractDelegation_eq.trans detached, unused, ?_, ?_, ?_, ?_, ?_⟩
  · rw [nextId_setKind]
    exact numbered
  · exact (find?_setKind_of_ne edited _ apart.symm).trans noop
  · exact fun _ => ⟨node, rest, held, kind,
      (find?_setKind_of_ne edited _ elsewhere).trans list⟩
  · rw [if_neg elsewhere]
    exact find?_setKind_self _ still
  · exact fun later other holds =>
      (find?_setKind_of_ne edited _ other).trans (others later holds)

theorem Opens.splitsOff_of_single
    (same : opening.holder = id) (stated : opening.method.body = some opening.first)
    (separate : opening.method.arguments ≠ opening.first) :
    ∃ after, arena.extractDelegation id = .ok after ∧ arena.SplitsOff id opening after := by
  have refilled : opening.constructor.kind.replaceFirst? opening.first arena.nextId =
      some (.methodDefinition { opening.method with body := some arena.nextId }) := by
    rw [opens.kind]
    exact Kind.replaceFirst?_methodBody stated separate arena.nextId
  obtain ⟨edited, numbered, noop, still, others, detached⟩ :=
    detach_of_refilled positive unused (same ▸ opens.present) refilled
  rw [same] at still others
  have defines : edited.method? id =
      some { opening.method with body := some arena.nextId } := by
    rw [method?, still]
    rfl
  rw [named, recordCall_of_method? defines] at detached
  refine ⟨_, opens.extractDelegation_eq.trans detached, unused, ?_, ?_, ?_, ?_, ?_⟩
  · rw [nextId_setKind]
    exact numbered
  · exact (find?_setKind_of_ne edited _ apart.symm).trans noop
  · exact fun different => absurd same different
  · rw [if_pos same, find?_setKind_self _ still]
  · exact fun later other _ =>
      (find?_setKind_of_ne edited _ other).trans (others later other)

end

/-- Where every id is smaller than the next one and no id is in two slots, a delegation that
was read is split off. -/
theorem Opens.exists_splitsOff
    {opening : Opening} (opens : arena.Opens id opening) (keyed : arena.Keyed)
    (fresh : ∀ {other node}, arena.find? other = some node → other < arena.nextId)
    (once : arena.HoldsOnce) :
    ∃ after, arena.extractDelegation id = .ok after ∧ arena.SplitsOff id opening after := by
  have named := keyed.id_eq opens.present
  have positive : arena.nextId ≠ 0 := Nat.ne_of_gt (Nat.zero_lt_of_lt (fresh opens.present))
  have apart : id ≠ arena.nextId := Nat.ne_of_lt (fresh opens.present)
  have unused : arena.find? arena.nextId = none := by
    cases found : arena.find? arena.nextId with
    | none => rfl
    | some node => exact absurd (fresh found) (Nat.lt_irrefl _)
  obtain ⟨body, stated, leads⟩ := opens.leads
  rcases leads.list_or_single with ⟨node, rest, held, kind⟩ | ⟨same, rfl⟩
  · exact opens.splitsOff_of_list named positive unused apart held kind
  · exact opens.splitsOff_of_single named positive unused apart same stated
      (once.arguments_ne_body opens.present opens.kind stated)

/-- A constructor that records a delegation is left alone. -/
theorem extractDelegation_of_recorded
    {constructor : Node} {method : Method NodeId} {call : Delegation}
    (present : arena.find? id = some constructor)
    (kind : constructor.kind = .methodDefinition (call.record method))
    (constructs : method.isConstructor = true) :
    arena.extractDelegation id = .ok arena := by
  have still : (call.record method).isConstructor = true := by
    cases call <;> exact constructs
  have recorded : ((call.record method).thisArgs.isSome ||
      (call.record method).superArgs.isSome) = true := by
    cases call <;> simp [Delegation.record]
  simp only [extractDelegation, node_of_find? present, kind, still, recorded, bind, Except.bind]
  rfl

/-- The constructor has one delegation afterwards: the call, and not one of each kind. -/
theorem SplitsOff.exclusive
    {opening : Opening} (opens : arena.Opens id opening)
    (split : arena.SplitsOff id opening after) :
    ∃ later, after.method? id = some later ∧ Delegation.ofMethod? later = some opening.call ∧
      (later.thisArgs = none ∨ later.superArgs = none) := by
  obtain ⟨noThis, noSuper⟩ := opens.undelegated
  have defines := congrArg (Option.bind · fun node => node.kind.method?) split.constructor
  refine ⟨_, defines, ?_, ?_⟩
  · cases opening.call <;> simp [Delegation.record, Delegation.ofMethod?, noThis]
  · cases opening.call <;> simp [Delegation.record, noThis, noSuper]

/-- What was split off is not split off again. -/
theorem SplitsOff.extractDelegation
    {opening : Opening} (opens : arena.Opens id opening)
    (split : arena.SplitsOff id opening after) :
    after.extractDelegation id = .ok after :=
  extractDelegation_of_recorded split.constructor rfl opens.constructs

/-- Without a delegation to split off, a constructor is left alone. -/
theorem eq_of_extractDelegation
    (closed : ∀ opening, ¬ arena.Opens id opening)
    (extracted : arena.extractDelegation id = .ok after) :
    after = arena := by
  rw [extractDelegation_eq] at extracted
  obtain ⟨opening?, read, detached⟩ := exists_of_bind_eq_ok extracted
  cases opening? with
  | none =>
      cases detached
      rfl
  | some opening => exact absurd (opening?_eq_some_iff.mp read) (closed opening)

end Arena

namespace Build

open Arena

/-- Splits a delegation off step by step: an id is handed out, a node is added under it, the
slot of the call is refilled and the arguments are recorded.  A step that is refused keeps the
ones before it. -/
def splitOff (id : NodeId) : Build Unit := do
  let builder ← get
  match builder.arena.opening? id with
  | .error cause => throw cause
  | .ok none => pure ()
  | .ok (some opening) =>
      let (noop, _) ← reserve
      edit fun arena => arena.add (opening.noop noop)
      edit fun arena => arena.replaceChild opening.holder opening.first noop
      edit fun arena => return arena.recordCall id opening.call

theorem exec_get (builder : Builder) :
    exec (get : Build Builder) builder = (.ok builder, builder) := rfl

theorem exec_reserve (builder : Builder) :
    ∃ location, exec reserve builder = (.ok (builder.arena.nextId, location),
      { builder with arena := builder.arena.reserve.2 }) :=
  ⟨_, rfl⟩

/-- Where detaching succeeds, all its steps do. -/
theorem exec_splitOff_of_detach
    {builder : Builder} {id : NodeId} {opening : Opening} {after : Arena}
    (named : opening.constructor.id = id)
    (read : builder.arena.opening? id = .ok (some opening))
    (detached : builder.arena.detach opening.constructor opening.holder opening.first
      opening.call = .ok after) :
    exec (splitOff id) builder = (.ok (), { builder with arena := after }) := by
  rw [detach_eq, named] at detached
  obtain ⟨grown, added, replaced⟩ := exists_of_bind_eq_ok detached
  obtain ⟨edited, swapped, recorded⟩ := exists_of_bind_eq_ok replaced
  cases recorded
  obtain ⟨location, reserved⟩ := exec_reserve builder
  simp only [splitOff, exec_bind, exec_get, read, reserved, exec_edit, added, swapped]
  rfl

/-- Step by step it does what it does as a whole, where detaching succeeds. -/
theorem exec_splitOff
    {builder : Builder} {id : NodeId} (keyed : builder.arena.Keyed)
    (splits : ∀ opening, builder.arena.Opens id opening → ∃ after,
      builder.arena.extractDelegation id = .ok after) :
    exec (splitOff id) builder =
      match builder.arena.extractDelegation id with
      | .ok after => (.ok (), { builder with arena := after })
      | .error cause => (.error cause, builder) := by
  rcases read : builder.arena.opening? id with cause | opening?
  · rw [extractDelegation_eq, read]
    simp only [splitOff, exec_bind, exec_get, read]
    rfl
  · cases opening? with
    | none =>
        rw [extractDelegation_eq, read]
        simp only [splitOff, exec_bind, exec_get, read]
        rfl
    | some opening =>
        have opens := opening?_eq_some_iff.mp read
        obtain ⟨after, extracted⟩ := splits opening opens
        rw [extracted]
        exact exec_splitOff_of_detach (keyed.id_eq opens.present) read
          (opens.extractDelegation_eq ▸ extracted)

end Build

namespace Arena

open Build

/-- A constructor whose body starts with a call of `super`. -/
def superFirst : Arena where
  nodes := ⟨[
    (1, { id := 1, parent := none, location := { line := 3 },
          kind := .methodDefinition {
            name := "initialize", kind := .constructor, arguments := 2, body := some 3 } }),
    (2, { id := 2, parent := some 1, location := {}, kind := .arguments {} }),
    (3, { id := 3, parent := some 1, location := {}, kind := .body [4, 6] }),
    (4, { id := 4, parent := some 3, location := {}, kind := .superCall [5] }),
    (5, { id := 5, parent := some 4, location := {}, kind := .fixnum 1 }),
    (6, { id := 6, parent := some 3, location := {}, kind := .null })]⟩
  nextId := 7

end Arena

end DeferredTyping
