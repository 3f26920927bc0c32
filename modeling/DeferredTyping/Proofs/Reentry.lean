import DeferredTyping.Proofs.Coverage
import DeferredTyping.Proofs.Outcomes

/-!
# A visit that answers comes back to no node

While a node is visited it is active: it has no type yet, and it waits for a
node that is active as well or is visited next.  A visit of an active node would
visit what that node waits for, and so on without end; hence a visit that ends
with a value meets no active node and leaves them all as they are.  This is why
the answer of a visit is the type that the node has afterwards.

Expansions are allowed for as long as the expander leaves the nodes of the tree as
they are: a node that waits for a call waits for what took the place of the call as
well.
-/

namespace DeferredTyping

variable {σ : Type}

/-- An expander that leaves the nodes of the tree as they are. -/
def Expander.KeepsNodes (expander : Expander σ) : Prop :=
  ∀ (arena : Arena) (call : NodeId) (receiver : Ty) (state : σ) {id : NodeId} {node : Node},
    arena.find? id = some node →
      (expander.expand arena call receiver state).2.1.find? id = some node

/-- The second node took the place of the first one. -/
def Facts.Expands (facts : Facts) (call expansion : NodeId) : Prop :=
  facts.expansionOf? call = some expansion

/-- The second node is the first one or took its place in the end. -/
abbrev Facts.Becomes (facts : Facts) : NodeId → NodeId → Prop :=
  Relation.ReflTransGen facts.Expands

/-- The answer for a node is the type of what took its place, if anything did. -/
def Facts.AnswersFor (facts : Facts) (id : NodeId) (answer : Option Ty) : Prop :=
  ∀ ⦃expansion⦄, facts.Expands id expansion → facts.nodeType? expansion = answer

namespace Facts.AnswersFor

variable {facts : Facts} {id : NodeId} {answer : Option Ty}

theorem of_unexpanded (unexpanded : facts.expansionOf? id = none) :
    facts.AnswersFor id answer := by
  intro expansion expands
  rw [Expands, unexpanded] at expands
  cases expands

theorem of_expands {expansion : NodeId} (expands : facts.Expands id expansion)
    (typed : facts.nodeType? expansion = answer) :
    facts.AnswersFor id answer := by
  intro other also
  rw [Expands, expands] at also
  cases also
  exact typed

end Facts.AnswersFor

namespace Session

/-- The rule of the node was begun and comes to an active node, or to the one
that is visited next. -/
def Waits (active : NodeId → Prop) (next id : NodeId) (session : Session σ) : Prop :=
  ∃ node, session.facts.arena.find? id = some node ∧
    (node.kind.isArguments = true → session.facts.argumentTypes? id = none) ∧
    ∃ slot ∈ node.kind.dependencies, active slot ∨ session.facts.Becomes next slot

/-- Every active node has no type yet and waits, by its rule or for its
expansion. -/
structure Awaits (active : NodeId → Prop) (next : NodeId) (session : Session σ) :
    Prop where
  untyped : ∀ {id}, active id → session.facts.nodeType? id = none
  expanded : ∀ {id expansion}, active id → session.facts.Expands id expansion →
    active expansion ∨ expansion = next
  waits : ∀ {id}, active id → session.facts.expansionOf? id = none →
    session.Waits active next id

/-- Active nodes are left as they are.  A slot may have been handed to an
expansion that was made in between. -/
structure Persists (active : NodeId → Prop) (before after : Session σ) : Prop where
  untyped : ∀ {id}, active id → before.facts.nodeType? id = none →
    after.facts.nodeType? id = none
  unlisted : ∀ {id}, active id → before.facts.argumentTypes? id = none →
    after.facts.argumentTypes? id = none
  unexpanded : ∀ {id}, active id → before.facts.expansionOf? id = none →
    after.facts.expansionOf? id = none
  expansions : ∀ {id expansion}, before.facts.Expands id expansion →
    after.facts.Expands id expansion
  kept : ∀ {id node}, before.facts.arena.find? id = some node →
    ∃ later, after.facts.arena.find? id = some later ∧
      later.kind.isArguments = node.kind.isArguments ∧
      ∀ slot ∈ node.kind.dependencies, slot ∈ later.kind.dependencies ∨
        before.facts.expansionOf? slot = none ∧
          ∃ moved ∈ later.kind.dependencies,
            Relation.TransGen after.facts.Expands slot moved

theorem expansionOf?_eq_none_of_persists
    {active : NodeId → Prop} {before after : Session σ}
    (persists : before.Persists active after)
    {id : NodeId} (unexpanded : after.facts.expansionOf? id = none) :
    before.facts.expansionOf? id = none := by
  cases known : before.facts.expansionOf? id with
  | none => rfl
  | some expansion =>
      have later : after.facts.expansionOf? id = some expansion :=
        persists.expansions known
      rw [unexpanded] at later
      cases later

namespace Persists

variable {active : NodeId → Prop}

/-- The tree and its expansions stay, and active nodes take no types. -/
theorem ofTree
    {before after : Session σ}
    (untyped : ∀ {id}, active id → before.facts.nodeType? id = none →
      after.facts.nodeType? id = none)
    (unlisted : ∀ {id}, active id → before.facts.argumentTypes? id = none →
      after.facts.argumentTypes? id = none)
    (expansions : after.facts.expansions = before.facts.expansions)
    (kept : ∀ {id node}, before.facts.arena.find? id = some node →
      after.facts.arena.find? id = some node) :
    before.Persists active after where
  untyped := untyped
  unlisted := unlisted
  unexpanded _ unexpanded := by rwa [Facts.expansionOf?, expansions]
  expansions known := by rwa [Facts.Expands, Facts.expansionOf?, expansions]
  kept present := ⟨_, kept present, rfl, fun _ member => .inl member⟩

theorem refl (session : Session σ) : session.Persists active session :=
  .ofTree (fun _ unknown => unknown) (fun _ unknown => unknown) rfl fun present => present

theorem becomes
    {before after : Session σ}
    (persists : before.Persists active after)
    {id other : NodeId} (becomes : before.facts.Becomes id other) :
    after.facts.Becomes id other :=
  Relation.ReflTransGen.mono (fun _ _ => persists.expansions) _ _ becomes

theorem trans
    {first second third : Session σ}
    (early : first.Persists active second)
    (late : second.Persists active third) :
    first.Persists active third where
  untyped isActive unknown := late.untyped isActive (early.untyped isActive unknown)
  unlisted isActive unknown := late.unlisted isActive (early.unlisted isActive unknown)
  unexpanded isActive unknown :=
    late.unexpanded isActive (early.unexpanded isActive unknown)
  expansions known := late.expansions (early.expansions known)
  kept {id node} present := by
    obtain ⟨middle, between, sort, slots⟩ := early.kept present
    obtain ⟨later, found, laterSort, laterSlots⟩ := late.kept between
    refine ⟨later, found, laterSort.trans sort, ?_⟩
    intro slot member
    rcases slots slot member with stays | ⟨unexpanded, moved, held, path⟩
    · rcases laterSlots slot stays with kept | ⟨unexpanded, moved⟩
      · exact .inl kept
      · exact .inr ⟨expansionOf?_eq_none_of_persists early unexpanded, moved⟩
    · have onward : Relation.TransGen third.facts.Expands slot moved :=
        Relation.TransGen.mono (fun _ _ => late.expansions) _ _ path
      rcases laterSlots moved held with kept | ⟨_, last, inside, further⟩
      · exact .inr ⟨unexpanded, moved, kept, onward⟩
      · exact .inr ⟨unexpanded, last, inside, onward.trans further⟩

theorem mono
    {fewer : NodeId → Prop} {before after : Session σ}
    (persists : before.Persists active after)
    (included : ∀ {id}, fewer id → active id) :
    before.Persists fewer after :=
  { persists with
    untyped := fun isActive => persists.untyped (included isActive)
    unlisted := fun isActive => persists.unlisted (included isActive)
    unexpanded := fun isActive => persists.unexpanded (included isActive) }

theorem learned
    {session : Session σ} {scriptClass : String} {facts : Facts}
    (learned : Facts.Learned scriptClass session.catalog session.facts facts) :
    session.Persists active { session with facts } := by
  have same := learned.sameNodes
  apply ofTree
  · intro id _ unknown
    rwa [Facts.nodeType?, same.nodeTypes]
  · intro id _ unknown
    rwa [Facts.argumentTypes?, same.argumentTypes]
  · exact same.expansions
  · intro id node present
    rwa [same.arena]

theorem remember
    (session : Session σ) {id : NodeId} (inactive : ¬ active id) (answer : Option Ty) :
    session.Persists active ((Infer.remember id answer).run session).2 := by
  cases answer with
  | none =>
      exact .ofTree (fun _ unknown => unknown) (fun _ unknown => unknown) rfl
        fun present => present
  | some ty =>
      refine .ofTree ?_ (fun _ unknown => unknown) rfl fun present => present
      intro other isActive unknown
      have different : other ≠ id := by
        rintro rfl
        exact inactive isActive
      rw [← unknown]
      exact Table.get?_insertIfNew_of_ne _ different ty

/-- What a node waits for stays something to wait for. -/
theorem awaits
    {next : NodeId} {before after : Session σ}
    (persists : before.Persists active after)
    (awaits : before.Awaits active next) :
    after.Awaits active next where
  untyped isActive := persists.untyped isActive (awaits.untyped isActive)
  expanded {id expansion} isActive expands := by
    cases known : before.facts.expansionOf? id with
    | some other =>
        have later : after.facts.expansionOf? id = some other := persists.expansions known
        rw [Facts.Expands, later] at expands
        cases expands
        exact awaits.expanded isActive known
    | none =>
        rw [Facts.Expands, persists.unexpanded isActive known] at expands
        cases expands
  waits {id} isActive unexpanded := by
    obtain ⟨node, present, unlisted, slot, member, reaches⟩ :=
      awaits.waits isActive (expansionOf?_eq_none_of_persists persists unexpanded)
    obtain ⟨later, found, sort, slots⟩ := persists.kept present
    refine ⟨later, found, ?_, ?_⟩
    · intro isList
      exact persists.unlisted isActive (unlisted (sort ▸ isList))
    · rcases slots slot member with stays | ⟨unmoved, moved, held, path⟩
      · exact ⟨slot, stays, reaches.imp_right persists.becomes⟩
      · refine ⟨moved, held, .inr ?_⟩
        rcases reaches with waiting | becomes
        · -- An active call is expanded by its own rule alone.
          obtain ⟨_, step, _⟩ := Relation.TransGen.head'_iff.mp path
          rw [Facts.Expands, persists.unexpanded waiting unmoved] at step
          cases step
        · exact (persists.becomes becomes).trans path.to_reflTransGen

end Persists

namespace Awaits

variable {active : NodeId → Prop} {id : NodeId} {session : Session σ}

/-- The visited node becomes active while its expansion is visited. -/
theorem expand
    {expansion : NodeId}
    (awaits : session.Awaits active id)
    (unknown : session.facts.nodeType? id = none)
    (expands : session.facts.Expands id expansion) :
    session.Awaits (fun other => active other ∨ other = id) expansion where
  untyped {other} isActive := by
    rcases isActive with earlier | rfl
    · exact awaits.untyped earlier
    · exact unknown
  expanded {other found} isActive known := by
    rcases isActive with earlier | rfl
    · exact .inl (awaits.expanded earlier known)
    · rw [Facts.Expands, expands] at known
      exact .inr (Option.some.inj known).symm
  waits {other} isActive unexpanded := by
    rcases isActive with earlier | rfl
    · obtain ⟨node, present, unlisted, slot, member, reaches⟩ :=
        awaits.waits earlier unexpanded
      refine ⟨node, present, unlisted, slot, member, ?_⟩
      rcases reaches with waiting | becomes
      · exact .inl (.inl waiting)
      · rcases becomes.cases_head with rfl | ⟨first, step, onward⟩
        · exact .inl (.inr rfl)
        · rw [Facts.Expands, expands] at step
          cases step
          exact .inr onward
    · rw [expands] at unexpanded
      cases unexpanded

/-- The visited node becomes active while what it depends on is visited. -/
theorem descend
    {node : Node} {dependency : NodeId}
    (awaits : session.Awaits active id)
    (unknown : session.facts.nodeType? id = none)
    (unexpanded : session.facts.expansionOf? id = none)
    (present : session.facts.arena.find? id = some node)
    (unlisted : node.kind.isArguments = true → session.facts.argumentTypes? id = none)
    (member : dependency ∈ node.kind.dependencies) :
    session.Awaits (fun other => active other ∨ other = id) dependency where
  untyped {other} isActive := by
    rcases isActive with earlier | rfl
    · exact awaits.untyped earlier
    · exact unknown
  expanded {other found} isActive known := by
    rcases isActive with earlier | rfl
    · exact .inl (awaits.expanded earlier known)
    · rw [Facts.Expands, unexpanded] at known
      cases known
  waits {other} isActive unmoved := by
    rcases isActive with earlier | rfl
    · obtain ⟨found, there, free, slot, held, reaches⟩ := awaits.waits earlier unmoved
      refine ⟨found, there, free, slot, held, .inl ?_⟩
      rcases reaches with waiting | becomes
      · exact .inl waiting
      · rcases becomes.cases_head with rfl | ⟨first, step, _⟩
        · exact .inr rfl
        · rw [Facts.Expands, unexpanded] at step
          cases step
    · exact ⟨node, present, unlisted, dependency, member, .inr .refl⟩

/-- Nothing is active at first. -/
theorem start (id : NodeId) (session : Session σ) :
    session.Awaits (fun _ => False) id where
  untyped := False.elim
  expanded := False.elim
  waits := False.elim

end Awaits

end Session

namespace Infer

variable {setting : Setting σ} {active : NodeId → Prop} {id : NodeId}

/-- A call visits everything it depends on before it is resolved. -/
theorem returns_rule_of_call
    {invariant : Session σ → Prop} {relation : Session σ → Session σ → Prop}
    {state : NodeId → Session σ → Prop}
    (sequential : Sequential fun ids (step : Infer σ _) =>
      Visits invariant relation state ids step)
    {infer : NodeId → Infer σ (Option Ty)} {node : Node}
    {before after : Session σ} {answer : Option Ty}
    (calls : node.kind.isCall = true)
    (visits : ∀ child ∈ node.kind.dependencies,
      Visits invariant relation state [child] (infer child))
    (holds : invariant before)
    (returned : Returns (rule setting infer id node) before answer after) :
    ∃ visited, invariant visited ∧ relation before visited ∧
      (∀ child ∈ node.kind.dependencies, state child visited) ∧
      (after = visited ∨ ∃ receiver name types,
        Returns (resolveCall setting infer id receiver name types)
          visited answer after) := by
  rw [rule_eq_of_isCall calls] at returned
  obtain ⟨request, visited, asked, served⟩ := returns_bind.mp returned
  have requests : Visits invariant relation state node.kind.dependencies
      (requestOf setting infer id node.kind) := sequential.toOrderly.requestOf calls visits
  obtain ⟨kept, related, reached⟩ := requests holds asked
  refine ⟨visited, kept, related, reached, ?_⟩
  rcases request with _ | ⟨instanceType, types⟩ | ⟨receiver, name, types⟩
  · exact .inl (returns_pure.mp served).2.symm
  · exact .inl ((ReadStep.instantiation _ _ _).after_eq served)
  · exact .inr ⟨receiver, name, types, served⟩

/-- An expansion takes the place of a call that nobody is waiting for twice. -/
theorem splice_persists
    {expansion : NodeId} {before after : Session σ}
    (inactive : ¬ active id)
    (unexpanded : before.facts.expansionOf? id = none)
    (returned : Returns (splice id expansion) before () after) :
    before.Persists active after ∧ after.facts.Expands id expansion := by
  obtain ⟨parent, arena, replaced, rfl⟩ := returns_splice returned
  obtain ⟨holder, kind, present, refilled, rfl⟩ := Arena.replaceChild_ok replaced
  have expands : (before.facts.expansions.insert id expansion).get? id = some expansion :=
    Table.get?_insert_self _ _ _
  refine ⟨?_, expands⟩
  constructor
  · exact fun _ unknown => unknown
  · exact fun _ unknown => unknown
  · intro other isActive unknown
    have different : other ≠ id := by
      rintro rfl
      exact inactive isActive
    rw [← unknown]
    exact Table.get?_insert_of_ne _ different _
  · intro other found known
    exact Table.get?_insert_of_known unexpanded known
  · intro other node there
    by_cases same : other = parent
    · subst same
      rw [present] at there
      cases there
      refine ⟨_, Arena.find?_setKind_self kind present, refilled.isArguments, ?_⟩
      intro slot member
      refine (refilled.dependencies.mem_or_moved member).imp_right ?_
      rintro ⟨rfl, moved⟩
      exact ⟨unexpanded, expansion, moved, .single expands⟩
    · exact ⟨node, (Arena.find?_setKind_of_ne _ _ same).trans there, rfl,
        fun _ member => .inl member⟩

/-- A visit that ends with a value visits no active node, leaves active nodes as
they are and answers with the type that the node has then. -/
def Answers (setting : Setting σ) (fuel : Nat) : Prop :=
  ∀ ⦃active : NodeId → Prop⦄ ⦃id : NodeId⦄ ⦃before after : Session σ⦄ ⦃answer : Option Ty⦄,
    before.Awaits active id → Returns (node setting fuel id) before answer after →
      ¬ active id ∧ before.Persists active after ∧ after.facts.nodeType? id = answer

/-- While these dependencies await, the step leaves active nodes as they are, and
it visits none of them. -/
abbrev Avoids (active : NodeId → Prop) (dependencies : List NodeId) {α : Type}
    (ids : List NodeId) (step : Infer σ α) : Prop :=
  Visits (fun session => ∀ child ∈ dependencies, session.Awaits active child)
    (Session.Persists active) (fun child _ => ¬ active child) ids step

theorem traversal_avoids
    (setting : Setting σ) (active : NodeId → Prop) (dependencies : List NodeId) :
    Traversal setting fun ids step => Avoids active dependencies ids step := by
  apply Traversal.ofVisits
  · intro first second third early late
    exact early.trans late
  · intro before after child _ inactive
    exact inactive
  · intro session facts awaits learned
    have persists : session.Persists active { session with facts } := .learned learned
    exact ⟨fun child member => persists.awaits (awaits child member), persists⟩

theorem Answers.avoids
    {fuel : Nat} (answers : Answers setting fuel)
    {dependencies : List NodeId} {child : NodeId} (member : child ∈ dependencies) :
    Avoids active dependencies [child] (node setting fuel child) := by
  intro before answer after awaits returned
  obtain ⟨inactive, persists, _⟩ := answers (awaits child member) returned
  refine ⟨fun other held => persists.awaits (awaits other held), persists, ?_⟩
  intro other same
  rw [List.mem_singleton] at same
  exact same ▸ inactive

/-- A node whose dependencies were all visited is not active itself: it would
have to wait for one of them. -/
theorem inactive_of_dependencies
    {session : Session σ} {found : Node}
    (awaits : session.Awaits active id)
    (unexpanded : session.facts.expansionOf? id = none)
    (present : session.facts.arena.find? id = some found)
    (inactive : ∀ child ∈ found.kind.dependencies, ¬ (active child ∨ child = id)) :
    ¬ active id := by
  intro isActive
  obtain ⟨node, there, _, slot, member, reaches⟩ := awaits.waits isActive unexpanded
  rw [present] at there
  cases there
  apply inactive slot member
  rcases reaches with waiting | becomes
  · exact .inl waiting
  · rcases becomes.cases_head with rfl | ⟨first, step, _⟩
    · exact .inr rfl
    · rw [Facts.Expands, unexpanded] at step
      cases step

/-- Resolving a call visits the call's expansion at most, while the call is
active.  A call that is expanded answers as its expansion does. -/
theorem resolveCall_persists
    {fuel : Nat} (answers : Answers setting fuel)
    (keeps : setting.expander.KeepsNodes)
    {before after : Session σ} {answer : Option Ty}
    {receiver : Ty} {name : String} {types : List Ty}
    (awaits : before.Awaits active id)
    (inactive : ¬ active id)
    (unknown : before.facts.nodeType? id = none)
    (unexpanded : before.facts.expansionOf? id = none)
    (returned : Returns (resolveCall setting (node setting fuel) id receiver name types)
      before answer after) :
    before.Persists active after ∧ after.facts.nodeType? id = none ∧
      after.facts.AnswersFor id answer := by
  rcases returns_resolveCall returned with ⟨_, _, _, rfl⟩ |
    ⟨_, reply, offered, offers, concludes⟩
  · exact ⟨.refl after, unknown, .of_unexpanded unexpanded⟩
  · have grown : before.Persists active offered := by
      cases offers
      exact .ofTree (fun _ unknown => unknown) (fun _ unknown => unknown) rfl
        (keeps _ _ _ _)
    have untyped : offered.facts.nodeType? id = none := by
      cases offers
      exact unknown
    have unmoved : offered.facts.expansionOf? id = none := by
      cases offers
      exact unexpanded
    rcases concludes with ⟨_, _, rfl⟩ | ⟨expansion, spliced, _, splices, visited⟩
    · exact ⟨grown, untyped, .of_unexpanded unmoved⟩
    · obtain ⟨placed, expands⟩ := splice_persists inactive unmoved splices
      have still : spliced.facts.nodeType? id = none := by
        obtain ⟨_, _, _, rfl⟩ := returns_splice splices
        exact untyped
      have waiting : spliced.Awaits active id := placed.awaits (grown.awaits awaits)
      obtain ⟨_, persists, answered⟩ := answers (waiting.expand still expands) visited
      exact ⟨(grown.trans placed).trans (persists.mono .inl),
        persists.untyped (.inr rfl) still, .of_expands (persists.expansions expands) answered⟩

/-- A list of parameters whose types are kept visits nothing. -/
theorem returns_rule_of_listed
    {infer : NodeId → Infer σ (Option Ty)} {node : Node} {types : List Ty}
    {before after : Session σ} {answer : Option Ty}
    (isList : node.kind.isArguments = true)
    (kept : before.facts.argumentTypes? id = some types)
    (returned : Returns (rule setting infer id node) before answer after) :
    after = before := by
  obtain ⟨list, kind⟩ := Kind.isArguments_eq_true_iff.mp isList
  unfold rule at returned
  rw [kind] at returned
  obtain ⟨given, listed, rfl⟩ := returns_map.mp returned
  rcases returns_arguments listed with ⟨_, _, _, same⟩ | ⟨_, _, unknown, _⟩
  · exact same
  · rw [kept] at unknown
    cases unknown

/-- The types of a list of parameters are kept while the list is not active. -/
theorem keepArgumentTypes_persists
    {types answer : Option (List Ty)} {before after : Session σ}
    (inactive : ¬ active id)
    (returned : Returns (keepArgumentTypes id types) before answer after) :
    before.Persists active after ∧
      (∀ other, after.facts.nodeType? other = before.facts.nodeType? other) ∧
      ∀ other, after.facts.expansionOf? other = before.facts.expansionOf? other := by
  cases types with
  | none =>
      cases returned
      exact ⟨.refl before, fun _ => rfl, fun _ => rfl⟩
  | some types =>
      cases returned
      refine ⟨.ofTree (fun _ unknown => unknown) ?_ rfl fun present => present, fun _ => rfl,
        fun _ => rfl⟩
      intro other isActive unknown
      have different : other ≠ id := by
        rintro rfl
        exact inactive isActive
      rw [← unknown]
      exact Table.get?_insertIfNew_of_ne _ different types

/-- A rule that ends with a value belongs to a node that is not active, and that
has no type yet when it ends.  A call that was expanded meanwhile has the answer of
its expansion. -/
theorem rule_persists
    {fuel : Nat} (answers : Answers setting fuel)
    (keeps : setting.expander.KeepsNodes)
    {before after : Session σ} {answer : Option Ty} {found : Node}
    (awaits : before.Awaits active id)
    (unknown : before.facts.nodeType? id = none)
    (unexpanded : before.facts.expansionOf? id = none)
    (present : before.facts.arena.find? id = some found)
    (returned : Returns (rule setting (node setting fuel) id found) before answer after) :
    ¬ active id ∧ before.Persists active after ∧ after.facts.nodeType? id = none ∧
      after.facts.AnswersFor id answer := by
  by_cases kept : found.kind.isArguments = true ∧ before.facts.argumentTypes? id ≠ none
  · obtain ⟨isList, listed⟩ := kept
    obtain ⟨types, known⟩ := Option.ne_none_iff_exists'.mp listed
    cases returns_rule_of_listed isList known returned
    refine ⟨?_, .refl before, unknown, .of_unexpanded unexpanded⟩
    intro isActive
    obtain ⟨node, there, unlisted, _⟩ := awaits.waits isActive unexpanded
    rw [present] at there
    cases there
    exact listed (unlisted isList)
  have unlisted : found.kind.isArguments = true → before.facts.argumentTypes? id = none := by
    intro isList
    by_contra listed
    exact kept ⟨isList, listed⟩
  obtain ⟨dependencies, same⟩ : ∃ ids, found.kind.dependencies = ids := ⟨_, rfl⟩
  have begun : ∀ child ∈ dependencies,
      before.Awaits (fun other => active other ∨ other = id) child :=
    fun child member =>
      awaits.descend unknown unexpanded present unlisted (same ▸ member)
  have traversal := traversal_avoids setting (fun other => active other ∨ other = id)
    dependencies
  have visits : ∀ child ∈ dependencies,
      Avoids (fun other => active other ∨ other = id) dependencies [child]
        (node setting fuel child) :=
    fun child member => answers.avoids member
  have outside : (∀ child ∈ dependencies, ¬ (active child ∨ child = id)) → ¬ active id :=
    fun inactive => inactive_of_dependencies awaits unexpanded present (same ▸ inactive)
  cases isList : found.kind.isArguments with
  | true =>
      obtain ⟨list, kind⟩ := Kind.isArguments_eq_true_iff.mp isList
      obtain ⟨types, visited, collects, keeps, _⟩ :=
        returns_rule_of_arguments kind present (unlisted isList) returned
      rw [kind] at same
      obtain rfl : list.typed = dependencies := same
      obtain ⟨_, persists, inactive⟩ := traversal.all visits begun collects
      obtain ⟨last, still, unmoved⟩ := keepArgumentTypes_persists (outside inactive) keeps
      exact ⟨outside inactive, (persists.mono .inl).trans last,
        (still id).trans (persists.untyped (.inr rfl) unknown),
        .of_unexpanded ((unmoved id).trans (persists.unexpanded (.inr rfl) unexpanded))⟩
  | false =>
      cases isCall : found.kind.isCall with
      | true =>
          obtain ⟨visited, awaiting, persists, inactive, concludes⟩ :=
            returns_rule_of_call traversal.toSequential isCall (same ▸ visits) begun returned
          rw [same] at inactive
          have untyped := persists.untyped (.inr rfl) unknown
          have unmoved := persists.unexpanded (.inr rfl) unexpanded
          rcases concludes with rfl | ⟨receiver, name, types, resolves⟩
          · exact ⟨outside inactive, persists.mono .inl, untyped, .of_unexpanded unmoved⟩
          · obtain ⟨last, still, answered⟩ := resolveCall_persists answers keeps
              ((persists.mono .inl).awaits awaits) (outside inactive) untyped unmoved resolves
            exact ⟨outside inactive, (persists.mono .inl).trans last, still, answered⟩
      | false =>
          have rules : Avoids (fun other => active other ∨ other = id) dependencies
              found.kind.dependencies (rule setting (node setting fuel) id found) := by
            refine traversal.toBuilding.ruleByKind ?_ ?_ ?_ (same ▸ visits)
            · intro method kind
              rw [kind] at same ⊢
              exact traversal.methodDefinition fun child member =>
                visits child (same ▸ member)
            · intro list kind
              rw [kind] at isList
              cases isList
            · intro calls
              rw [isCall] at calls
              cases calls
          obtain ⟨_, persists, inactive⟩ := rules begun returned
          exact ⟨outside (same ▸ inactive), persists.mono .inl,
            persists.untyped (.inr rfl) unknown,
            .of_unexpanded (persists.unexpanded (.inr rfl) unexpanded)⟩

/-- A node that is not active keeps its answer. -/
theorem remember_persists
    {middle after : Session σ} {inferred answer : Option Ty}
    (inactive : ¬ active id)
    (unknown : middle.facts.nodeType? id = none)
    (returned : Returns (remember id inferred) middle answer after) :
    middle.Persists active after ∧ after.facts.nodeType? id = answer := by
  have persists := Session.Persists.remember middle inactive inferred
  cases inferred with
  | none =>
      obtain ⟨rfl, rfl⟩ := returns_remember_none.mp returned
      exact ⟨persists, unknown⟩
  | some ty =>
      obtain ⟨rfl, rfl⟩ := returns_remember_some.mp returned
      exact ⟨persists, Table.get?_insertIfNew_self unknown ty⟩

/-- A visit that ends with a value meets no active node. -/
theorem node_answers_awaited
    (keeps : setting.expander.KeepsNodes)
    (fuel : Nat) :
    Answers setting fuel := by
  induction fuel with
  | zero =>
      intro active id before after answer _ returned
      cases returned
  | succ fuel answers =>
      intro active id before after answer awaits returned
      rcases returns_node returned with ⟨ty, known, rfl, rfl⟩ |
        ⟨expansion, inferred, middle, unknown, expanded, visited, kept⟩ |
        ⟨found, inferred, middle, unknown, unexpanded, present, visited, kept⟩
      · refine ⟨?_, .refl _, known⟩
        intro isActive
        rw [awaits.untyped isActive] at known
        cases known
      · obtain ⟨inactive, persists, _⟩ := answers (awaits.expand unknown expanded) visited
        have outside : ¬ active id := fun isActive =>
          inactive (awaits.expanded isActive expanded)
        obtain ⟨last, known⟩ :=
          remember_persists outside (persists.untyped (.inr rfl) unknown) kept
        exact ⟨outside, (persists.mono .inl).trans last, known⟩
      · obtain ⟨outside, persists, untyped, _⟩ := rule_persists answers keeps awaits unknown
          unexpanded present visited
        obtain ⟨last, known⟩ := remember_persists outside untyped kept
        exact ⟨outside, persists.trans last, known⟩

/-- The answer of a visit is the type that the node has afterwards. -/
theorem node_answers
    (keeps : setting.expander.KeepsNodes)
    {fuel : Nat} {before after : Session σ} {answer : Option Ty}
    (returned : Returns (node setting fuel id) before answer after) :
    after.facts.nodeType? id = answer :=
  (node_answers_awaited keeps fuel (.start id before) returned).2.2

/-- A node takes no type while its own rule runs, and a call that is expanded meanwhile has
the answer of its expansion. -/
theorem answersFor_of_rule
    (keeps : setting.expander.KeepsNodes)
    {fuel : Nat} {before after : Session σ} {answer : Option Ty} {found : Node}
    (unknown : before.facts.nodeType? id = none)
    (unexpanded : before.facts.expansionOf? id = none)
    (present : before.facts.arena.find? id = some found)
    (returned : Returns (rule setting (node setting fuel) id found) before answer after) :
    after.facts.nodeType? id = none ∧ after.facts.AnswersFor id answer :=
  (rule_persists (node_answers_awaited keeps fuel) keeps (.start id before) unknown
    unexpanded present returned).2.2

/-- A node takes no type while its own rule runs. -/
theorem untyped_of_rule
    (keeps : setting.expander.KeepsNodes)
    {fuel : Nat} {before after : Session σ} {answer : Option Ty} {found : Node}
    (unknown : before.facts.nodeType? id = none)
    (unexpanded : before.facts.expansionOf? id = none)
    (present : before.facts.arena.find? id = some found)
    (returned : Returns (rule setting (node setting fuel) id found) before answer after) :
    after.facts.nodeType? id = none :=
  (answersFor_of_rule keeps unknown unexpanded present returned).1

/-- A call that was expanded has the answer of its expansion. -/
theorem answersFor_of_expansion
    (keeps : setting.expander.KeepsNodes)
    {fuel : Nat} {before after : Session σ} {answer : Option Ty} {expansion : NodeId}
    (unknown : before.facts.nodeType? id = none)
    (expands : before.facts.Expands id expansion)
    (returned : Returns (node setting fuel expansion) before answer after) :
    after.facts.nodeType? id = none ∧ after.facts.AnswersFor id answer := by
  obtain ⟨_, persists, answered⟩ := node_answers_awaited keeps fuel
    ((Session.Awaits.start id before).expand unknown expands) returned
  exact ⟨persists.untyped (.inr rfl) unknown,
    .of_expands (persists.expansions expands) answered⟩

/-- A node takes neither a type nor an expansion while what it depends on is visited. -/
theorem untouched_of_visits
    (keeps : setting.expander.KeepsNodes)
    {α : Type} {step : Infer σ α} {fuel : Nat} {before after : Session σ} {value : α}
    {found : Node}
    (unknown : before.facts.nodeType? id = none)
    (unexpanded : before.facts.expansionOf? id = none)
    (present : before.facts.arena.find? id = some found)
    (unlisted : found.kind.isArguments = false)
    (visits : (∀ child ∈ found.kind.dependencies,
        Avoids (fun other => False ∨ other = id) found.kind.dependencies [child]
          (node setting fuel child)) →
      Avoids (fun other => False ∨ other = id) found.kind.dependencies
        found.kind.dependencies step)
    (returned : Returns step before value after) :
    after.facts.nodeType? id = none ∧ after.facts.expansionOf? id = none := by
  have begun : ∀ child ∈ found.kind.dependencies,
      before.Awaits (fun other => False ∨ other = id) child :=
    fun child member => (Session.Awaits.start id before).descend unknown unexpanded present
      (fun isList => absurd isList (unlisted ▸ Bool.false_ne_true)) member
  obtain ⟨_, persists, _⟩ := visits
    (fun _ member => Answers.avoids (node_answers_awaited keeps fuel) member) begun returned
  exact ⟨persists.untyped (.inr rfl) unknown, persists.unexpanded (.inr rfl) unexpanded⟩

/-- A method definition takes no type while all that it needs is gathered. -/
theorem untyped_of_gatherMethod
    (keeps : setting.expander.KeepsNodes)
    {fuel : Nat} {before after : Session σ} {method : Method NodeId} {answer : Option Gathered}
    (unknown : before.facts.nodeType? id = none)
    (unexpanded : before.facts.expansionOf? id = none)
    (defines : before.facts.arena.method? id = some method)
    (returned : Returns (gatherMethod setting (node setting fuel) id method) before answer after) :
    after.facts.nodeType? id = none := by
  obtain ⟨found, present, isMethod⟩ := Option.bind_eq_some_iff.mp defines
  have kind : found.kind = .methodDefinition method := Kind.method?_eq_some_iff.mp isMethod
  have unlisted : found.kind.isArguments = false := by
    rw [kind]
    rfl
  have gathers : (∀ child ∈ found.kind.dependencies,
        Avoids (fun other => False ∨ other = id) found.kind.dependencies [child]
          (node setting fuel child)) →
      Avoids (fun other => False ∨ other = id) found.kind.dependencies
        found.kind.dependencies (gatherMethod setting (node setting fuel) id method) := by
    rw [kind]
    exact (traversal_avoids setting _ _).toBuilding.gatherMethod
  exact (untouched_of_visits keeps unknown unexpanded present unlisted gathers returned).1

/-- A call takes neither a type nor an expansion before it is resolved. -/
theorem untouched_of_requestOf
    (keeps : setting.expander.KeepsNodes)
    {fuel : Nat} {before after : Session σ} {found : Node} {request : Option Request}
    (unknown : before.facts.nodeType? id = none)
    (unexpanded : before.facts.expansionOf? id = none)
    (present : before.facts.arena.find? id = some found)
    (calls : found.kind.isCall = true)
    (returned : Returns (requestOf setting (node setting fuel) id found.kind) before request
      after) :
    after.facts.nodeType? id = none ∧ after.facts.expansionOf? id = none := by
  have unlisted : found.kind.isArguments = false := by
    rw [Bool.eq_false_iff]
    intro isList
    obtain ⟨list, kind⟩ := Kind.isArguments_eq_true_iff.mp isList
    rw [kind] at calls
    cases calls
  exact untouched_of_visits keeps unknown unexpanded present unlisted
    (fun visits => (traversal_avoids setting _ _).toOrderly.requestOf calls visits) returned

end Infer

end DeferredTyping
