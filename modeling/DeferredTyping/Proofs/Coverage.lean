import DeferredTyping.Proofs.Driver
import DeferredTyping.Proofs.Extension

/-!
# Nothing below a visited node is forgotten

A node is settled when it has a type or waits on the worklist.  A visit that
ends with a value settles its node, and it settles everything that the node
depends on.  Macros are allowed for: an expansion takes a slot of the tree
while the nodes around it are being visited, and is itself settled before the
visit of its call ends.
-/

namespace DeferredTyping

variable {σ : Type}

namespace Session

/-- The node has a type, or is queued for the next pass. -/
def Settled (id : NodeId) (session : Session σ) : Prop :=
  (∃ ty, session.facts.nodeType? id = some ty) ∨ id ∈ session.worklist.queue

/-- The node is settled, or the current pass comes to it later. -/
def Handled (rest : List NodeId) (id : NodeId) (session : Session σ) : Prop :=
  session.Settled id ∨ id ∈ rest

/-- The rule of the node was begun. -/
def Touched (rest : List NodeId) (id : NodeId) (session : Session σ) : Prop :=
  session.Handled rest id ∨
    ∃ expansion, session.facts.expansionOf? id = some expansion

/-- The node exists, everything it depends on is handled, and a method
definition knows its class. -/
def Explored (rest : List NodeId) (id : NodeId) (session : Session σ) : Prop :=
  ∃ node, session.facts.arena.find? id = some node ∧
    (∀ child ∈ node.kind.dependencies, session.Handled rest child) ∧
    (node.kind.method?.isSome = true →
      ∃ lexical, session.facts.definingClasses.get? id = some lexical)

/-- The second session was reached from the first one, and all nodes whose
rules were begun on the way were explored, the excepted ones aside. -/
structure Explores (rest : List NodeId) (excepted : NodeId → Prop)
    (before after : Session σ) : Prop where
  settled : ∀ {id}, before.Settled id → after.Settled id
  kept : ∀ {id node}, before.facts.arena.find? id = some node →
    ∃ later, after.facts.arena.find? id = some later ∧
      later.parent = node.parent ∧
      later.kind.method?.isSome = node.kind.method?.isSome ∧
      ∀ child ∈ later.kind.dependencies,
        child ∈ node.kind.dependencies ∨ after.Handled rest child
  parented : ∀ {id node}, after.facts.arena.find? id = some node →
    before.facts.arena.find? id = none → node.parent ≠ none
  keyed : before.facts.arena.Keyed → after.facts.arena.Keyed
  bound : ∀ {id lexical}, before.facts.definingClasses.get? id = some lexical →
    after.facts.definingClasses.get? id = some lexical
  explored : ∀ {id}, after.Touched rest id →
    excepted id ∨ before.Touched rest id ∨ after.Explored rest id

namespace Explores

variable {rest : List NodeId} {excepted : NodeId → Prop}

theorem handled
    {before after : Session σ}
    (explores : before.Explores rest excepted after)
    {id : NodeId} (handled : before.Handled rest id) :
    after.Handled rest id :=
  handled.imp_left explores.settled

/-- A node that was explored before is explored afterwards: what it depends on
since then was handled when it came. -/
theorem explored_of_explored
    {before after : Session σ}
    (explores : before.Explores rest excepted after)
    {id : NodeId} (explored : before.Explored rest id) :
    after.Explored rest id := by
  obtain ⟨node, present, handled, known⟩ := explored
  obtain ⟨later, found, _, sort, slots⟩ := explores.kept present
  refine ⟨later, found, ?_, ?_⟩
  · intro child member
    rcases slots child member with earlier | handled'
    · exact explores.handled (handled child earlier)
    · exact handled'
  · intro isMethod
    obtain ⟨lexical, bound⟩ := known (sort ▸ isMethod)
    exact ⟨lexical, explores.bound bound⟩

theorem trans
    {first second third : Session σ}
    (early : first.Explores rest excepted second)
    (late : second.Explores rest excepted third) :
    first.Explores rest excepted third where
  settled before := late.settled (early.settled before)
  kept {id node} present := by
    obtain ⟨middle, between, parent, sort, slots⟩ := early.kept present
    obtain ⟨later, found, laterParent, laterSort, laterSlots⟩ := late.kept between
    refine ⟨later, found, laterParent.trans parent, laterSort.trans sort, ?_⟩
    intro child member
    rcases laterSlots child member with inside | handled
    · exact (slots child inside).imp_right late.handled
    · exact .inr handled
  parented {id node} present absent := by
    cases between : second.facts.arena.find? id with
    | none => exact late.parented present between
    | some middle =>
        obtain ⟨later, found, parent, _⟩ := late.kept between
        rw [present] at found
        cases found
        rw [parent]
        exact early.parented between absent
  keyed keyed := late.keyed (early.keyed keyed)
  bound known := late.bound (early.bound known)
  explored {id} touched := by
    rcases late.explored touched with aside | before | explored
    · exact .inl aside
    · rcases early.explored before with aside | earlier | explored
      · exact .inl aside
      · exact .inr (.inl earlier)
      · exact .inr (.inr (late.explored_of_explored explored))
    · exact .inr (.inr explored)

theorem mono
    {wider : NodeId → Prop} {before after : Session σ}
    (explores : before.Explores rest excepted after)
    (included : ∀ {id}, excepted id → wider id) :
    before.Explores rest wider after :=
  { explores with
    explored := fun touched => (explores.explored touched).imp_left included }

/-- Only the tree changes, and it only grows. -/
theorem ofGrows
    {before after : Session σ}
    (settled : ∀ {id}, before.Settled id ↔ after.Settled id)
    (expansions : after.facts.expansions = before.facts.expansions)
    (bound : ∀ {id lexical}, before.facts.definingClasses.get? id = some lexical →
      after.facts.definingClasses.get? id = some lexical)
    (grows : before.facts.arena.Grows after.facts.arena) :
    before.Explores rest excepted after where
  settled := settled.mp
  kept present := ⟨_, grows.kept present, rfl, rfl, fun _ => .inl⟩
  parented := grows.parented
  keyed := grows.keyed
  bound := bound
  explored touched := by
    refine .inr (.inl ?_)
    rcases touched with handled | ⟨expansion, expanded⟩
    · exact .inl (handled.imp_left settled.mpr)
    · refine .inr ⟨expansion, ?_⟩
      rwa [Facts.expansionOf?, expansions] at expanded

theorem learned
    {session : Session σ} {scriptClass : String} {facts : Facts}
    (learned : Facts.Learned scriptClass session.catalog session.facts facts) :
    session.Explores rest excepted { session with facts } := by
  have same := learned.sameNodes
  apply ofGrows
  · intro id
    simp only [Settled, Facts.nodeType?, same.nodeTypes]
  · exact same.expansions
  · exact learned.extends.definingClasses
  · rw [same.arena]
    exact .refl _

end Explores

/-- What holds of a session between two visits. -/
structure Orderly (session : Session σ) : Prop where
  consistent : session.worklist.Consistent
  /-- The types of a parameter list come with the type of the list. -/
  lists : ∀ {id types}, session.facts.argumentTypes? id = some types →
    ∃ ty, session.facts.nodeType? id = some ty

namespace Orderly

theorem ofFacts
    {session : Session σ} {facts : Facts}
    (orderly : session.Orderly)
    (nodeTypes : facts.nodeTypes = session.facts.nodeTypes)
    (argumentTypes : facts.argumentTypes = session.facts.argumentTypes) :
    { session with facts : Session σ }.Orderly where
  consistent := orderly.consistent
  lists {id types} known := by
    rw [Facts.argumentTypes?, argumentTypes] at known
    rw [Facts.nodeType?, nodeTypes]
    exact orderly.lists known

theorem remember
    {session : Session σ}
    (orderly : session.Orderly)
    (id : NodeId) (answer : Option Ty) :
    ((Infer.remember id answer).run session).2.Orderly := by
  cases answer with
  | none => exact ⟨orderly.consistent.push id, orderly.lists⟩
  | some ty =>
      refine ⟨orderly.consistent, ?_⟩
      intro other types known
      obtain ⟨earlier, typed⟩ := orderly.lists known
      exact ⟨earlier, Table.get?_insertIfNew_of_get?_eq_some typed ty⟩

end Orderly

/-- Keeping the answer of a visit settles the node. -/
theorem settled_remember
    {session : Session σ}
    (consistent : session.worklist.Consistent)
    (id : NodeId) (answer : Option Ty) :
    ((Infer.remember id answer).run session).2.Settled id := by
  cases answer with
  | none => exact .inr (consistent.mem_push id)
  | some ty =>
      left
      exact Table.contains_eq_true_iff.mp
        (Table.contains_insertIfNew_self session.facts.nodeTypes id ty)

/-- Keeping the answer of a visit settles no other node. -/
theorem settled_of_settled_remember
    {session : Session σ} {id other : NodeId} {answer : Option Ty}
    (settled : ((Infer.remember id answer).run session).2.Settled other) :
    other = id ∨ session.Settled other := by
  cases answer with
  | none =>
      rcases settled with typed | queued
      · exact .inr (.inl typed)
      · rcases Worklist.mem_queue_of_mem_push queued with earlier | same
        · exact .inr (.inr earlier)
        · exact .inl same
  | some ty =>
      rcases settled with ⟨found, typed⟩ | queued
      · by_cases same : other = id
        · exact .inl same
        · refine .inr (.inl ⟨found, ?_⟩)
          rw [← typed]
          exact (Table.get?_insertIfNew_of_ne _ same ty).symm
      · exact .inr (.inr queued)

theorem settled_remember_of_settled
    {session : Session σ} {other : NodeId}
    (settled : session.Settled other)
    (id : NodeId) (answer : Option Ty) :
    ((Infer.remember id answer).run session).2.Settled other := by
  cases answer with
  | none =>
      rcases settled with typed | queued
      · exact .inl typed
      · exact .inr ((Worklist.queue_prefix_push _ id).subset queued)
  | some ty =>
      rcases settled with ⟨found, typed⟩ | queued
      · exact .inl ⟨found, Table.get?_insertIfNew_of_get?_eq_some typed ty⟩
      · exact .inr queued

theorem run_remember_facts
    (session : Session σ) (id : NodeId) (answer : Option Ty) :
    ((Infer.remember id answer).run session).2.facts.arena = session.facts.arena ∧
      ((Infer.remember id answer).run session).2.facts.expansions =
        session.facts.expansions ∧
      ((Infer.remember id answer).run session).2.facts.definingClasses =
        session.facts.definingClasses := by
  cases answer with
  | none => exact ⟨rfl, rfl, rfl⟩
  | some ty => exact ⟨rfl, rfl, rfl⟩

/-- The node that was being visited is settled in the end; by then it had
been begun before or is explored. -/
theorem Explores.remember
    {rest : List NodeId} {excepted : NodeId → Prop} {before middle : Session σ}
    {id : NodeId}
    (explores : before.Explores rest excepted middle)
    (within : ∀ {other}, excepted other → other = id)
    (begun : before.Touched rest id ∨ middle.Explored rest id)
    (answer : Option Ty) :
    before.Explores rest (fun _ => False)
      ((Infer.remember id answer).run middle).2 := by
  obtain ⟨arena, expansions, definingClasses⟩ := run_remember_facts middle id answer
  have handled : ∀ {other}, middle.Handled rest other →
      ((Infer.remember id answer).run middle).2.Handled rest other :=
    fun handled => handled.imp_left fun settled =>
      settled_remember_of_settled settled id answer
  have lasts : ∀ {other}, middle.Explored rest other →
      ((Infer.remember id answer).run middle).2.Explored rest other := by
    rintro other ⟨node, present, children, known⟩
    refine ⟨node, arena ▸ present, fun child member => handled (children child member), ?_⟩
    rw [definingClasses]
    exact known
  constructor
  · intro other settled
    exact settled_remember_of_settled (explores.settled settled) id answer
  · intro other node present
    obtain ⟨later, found, parent, sort, slots⟩ := explores.kept present
    exact ⟨later, arena ▸ found, parent, sort,
      fun child member => (slots child member).imp_right handled⟩
  · intro other node present absent
    exact explores.parented (arena ▸ present) absent
  · intro keyed
    exact arena ▸ explores.keyed keyed
  · intro other lexical known
    rw [definingClasses]
    exact explores.bound known
  · intro other touched
    have earlier : other = id ∨ middle.Touched rest other := by
      rcases touched with (settled | waiting) | ⟨expansion, expanded⟩
      · rcases settled_of_settled_remember settled with same | settled
        · exact .inl same
        · exact .inr (.inl (.inl settled))
      · exact .inr (.inl (.inr waiting))
      · refine .inr (.inr ⟨expansion, ?_⟩)
        rwa [Facts.expansionOf?, expansions] at expanded
    have self : other = id → before.Touched rest other ∨
        ((Infer.remember id answer).run middle).2.Explored rest other := by
      rintro rfl
      exact begun.imp_right lasts
    rcases earlier with same | touched
    · exact .inr (self same)
    · rcases explores.explored touched with aside | before | explored
      · exact .inr (self (within aside))
      · exact .inr (.inl before)
      · exact .inr (.inr (lasts explored))

end Session

/-- An expander that only adds nodes, and only nodes that carry a parent. -/
def Expander.OnlyAdds (expander : Expander σ) : Prop :=
  ∀ (arena : Arena) (id : NodeId) (receiver : Ty) (state : σ),
    arena.Grows (expander.expand arena id receiver state).2.1

namespace Infer

/-- A step that ends with a value settles these nodes, and explores all nodes
that it begins except the excepted ones. -/
abbrev Covers (rest : List NodeId) (excepted : NodeId → Prop) {α : Type}
    (ids : List NodeId) (step : Infer σ α) : Prop :=
  Visits Session.Orderly (Session.Explores rest excepted)
    (fun id session => session.Settled id) ids step

variable {setting : Setting σ} {rest : List NodeId} {excepted : NodeId → Prop}

theorem traversal_covers (setting : Setting σ) :
    Traversal setting fun ids step => Covers rest excepted ids step := by
  apply Traversal.ofVisits
  · intro first second third early late
    exact early.trans late
  · intro before after id explores settled
    exact explores.settled settled
  · intro session facts orderly learned
    have same := learned.sameNodes
    exact ⟨orderly.ofFacts same.nodeTypes same.argumentTypes, .learned learned⟩

/-- What the expander answers is built on top of the tree. -/
theorem offer_covers
    (adds : setting.expander.OnlyAdds)
    (id : NodeId) (receiver : Ty) :
    Covers rest excepted [] (offer setting id receiver) := by
  intro before answer after orderly returned
  cases returned
  refine ⟨⟨orderly.consistent, orderly.lists⟩, ?_, nofun⟩
  apply Session.Explores.ofGrows
  · exact Iff.rfl
  · rfl
  · exact fun known => known
  · exact adds _ _ _ _

/-- A splice is explored once the expansion is settled: until then the parent
of the call depends on a node that nobody has visited. -/
theorem splice_covers
    {infer : NodeId → Infer σ (Option Ty)} {id expansion : NodeId}
    (visits : Covers rest (fun _ => False) [expansion] (infer expansion)) :
    Covers rest (fun other => other = id) [] (do
      splice id expansion
      infer expansion) := by
  intro before answer after orderly returned
  obtain ⟨_, spliced, splices, visited⟩ := returns_bind.mp returned
  obtain ⟨parent, arena, replaced, ended⟩ := returns_splice splices
  obtain ⟨node, kind, present, refilled, rfl⟩ := Arena.replaceChild_ok replaced
  have begun : spliced.Orderly := by
    subst ended
    exact ⟨orderly.consistent, orderly.lists⟩
  obtain ⟨upheld, explores, settled⟩ := visits begun visited
  subst ended
  have expanded : after.Handled rest expansion :=
    .inl (settled expansion (List.mem_singleton_self expansion))
  refine ⟨upheld, ?_, nofun⟩
  constructor
  · intro other settled
    exact explores.settled settled
  · intro other held found
    by_cases same : other = parent
    · subst same
      rw [present] at found
      cases found
      obtain ⟨later, stands, under, sort, slots⟩ :=
        explores.kept (Arena.find?_setKind_self kind present)
      refine ⟨later, stands, under, sort.trans refilled.isMethod, ?_⟩
      intro child member
      rcases slots child member with inside | handled
      · rcases refilled.dependencies.mem inside with earlier | rfl
        · exact .inl earlier
        · exact .inr expanded
      · exact .inr handled
    · exact explores.kept ((Arena.find?_setKind_of_ne _ _ same).trans found)
  · intro other held found absent
    have missing : (before.facts.arena.setKind parent kind).find? other = none := by
      have different : other ≠ parent := by
        rintro rfl
        rw [present] at absent
        cases absent
      exact (Arena.find?_setKind_of_ne _ _ different).trans absent
    exact explores.parented found missing
  · intro keyed
    exact explores.keyed (keyed.setKind parent kind)
  · intro other lexical known
    exact explores.bound known
  · intro other touched
    rcases explores.explored touched with none | (handled | ⟨found, begun⟩) | explored
    · exact none.elim
    · exact .inr (.inl (.inl handled))
    · by_cases same : other = id
      · exact .inl same
      · refine .inr (.inl (.inr ⟨found, ?_⟩))
        rw [← begun]
        exact (Table.get?_insert_of_ne _ same _).symm
    · exact .inr (.inr explored)

theorem resolveCall_covers
    (adds : setting.expander.OnlyAdds)
    {infer : NodeId → Infer σ (Option Ty)}
    (visits : ∀ child, Covers rest (fun _ => False) [child] (infer child))
    (id : NodeId) (receiver : Ty) (name : String) (types : List Ty) :
    Covers rest (fun other => other = id) []
      (resolveCall setting infer id receiver name types) := by
  have traversal : Traversal setting fun ids step =>
      Covers rest (fun other => other = id) ids step := traversal_covers setting
  refine traversal.read_bind (.locationOf id) fun location =>
    traversal.read_bind (.findMethod _ _ _ _) fun found => ?_
  cases found with
  | some method => exact traversal.read (.pure _)
  | none =>
      refine traversal.bind (offer_covers adds id receiver) fun answer => ?_
      cases answer with
      | none => exact traversal.read (.pure _)
      | some expansion => exact splice_covers (visits expansion)

/-- After its rule a node is explored: whatever a splice put in its slots is
settled like everything it depended on before. -/
theorem explored_of_rule
    {id : NodeId} {found : Node} {before middle : Session σ}
    (present : before.facts.arena.find? id = some found)
    (explores : before.Explores rest excepted middle)
    (settled : ∀ child ∈ found.kind.dependencies, middle.Settled child)
    (bound : found.kind.method?.isSome = true →
      ∃ lexical, middle.facts.definingClasses.get? id = some lexical) :
    middle.Explored rest id := by
  obtain ⟨later, stands, _, sort, slots⟩ := explores.kept present
  refine ⟨later, stands, ?_, fun isMethod => bound (sort ▸ isMethod)⟩
  intro child member
  rcases slots child member with earlier | handled
  · exact .inl (settled child earlier)
  · exact handled

theorem rule_bound
    {infer : NodeId → Infer σ (Option Ty)}
    (visits : ∀ id, Relates Session.Extends (infer id))
    {id : NodeId} {found : Node} {answer : Option Ty} {before after : Session σ}
    (returned : Returns (rule setting infer id found) before answer after)
    (isMethod : found.kind.method?.isSome = true) :
    ∃ lexical, after.facts.definingClasses.get? id = some lexical := by
  unfold rule at returned
  cases kind : found.kind with
  | methodDefinition method =>
      rw [kind] at returned
      exact methodDefinition_bound visits returned
  | _ =>
      rw [kind] at isMethod
      cases isMethod

/-- A list of parameters keeps its types when it takes its own. -/
theorem remember_arguments_covers
    {infer : NodeId → Infer σ (Option Ty)}
    (visits : ∀ child, Covers rest (fun _ => False) [child] (infer child))
    {id : NodeId} {found : Node} {list : ArgumentList NodeId}
    {before middle : Session σ} {answer : Option Ty}
    (kind : found.kind = .arguments list)
    (orderly : before.Orderly)
    (present : before.facts.arena.find? id = some found)
    (unknown : before.facts.nodeType? id = none)
    (returned : Returns (rule setting infer id found) before answer middle) :
    ((remember id answer).run middle).2.Orderly ∧
      before.Explores rest (fun _ => False) ((remember id answer).run middle).2 ∧
      ((remember id answer).run middle).2.Settled id := by
  have unlisted : before.facts.argumentTypes? id = none := by
    cases known : before.facts.argumentTypes? id with
    | none => rfl
    | some types =>
        obtain ⟨ty, typed⟩ := orderly.lists known
        rw [unknown] at typed
        cases typed
  obtain ⟨types, visited, collects, keeps, rfl⟩ :=
    returns_rule_of_arguments kind present unlisted returned
  have traversal : Traversal setting fun ids step =>
      Covers rest (fun _ => False) ids step := traversal_covers setting
  obtain ⟨upheld, explores, settled⟩ :=
    traversal.all (fun child _ => visits child) orderly collects
  have explored : visited.Explored rest id := by
    refine explored_of_rule present explores ?_ ?_
    · rw [kind]
      exact settled
    · rw [kind]
      exact nofun
  cases types with
  | none =>
      cases keeps
      exact ⟨upheld.remember id none,
        explores.remember nofun (.inr explored) none,
        Session.settled_remember upheld.consistent id none⟩
  | some types =>
      cases keeps
      have kept : visited.Explores rest (fun _ => False) { visited with
          facts := visited.facts.setArgumentTypes id types } :=
        .ofGrows Iff.rfl rfl (fun known => known) (.refl _)
      refine ⟨⟨upheld.consistent, ?_⟩, (explores.trans kept).remember nofun
        (.inr (kept.explored_of_explored explored)) (some .void),
        Session.settled_remember upheld.consistent id (some .void)⟩
      intro other others known
      by_cases same : other = id
      · subst same
        exact Table.contains_eq_true_iff.mp
          (Table.contains_insertIfNew_self visited.facts.nodeTypes other .void)
      · have earlier : visited.facts.argumentTypes? other = some others := by
          rw [← known]
          exact (Table.get?_insertIfNew_of_ne _ same _).symm
        obtain ⟨ty, typed⟩ := upheld.lists earlier
        exact ⟨ty, Table.get?_insertIfNew_of_get?_eq_some typed _⟩

theorem Covers.mono
    {wider : NodeId → Prop} {ids : List NodeId} {α : Type} {step : Infer σ α}
    (covers : Covers rest excepted ids step)
    (included : ∀ {id}, excepted id → wider id) :
    Covers rest wider ids step := by
  intro before answer after orderly returned
  obtain ⟨upheld, explores, settled⟩ := covers orderly returned
  exact ⟨upheld, explores.mono included, settled⟩

/-- A visit that ends with a value settles its node and explores every node
that it begins. -/
theorem node_covers
    (adds : setting.expander.OnlyAdds)
    (fuel : Nat) :
    ∀ id, Covers rest (fun _ => False) [id] (node setting fuel id) := by
  induction fuel with
  | zero =>
      intro id before answer after _ returned
      cases returned
  | succ fuel visits =>
      intro id before answer after orderly returned
      rcases returns_node returned with ⟨ty, known, rfl, rfl⟩ |
        ⟨expansion, inferred, middle, unknown, expanded, visited, kept⟩ |
        ⟨found, inferred, middle, unknown, _, present, visited, kept⟩
      · refine ⟨orderly, .ofGrows Iff.rfl rfl (fun bound => bound) (.refl _), ?_⟩
        intro other member
        rw [List.mem_singleton] at member
        exact .inl ⟨ty, member ▸ known⟩
      · obtain ⟨upheld, explores, _⟩ := visits expansion orderly visited
        have ended : after = ((remember id inferred).run middle).2 :=
          (congrArg Prod.snd kept).symm
        subst ended
        refine ⟨upheld.remember id inferred,
          explores.remember False.elim (.inl (.inr ⟨expansion, expanded⟩)) inferred, ?_⟩
        intro other member
        rw [List.mem_singleton] at member
        exact member ▸ Session.settled_remember upheld.consistent id inferred
      · have ended : after = ((remember id inferred).run middle).2 :=
          (congrArg Prod.snd kept).symm
        subst ended
        have covered : ((remember id inferred).run middle).2.Orderly ∧
            before.Explores rest (fun _ => False) ((remember id inferred).run middle).2 ∧
            ((remember id inferred).run middle).2.Settled id := by
          by_cases listed : ∃ list, found.kind = .arguments list
          · obtain ⟨list, kind⟩ := listed
            exact remember_arguments_covers visits kind orderly present unknown visited
          · have traversal : Traversal setting fun ids step =>
                Covers rest (fun other => other = id) ids step :=
              traversal_covers setting
            have rules : Covers rest (fun other => other = id)
                found.kind.dependencies (rule setting (node setting fuel) id found) := by
              refine traversal.rule ?_ ?_ ?_
              · exact resolveCall_covers adds visits id
              · intro list kind
                exact absurd ⟨list, kind⟩ listed
              · intro child _
                exact Covers.mono (visits child) False.elim
            obtain ⟨upheld, explores, settled⟩ := rules orderly visited
            have explored := explored_of_rule present explores settled
              (rule_bound (node_extends setting fuel) visited)
            exact ⟨upheld.remember id inferred,
              explores.remember (fun same => same) (.inr explored) inferred,
              Session.settled_remember upheld.consistent id inferred⟩
        obtain ⟨upheld, explores, settled⟩ := covered
        refine ⟨upheld, explores, ?_⟩
        intro other member
        rw [List.mem_singleton] at member
        exact member ▸ settled

end Infer

end DeferredTyping
