import DeferredTyping.Proofs.Exactness

/-!
# The queue lists dependencies first

A node is deferred after everything that its rule visited, so in the queue whatever a node
depends on stands before it or has a type.  A pass that types nothing comes to each node
after its dependencies, which are queued again by then: it leaves the queue as it was, in
the same order.  The number of idle passes therefore makes no difference to a later pass.
-/

namespace DeferredTyping

variable {σ : Type}

open Infer

namespace Session

/-- The queue holds each node once and behind what it depends on. -/
structure Lined (tree : Arena) (session : Session σ) : Prop extends Intact tree session where
  consistent : session.worklist.Consistent
  distinct : session.worklist.queue.Nodup
  before : ∀ {front id back}, session.worklist.queue = front ++ id :: back →
    ∀ child, tree.DependsOn id child →
      (∃ ty, session.facts.nodeType? child = some ty) ∨ child ∈ front

variable {tree : Arena} {session : Session σ}

namespace Lined

theorem ofEmpty (intact : session.Intact tree) (empty : session.worklist = {}) :
    session.Lined tree where
  toIntact := intact
  consistent := empty ▸ fun _ => Iff.rfl
  distinct := empty ▸ List.nodup_nil
  before {front _ _} queue := by
    rw [empty] at queue
    cases front <;> cases queue

theorem ofSame {after : Session σ} (lined : session.Lined tree) (intact : after.Intact tree)
    (worklist : after.worklist = session.worklist)
    (known : ∀ {id ty}, session.facts.nodeType? id = some ty →
      ∃ later, after.facts.nodeType? id = some later) :
    after.Lined tree where
  toIntact := intact
  consistent := worklist ▸ lined.consistent
  distinct := worklist ▸ lined.distinct
  before {front id back} queue child dependence := by
    rw [worklist] at queue
    rcases lined.before queue child dependence with ⟨ty, typed⟩ | earlier
    · exact .inl (known typed)
    · exact .inr earlier

theorem withLastChance (lined : session.Lined tree) (lastChance : Bool) :
    { session with lastChance : Session σ }.Lined tree :=
  lined.ofSame ⟨lined.arena, lined.unexpanded⟩ rfl fun known => ⟨_, known⟩

theorem learned {facts : Facts} {scriptClass : String} (lined : session.Lined tree)
    (learned : Facts.Learned scriptClass session.catalog session.facts facts) :
    { session with facts : Session σ }.Lined tree := by
  have same := learned.sameNodes
  refine lined.ofSame ⟨same.arena.trans lined.arena, same.expansions.trans lined.unexpanded⟩ rfl ?_
  intro id ty known
  exact ⟨ty, learned.extends.nodeTypes known⟩

/-- A node is deferred behind its dependencies, which are settled by then. -/
theorem push {id : NodeId} (lined : session.Lined tree)
    (settled : ∀ child, tree.DependsOn id child → session.Settled child) :
    { session with worklist := session.worklist.push id : Session σ }.Lined tree := by
  have sound := Worklist.Sound.push ⟨lined.consistent, lined.distinct⟩ id
  refine { toIntact := ⟨lined.arena, lined.unexpanded⟩, consistent := sound.consistent,
           distinct := sound.distinct, before := ?_ }
  intro front other back queue child dependence
  dsimp only at queue
  rw [lined.consistent.queue_push] at queue
  split at queue
  · exact lined.before queue child dependence
  · rcases List.append_eq_append_iff.mp queue with ⟨between, rfl, last⟩ | ⟨later, early, last⟩
    · obtain ⟨rfl, rfl⟩ : between = [] ∧ other = id := by
        cases between with
        | nil => exact ⟨rfl, (List.cons.inj last).1.symm⟩
        | cons _ _ => simp at last
      rw [List.append_nil]
      exact settled child dependence
    · cases later with
      | nil =>
          obtain rfl : other = id := (List.cons.inj last).1
          rw [List.append_nil] at early
          exact early ▸ settled child dependence
      | cons next later =>
          obtain rfl : other = next := (List.cons.inj last).1
          exact lined.before early child dependence

theorem remember {id : NodeId} {answer : Option Ty} (lined : session.Lined tree)
    (settled : answer = none → ∀ child, tree.DependsOn id child → session.Settled child) :
    ((Infer.remember id answer).run session).2.Lined tree := by
  cases answer with
  | none => exact lined.push (settled rfl)
  | some ty =>
      refine lined.ofSame ⟨lined.arena, lined.unexpanded⟩ rfl ?_
      intro other known typed
      exact ⟨known, Table.get?_insertIfNew_of_get?_eq_some typed ty⟩

end Lined

end Session

namespace Infer

variable {tree : Arena} {setting : Setting σ}

/-- A step keeps the queue in line and settles the nodes that it visits. -/
abbrev Lines (tree : Arena) {α : Type} (ids : List NodeId) (step : Infer σ α) : Prop :=
  Visits (Session.Lined tree) Session.Extends (fun id session => session.Settled id) ids step

theorem traversal_lines (setting : Setting σ) :
    Traversal setting fun ids step => Lines tree ids step :=
  .ofVisits (fun _ _ _ => Session.Extends.trans)
    (fun _ _ _ extended settled => settled.later extended)
    fun lined learned => ⟨lined.learned learned, .ofFacts learned.extends⟩

/-- Parameters are visited unless their types are kept, and then the list has a type. -/
theorem arguments_lines
    (setting : Setting σ)
    {infer : NodeId → Infer σ (Option Ty)} (visits : ∀ child, Lines tree [child] (infer child))
    {id : NodeId} {found : Node} {list : ArgumentList NodeId} (present : tree.find? id = some found)
    (kind : found.kind = .arguments list) {before after : Session σ} {types : Option (List Ty)}
    (lined : before.Lined tree) (returned : Returns (arguments infer id) before types after) :
    after.Lined tree ∧ (types = none → ∀ child ∈ list.typed, after.Settled child) := by
  have listed : before.facts.arena.argumentsOf id = .ok list :=
    Arena.argumentsOf_of_find? (lined.arena ▸ present) kind
  rcases returns_arguments returned with
    ⟨known, _, rfl, rfl⟩ | ⟨other, middle, _, found, visited, kept⟩
  · exact ⟨lined, fun missing => by cases missing⟩
  · rw [listed] at found
    cases found
    obtain ⟨lined, _, settled⟩ :=
      (traversal_lines setting).all (fun child _ => visits child) lined visited
    cases types with
    | none =>
        cases kept
        exact ⟨lined, fun _ => settled⟩
    | some types =>
        cases kept
        exact ⟨lined.ofSame ⟨lined.arena, lined.unexpanded⟩ rfl fun typed => ⟨_, typed⟩,
          fun missing => by cases missing⟩

/-- A rule that finds no type has settled everything its node depends on. -/
theorem rule_lines
    (declines : setting.expander.Declines)
    {infer : NodeId → Infer σ (Option Ty)} (visits : ∀ child, Lines tree [child] (infer child))
    {id : NodeId} {found : Node} (present : tree.find? id = some found)
    {before after : Session σ} {answer : Option Ty} (lined : before.Lined tree)
    (returned : Returns (rule setting infer id found) before answer after) :
    after.Lined tree ∧
      (answer = none → ∀ child, tree.DependsOn id child → after.Settled child) := by
  have depends : ∀ {child}, tree.DependsOn id child → child ∈ found.kind.dependencies := by
    rintro child ⟨node, stored, member⟩
    cases present.symm.trans stored
    exact member
  by_cases listed : ∃ list, found.kind = .arguments list
  · obtain ⟨list, kind⟩ := listed
    rw [rule, kind] at returned
    obtain ⟨types, listed, rfl⟩ := returns_map.mp returned
    obtain ⟨lined, settled⟩ := arguments_lines setting visits present kind lined listed
    refine ⟨lined, fun none child dependence => settled (by simpa using none) child ?_⟩
    have member := depends dependence
    rw [kind] at member
    exact member
  · have rules : Lines tree found.kind.dependencies (rule setting infer id found) :=
      (traversal_lines setting).rule
        (fun receiver name types =>
          (traversal_lines setting).read (.resolveCall declines id receiver name types))
        (fun list kind => absurd ⟨list, kind⟩ listed) fun child _ => visits child
    obtain ⟨lined, _, settled⟩ := rules lined returned
    exact ⟨lined, fun _ child dependence => settled child (depends dependence)⟩

/-- A visit keeps the queue in line. -/
theorem node_lines
    (declines : setting.expander.Declines)
    (fuel : Nat) :
    ∀ id, Lines tree [id] (node setting fuel id) := by
  induction fuel with
  | zero =>
      intro id before answer after _ returned
      cases returned
  | succ fuel visits =>
      intro id before answer after lined returned
      have extended := (node_extends setting (fuel + 1) id).returned returned
      suffices ends : after.Lined tree ∧ after.Settled id from
        ⟨ends.1, extended, by simpa using ends.2⟩
      rcases returns_node returned with ⟨ty, known, _, rfl⟩ |
        ⟨expansion, _, _, _, expanded, _, _⟩ |
        ⟨found, inferred, middle, _, _, present, visited, kept⟩
      · exact ⟨lined, .inl ⟨ty, known⟩⟩
      · rw [Facts.expansionOf?, lined.unexpanded] at expanded
        cases expanded
      · obtain rfl : after = ((remember id inferred).run middle).2 := (congrArg Prod.snd kept).symm
        rw [lined.arena] at present
        obtain ⟨lined, settled⟩ := rule_lines declines visits present lined visited
        exact ⟨lined.remember settled, Session.settled_remember lined.consistent id inferred⟩

/-- The queue is this list, and what was known in an earlier session is known. -/
structure Standing (tree : Arena) (base : Session σ) (front : List NodeId) (session : Session σ) :
    Prop extends Session.Intact tree session where
  consistent : session.worklist.Consistent
  queue : session.worklist.queue = front
  facts : base.facts.Extends session.facts

/-- A step that leaves the queue as it is. -/
abbrev KeepsQueue (tree : Arena) (base : Session σ) (front : List NodeId) {α : Type}
    (step : Infer σ α) : Prop :=
  Visits (Standing tree base front) (fun _ _ => True) (fun _ _ => True) [] step

variable {base : Session σ} {front : List NodeId}

theorem traversal_keepsQueue (setting : Setting σ) :
    Traversal setting fun _ step => KeepsQueue tree base front step where
  own {_ step} own before value after standing returned := by
    obtain ⟨facts, learned, ended⟩ := own.learns before
    rw [Returns] at returned
    rw [returned] at ended
    subst ended
    have same := Facts.Learned.sameNodes learned
    have intact : { before with facts : Session σ }.Intact tree :=
      ⟨same.arena.trans standing.arena, same.expansions.trans standing.unexpanded⟩
    have extended := standing.facts.trans (Facts.Learned.extends learned)
    exact ⟨⟨intact, standing.consistent, standing.queue, extended⟩, trivial, List.forall_mem_nil _⟩
  bind first second := by
    have both := first.bind (fun _ _ _ _ _ => trivial) (fun _ _ _ _ _ => trivial) second
    exact both
  fewer keeps _ := keeps

theorem rule_keepsQueue
    (declines : setting.expander.Declines)
    {infer : NodeId → Infer σ (Option Ty)} {id : NodeId} {found : Node}
    (present : tree.find? id = some found)
    (visits : ∀ child ∈ found.kind.dependencies, KeepsQueue tree base front (infer child)) :
    KeepsQueue tree base front (rule setting infer id found) := by
  have traversal : Traversal setting fun _ step => KeepsQueue tree base front step :=
    traversal_keepsQueue setting
  refine traversal.rule (fun receiver name types =>
    traversal.read (.resolveCall declines id receiver name types)) (fun list kind => ?_) visits
  intro before types after standing returned
  rw [kind] at visits
  have listed : before.facts.arena.argumentsOf id = .ok list :=
    Arena.argumentsOf_of_find? (standing.arena ▸ present) kind
  rcases returns_arguments returned with
    ⟨known, _, _, rfl⟩ | ⟨other, _, _, found, visited, kept⟩
  · exact ⟨standing, trivial, List.forall_mem_nil _⟩
  · rw [listed] at found
    cases found
    refine traversal.allKept visits (fun types => ?_) standing
      (returns_bind.mpr ⟨_, _, visited, kept⟩)
    cases types with
    | none => exact traversal.read (.pure _)
    | some types =>
        intro before value after standing kept
        cases kept
        have extended := standing.facts.trans (Facts.extends_setArgumentTypes _ id types)
        exact ⟨⟨⟨standing.arena, standing.unexpanded⟩, standing.consistent, standing.queue,
          extended⟩, trivial, List.forall_mem_nil _⟩

/-- Nodes that have a type or are queued already can be visited without changing a queue
that is closed under dependencies. -/
theorem node_keepsQueue
    (declines : setting.expander.Declines)
    (closed : ∀ id ∈ front, ∀ child, tree.DependsOn id child →
      (∃ ty, base.facts.nodeType? child = some ty) ∨ child ∈ front)
    (fuel : Nat) :
    ∀ id, ((∃ ty, base.facts.nodeType? id = some ty) ∨ id ∈ front) →
      KeepsQueue tree base front (node setting fuel id) := by
  induction fuel with
  | zero =>
      intro id _ before value after _ returned
      cases returned
  | succ fuel visits =>
      intro id placed before value after standing returned
      suffices ends : Standing tree base front after from ⟨ends, trivial, List.forall_mem_nil _⟩
      rcases returns_node returned with ⟨ty, known, _, rfl⟩ |
        ⟨expansion, _, _, _, expanded, _, _⟩ |
        ⟨found, inferred, middle, unknown, _, present, visited, kept⟩
      · exact standing
      · rw [Facts.expansionOf?, standing.unexpanded] at expanded
        cases expanded
      · rw [standing.arena] at present
        have queued : id ∈ front := by
          rcases placed with ⟨ty, known⟩ | queued
          · rw [standing.facts.nodeTypes known] at unknown
            cases unknown
          · exact queued
        obtain ⟨standing, _, _⟩ := rule_keepsQueue declines present
          (fun child member => visits child (closed id queued child ⟨found, present, member⟩))
          standing visited
        cases inferred with
        | some ty =>
            cases kept
            exact ⟨⟨standing.arena, standing.unexpanded⟩, standing.consistent, standing.queue,
              standing.facts.trans (Facts.extends_setNodeType _ id ty)⟩
        | none =>
            cases kept
            have again : middle.worklist.push id = middle.worklist := by
              unfold Worklist.push
              rw [if_pos]
              rw [List.contains_iff_mem, standing.consistent id, standing.queue]
              exact queued
            dsimp only
            rw [again]
            exact standing

end Infer

namespace Typer

variable {typer : Typer σ} {tree : Arena}

theorem infer_lines
    (declines : typer.expander.Declines)
    (id : NodeId) :
    Lines tree [id] (typer.infer id) := by
  intro before answer after lined returned
  rw [Returns, run_infer] at returned
  exact node_lines declines _ id lined returned

theorem each_lines
    (declines : typer.expander.Declines)
    (ids : List NodeId) :
    Lines tree ids (each typer.infer ids) :=
  (traversal_lines typer.setting).each fun id _ => infer_lines declines id

/-- Visiting the roots puts the deferred nodes in line, without a last chance. -/
theorem roots_lined
    (declines : typer.expander.Declines)
    {catalog : Catalog} {state : σ} {registered visited : Session σ} {ids : List NodeId}
    (registers : typer.registerTypes.run (start tree catalog state) = (.ok (), registered))
    (visits : (each typer.infer ids).run registered = (.ok (), visited)) :
    visited.Lined tree ∧ visited.lastChance = false := by
  obtain ⟨classes, declaredConstructors, facts, added, rfl, _⟩ :=
    typer.registerTypes_added registers
  have same := added.learned.sameNodes
  have intact : { start tree catalog state with
      catalog := classes, declaredConstructors, facts : Session σ }.Intact tree :=
    ⟨same.arena, same.expansions⟩
  have grows := each_growsWithin declines ids _ intact
  rw [visits] at grows
  exact ⟨(each_lines declines ids (.ofEmpty intact rfl) visits).1, grows.lastChance⟩

/-- A pass keeps the queue in line. -/
theorem pass_lined
    (declines : typer.expander.Declines)
    {session after : Session σ} {productive : Bool}
    (lined : session.Lined tree)
    (passed : (pass typer.infer).run session = (.ok productive, after)) :
    after.Lined tree := by
  have started : (passStart session).Lined tree :=
    .ofEmpty ⟨lined.arena, lined.unexpanded⟩ rfl
  rcases run_pass typer.infer session with ⟨_, _, _, run⟩ | ⟨other, visited, run⟩
  · rw [run] at passed
    cases passed
  · rw [run] at passed
    cases passed
    exact (each_lines declines _ started visited).1

/-- A node of the queue whose predecessors are deferred again is deferred next, unless it
takes a type. -/
theorem infer_defers
    (declines : typer.expander.Declines)
    {session : Session σ} (lined : session.Lined tree) {front rest : List NodeId} {id : NodeId}
    (queue : session.worklist.queue = front ++ id :: rest) {before after : Session σ}
    {answer : Option Ty} (standing : Standing tree session front before)
    (returned : Returns (typer.infer id) before answer after)
    (untyped : after.facts.nodeType? id = none) :
    Standing tree session (front ++ [id]) after := by
  have closed : ∀ other ∈ front, ∀ child, tree.DependsOn other child →
      (∃ ty, session.facts.nodeType? child = some ty) ∨ child ∈ front := by
    intro other member child dependence
    obtain ⟨earlier, later, split⟩ := List.append_of_mem member
    rw [split, List.append_assoc] at queue
    rcases lined.before queue child dependence with typed | placed
    · exact .inl typed
    · exact .inr (split ▸ List.mem_append_left _ placed)
  have fresh : id ∉ front := by
    intro member
    have distinct := lined.distinct
    rw [queue] at distinct
    exact (List.nodup_append.mp distinct).2.2 id member id List.mem_cons_self rfl
  rw [Returns, run_infer] at returned
  rcases returns_node returned with ⟨ty, known, _, rfl⟩ |
    ⟨expansion, _, _, _, expanded, _, _⟩ |
    ⟨found, inferred, middle, unknown, _, present, visited, kept⟩
  · rw [untyped] at known
    cases known
  · rw [Facts.expansionOf?, standing.unexpanded] at expanded
    cases expanded
  · rw [standing.arena] at present
    obtain ⟨standing, _, _⟩ := rule_keepsQueue declines present
      (fun child member => node_keepsQueue declines closed _ child
        (lined.before queue child ⟨found, present, member⟩)) standing visited
    cases inferred with
    | some ty =>
        cases kept
        obtain ⟨known, typed⟩ := Table.contains_eq_true_iff.mp
          (Table.contains_insertIfNew_self middle.facts.nodeTypes id ty)
        cases untyped.symm.trans typed
    | none =>
        cases kept
        have pushed := standing.consistent.queue_push id
        rw [standing.queue, if_neg fresh] at pushed
        exact ⟨⟨standing.arena, standing.unexpanded⟩, standing.consistent.push id, pushed,
          standing.facts⟩

theorem each_defers
    (declines : typer.expander.Declines)
    {session : Session σ} (lined : session.Lined tree) {front rest : List NodeId}
    (queue : session.worklist.queue = front ++ rest) {before after : Session σ}
    (standing : Standing tree session front before)
    (returned : Returns (each typer.infer rest) before () after)
    (untyped : ∀ id ∈ rest, after.facts.nodeType? id = none) :
    after.worklist.queue = session.worklist.queue := by
  induction rest generalizing front before with
  | nil =>
      cases returned
      rw [queue, List.append_nil, standing.queue]
  | cons id rest ih =>
      obtain ⟨answer, middle, visit, others⟩ := returns_bind.mp returned
      have intact : middle.Intact tree := by
        have grows := infer_growsWithin declines id before standing.toIntact
        rw [visit] at grows
        exact grows.intact standing.toIntact
      have unknown : middle.facts.nodeType? id = none := by
        have grows := each_growsWithin declines rest middle intact
        rw [others] at grows
        cases known : middle.facts.nodeType? id with
        | none => rfl
        | some ty =>
            have typed := grows.facts.nodeTypes known
            cases (untyped id List.mem_cons_self).symm.trans typed
      have shifted : session.worklist.queue = (front ++ [id]) ++ rest := by
        rw [queue, List.append_assoc, List.singleton_append]
      exact ih shifted (infer_defers declines lined queue standing visit unknown) others
        fun other member => untyped other (List.mem_cons_of_mem id member)

/-- A pass that types nothing leaves the queue as it was. -/
theorem pass_idle_queue
    (declines : typer.expander.Declines)
    {session after : Session σ} (lined : session.Lined tree)
    (passed : (pass typer.infer).run session = (.ok false, after)) :
    after.worklist.queue = session.worklist.queue := by
  have untyped := pending_untyped_of_pass passed
  have started : Standing tree session [] (passStart session) :=
    ⟨⟨lined.arena, lined.unexpanded⟩, fun _ => Iff.rfl, rfl, .refl _⟩
  rcases run_pass typer.infer session with ⟨_, _, _, run⟩ | ⟨other, visited, run⟩
  · rw [run] at passed
    cases passed
  · rw [run] at passed
    obtain rfl : other = after := congrArg Prod.snd passed
    refine each_defers declines lined (List.nil_append _).symm started visited fun id member => ?_
    have absent := untyped id member
    rw [Table.contains, Option.isSome_eq_false_iff, Option.isNone_iff_eq_none] at absent
    exact absent

end Typer

end DeferredTyping
