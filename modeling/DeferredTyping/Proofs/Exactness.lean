import Mathlib.Data.List.Sort
import DeferredTyping.Proofs.Completeness
import DeferredTyping.Proofs.Fuel
import DeferredTyping.Proofs.Quiet
import DeferredTyping.Proofs.Reachable

/-!
# Giving up is exact and final

When the driver gives up, its last pass typed none of the deferred nodes.
Everything that they depend on was settled before that pass, so it typed no
node at all, learned nothing and deferred the same nodes again.  A visit takes
no notice of the worklist: visiting the same nodes once more finds the same
answers, and the driver gives up with the same report.
-/

namespace DeferredTyping

variable {σ : Type}

open Infer

namespace Infer

variable {setting : Setting σ}

/-- Without macros, a visit takes no notice of the worklist. -/
theorem node_blind
    (declines : setting.expander.Declines)
    (fuel : Nat) :
    ∀ id, Blind (node setting fuel id) := by
  have traversal : Traversal setting fun _ (step : Infer σ _) => Blind step :=
    { own := fun own => own.blind
      bind := fun first second => first.bind second
      fewer := fun blind _ => blind }
  have keeps : ∀ id answer, Blind (remember id answer : Infer σ _) := by
    intro id answer
    cases answer with
    | some ty => exact ((BlindStep.modifyFacts _).bind fun _ => .pure _).blind
    | none =>
        intro left right alike
        exact ⟨rfl, alike.defer id⟩
  induction fuel with
  | zero =>
      intro id left right alike
      exact ⟨rfl, alike⟩
  | succ fuel visits =>
      intro id
      refine BlindStep.getFacts.blind.bind fun facts => ?_
      split
      · exact (BlindStep.pure _).blind
      · exact (visits _).bind (keeps id)
      · refine (BlindStep.ofTree (facts.arena.require_blamesTree id)).blind.bind fun found => ?_
        refine Blind.bind (traversal.rule ?_ ?_ fun child _ => visits child) (keeps id)
        · intro receiver name types
          exact (ReadStep.resolveCall declines id receiver name types).blind
        · intro list _
          refine traversal.arguments visits fun types => ?_
          cases types with
          | none => exact (BlindStep.pure _).blind
          | some types => exact ((BlindStep.modifyFacts _).bind fun _ => .pure _).blind

/-- Resolving a signature leaves it known. -/
theorem signatureOf_resolved
    {id : NodeId} {method : Method NodeId} {signature : Signature}
    {before after : Session σ}
    (returned : Returns (signatureOf setting id method) before signature after) :
    ∃ known, after.facts.signature? id = some known := by
  rcases returns_signatureOf returned with ⟨known, rfl⟩ | ⟨_, _, location, registers⟩
  · exact ⟨signature, known⟩
  · have stored : (before.facts.signatures.insert id signature).get? id = some signature :=
      Table.get?_insert_self _ _ _
    obtain ⟨added, _⟩ := AddStep.added (.registerDeclared id method signature location)
      registers
    obtain ⟨later, known, _⟩ := added.learned.extends.signatures stored
    exact ⟨later, known⟩

theorem declareSignatures_resolved
    {methods : List (NodeId × Method NodeId)} {before after : Session σ}
    (returned : Returns (declareSignatures setting methods) before () after) :
    ∀ entry ∈ methods, ∃ known, after.facts.signature? entry.1 = some known := by
  induction methods generalizing before with
  | nil => exact nofun
  | cons entry rest ih =>
      obtain ⟨signature, middle, resolves, others⟩ := returns_bind.mp returned
      intro other member
      rcases List.mem_cons.mp member with rfl | later
      · obtain ⟨known, resolved⟩ := signatureOf_resolved resolves
        obtain ⟨added, _⟩ := AddStep.added (declareSignatures_adds rest) others
        obtain ⟨last, kept, _⟩ := added.learned.extends.signatures resolved
        exact ⟨last, kept⟩
      · exact ih others other later

/-- Visits that leave the session alike do so again from any session alike. -/
theorem each_again
    {infer : NodeId → Infer σ (Option Ty)} {base : Session σ} {ids : List NodeId}
    (again : ∀ id ∈ ids, ∀ session, session.Alike base →
      ∃ answer later, Returns (infer id) session answer later ∧ later.Alike base) :
    ∀ session, session.Alike base →
      ∃ later, Returns (each infer ids) session () later ∧ later.Alike base := by
  induction ids with
  | nil =>
      intro session alike
      exact ⟨session, rfl, alike⟩
  | cons id rest ih =>
      intro session alike
      obtain ⟨answer, middle, visit, between⟩ := again id List.mem_cons_self session alike
      obtain ⟨later, visits, ended⟩ :=
        ih (fun other member => again other (List.mem_cons_of_mem id member)) middle between
      exact ⟨later, returns_bind.mpr ⟨answer, middle, visit, visits⟩, ended⟩

/-- When no node takes a type while nodes are visited, each visit on the way
leaves the session alike. -/
theorem visits_again
    {arena : Arena} {visited : NodeId → Prop} {infer : NodeId → Infer σ (Option Ty)}
    {ids : List NodeId}
    (visits : ∀ id ∈ ids, LearnsByTyping arena visited [id] (infer id))
    (blind : ∀ id, Blind (infer id))
    {before after : Session σ}
    (prepared : before.Prepared arena visited)
    (returned : Returns (each infer ids) before () after)
    (idle : before.Idle after) :
    ∀ id ∈ ids, ∀ session, session.Alike before →
      ∃ answer later, Returns (infer id) session answer later ∧ later.Alike before := by
  induction ids generalizing before with
  | nil => exact nofun
  | cons id rest ih =>
      obtain ⟨answer, middle, visit, others⟩ := returns_bind.mp returned
      have tail : ∀ other ∈ rest, LearnsByTyping arena visited [other] (infer other) :=
        fun other member => visits other (List.mem_cons_of_mem id member)
      obtain ⟨prepared', first, _⟩ := visits id List.mem_cons_self prepared visit
      obtain ⟨_, second, _⟩ := sequential_learnsByTyping.each tail prepared' others
      have alike : before.Alike middle := first.unchanged (idle.left second.toExtends)
      intro other member session same
      rcases List.mem_cons.mp member with rfl | later
      · obtain ⟨answers, ended⟩ := blind other same
        rw [visit] at answers ended
        exact ⟨answer, ((infer other).run session).2, Prod.ext answers rfl,
          ended.trans alike.symm⟩
      · obtain ⟨found, last, visit', ended⟩ :=
          ih tail prepared' others (idle.right first.toExtends) other later session
            (same.trans alike)
        exact ⟨found, last, visit', ended.trans alike.symm⟩

end Infer

namespace Session

/-- Between two passes of a run that began by registering the declarations of
this tree. -/
structure Ready (tree : Arena) (session : Session σ) : Prop
    extends Covered tree [] session, Intact tree session where
  signed : ∀ {id method}, tree.method? id = some method →
    ∃ signature, session.facts.signature? id = some signature

namespace Ready

variable {tree : Arena} {session : Session σ}

theorem withLastChance
    (ready : session.Ready tree)
    (lastChance : Bool) :
    { session with lastChance : Session σ }.Ready tree where
  toCovered := ready.toCovered.ofSameNodes ⟨rfl, rfl, rfl, rfl⟩ (.refl _)
  toIntact := ⟨ready.arena, ready.unexpanded⟩
  signed := ready.signed

/-- Settled nodes know their classes, and depend on settled nodes only. -/
theorem prepared
    (ready : session.Ready tree) :
    (passStart session).Prepared tree fun id => session.Settled id where
  toIntact := ⟨ready.arena, ready.unexpanded⟩
  signatures := ready.signed
  classes {id method} settled defines := by
    obtain ⟨node, present, _, bound⟩ := ready.explored (.inl (.inl settled))
    apply bound
    rw [Arena.method?, ← ready.arena, present] at defines
    exact Option.isSome_iff_exists.mpr ⟨method, defines⟩

end Ready

end Session

namespace Typer

variable {typer : Typer σ} {tree : Arena}

theorem infer_blind
    (declines : typer.expander.Declines)
    (id : NodeId) :
    Blind (typer.infer id) := by
  intro left right alike
  rw [run_infer, run_infer, nodeBound, nodeBound, alike.facts]
  exact node_blind declines _ id alike

theorem infer_learnsByTyping
    (declines : typer.expander.Declines)
    {visited : NodeId → Prop}
    (closed : ∀ {id child}, visited id → tree.DependsOn id child → visited child)
    {id : NodeId}
    (inside : visited id) :
    LearnsByTyping tree visited [id] (typer.infer id) := by
  intro before answer after prepared returned
  rw [Returns, run_infer] at returned
  exact node_learnsByTyping declines closed _ id inside prepared returned

theorem settled_visits
    (declines : typer.expander.Declines)
    {session : Session σ}
    (ready : session.Ready tree) :
    ∀ id ∈ session.worklist.queue,
      LearnsByTyping tree (fun id => session.Settled id) [id] (typer.infer id) := by
  intro id member
  refine infer_learnsByTyping declines ?_ (.inr member)
  intro top child settled dependence
  exact ready.settled_of_dependsOn settled (ready.arena.symm ▸ dependence)

theorem pass_ready
    (declines : typer.expander.Declines)
    {session after : Session σ} {productive : Bool}
    (ready : session.Ready tree)
    (passed : (pass typer.infer).run session = (.ok productive, after)) :
    after.Ready tree ∧ ∀ {id}, session.Settled id → after.Settled id := by
  have grows := pass_growsWithin declines ready.toIntact passed
  obtain ⟨covered, settled⟩ :=
    pass_covered declines.onlyAdds ready.toCovered passed
  have intact : after.Intact tree := grows.intact ⟨ready.arena, ready.unexpanded⟩
  refine ⟨{ covered, intact with signed := ?_ }, settled⟩
  intro id method defines
  obtain ⟨signature, known⟩ := ready.signed defines
  obtain ⟨later, kept, _⟩ := grows.facts.signatures known
  exact ⟨later, kept⟩

/-- A pass that types none of the deferred nodes types no node, and defers the
same nodes again. -/
theorem pass_idle
    (declines : typer.expander.Declines)
    {session after : Session σ}
    (ready : session.Ready tree)
    (passed : (pass typer.infer).run session = (.ok false, after)) :
    (passStart session).Idle after ∧
      ∀ id, id ∈ after.worklist.queue ↔ id ∈ session.worklist.queue := by
  have grows := pass_growsWithin declines ready.toIntact passed
  have untyped := pending_untyped_of_pass passed
  have reached : ∀ {id}, (∃ top ∈ session.worklist.queue, tree.Below top id) →
      session.Settled id := by
    rintro id ⟨top, queued, below⟩
    exact ready.settled_of_below (.inr queued) (ready.arena.symm ▸ below)
  have queued : ∀ {id}, session.facts.nodeType? id = none →
      (∃ top ∈ session.worklist.queue, tree.Below top id) →
      id ∈ session.worklist.queue := by
    intro id unknown below
    rcases reached below with ⟨ty, known⟩ | member
    · rw [unknown] at known
      cases known
    · exact member
  constructor
  · intro id ty known
    rcases grows.typed known with earlier | ⟨unknown, below, _⟩
    · exact ⟨ty, earlier⟩
    · have absent := untyped id (queued unknown below)
      rw [Table.contains, show after.facts.nodeTypes.get? id = some ty from known] at absent
      cases absent
  · intro id
    constructor
    · intro member
      rcases grows.queued member with none | ⟨unknown, below⟩
      · cases none
      · exact queued unknown below
    · intro member
      rcases (pass_ready declines ready passed).2 (.inr member) with ⟨ty, known⟩ | queued
      · have absent := untyped id member
        rw [Table.contains, show after.facts.nodeTypes.get? id = some ty from known] at absent
        cases absent
      · exact queued

/-- A pass that types nothing learns nothing. -/
theorem pass_idle_alike
    (declines : typer.expander.Declines)
    {session after : Session σ}
    (ready : session.Ready tree)
    (passed : (pass typer.infer).run session = (.ok false, after)) :
    after.Alike (passStart session) := by
  obtain ⟨idle, _⟩ := pass_idle declines ready passed
  rcases run_pass typer.infer session with ⟨stop, other, _, run⟩ | ⟨other, visited, run⟩
  · rw [run] at passed
    cases passed
  · rw [run] at passed
    obtain rfl : other = after := congrArg Prod.snd passed
    have quiet :=
      (sequential_learnsByTyping.each (settled_visits declines ready) ready.prepared visited).2.1
    exact (quiet.unchanged idle).symm

/-- After a pass that types nothing, one more pass learns nothing and types
nothing. -/
theorem pass_again
    (declines : typer.expander.Declines)
    {session after : Session σ}
    (ready : session.Ready tree)
    (passed : (pass typer.infer).run session = (.ok false, after)) :
    ∃ later, (pass typer.infer).run after = (.ok false, later) ∧ later.Alike after ∧
      ∀ id, id ∈ later.worklist.queue ↔ id ∈ after.worklist.queue := by
  obtain ⟨idle, same⟩ := pass_idle declines ready passed
  rcases run_pass typer.infer session with ⟨stop, other, _, run⟩ | ⟨other, visited, run⟩
  · rw [run] at passed
    cases passed
  rw [run] at passed
  obtain rfl : other = after := congrArg Prod.snd passed
  have untyped := pending_untyped_of_pass (run.trans passed)
  have visits := settled_visits declines ready
  have alike := pass_idle_alike declines ready (run.trans passed)
  have found := visits_again visits (infer_blind declines) ready.prepared visited idle
  have again : ∀ id ∈ other.worklist.queue, ∀ start : Session σ,
      start.Alike (passStart session) →
      ∃ answer later, Returns (typer.infer id) start answer later ∧
        later.Alike (passStart session) :=
    fun id member => found id ((same id).mp member)
  obtain ⟨later, visitedAgain, ended⟩ :=
    each_again again (passStart other) { alike with }
  have unchanged : later.Alike other := ended.trans alike.symm
  have passedAgain : (pass typer.infer).run other = (.ok false, later) := by
    rcases run_pass typer.infer other with ⟨stop, last, stopped, _⟩ | ⟨last, visits', run'⟩
    · rw [visitedAgain] at stopped
      cases stopped
    · rw [visitedAgain] at visits'
      cases visits'
      have idle' : other.worklist.queue.any (fun id => later.facts.nodeTypes.contains id) =
          false := by
        rw [List.any_eq_false]
        intro id member
        rw [unchanged.facts, untyped id ((same id).mp member)]
        exact Bool.false_ne_true
      rw [run', idle']
  have ready' := (pass_ready declines ready (run.trans passed)).1
  exact ⟨later, passedAgain, unchanged, (pass_idle declines ready' passedAgain).2⟩

/-- The driver gives up after a pass that typed none of the deferred nodes and
that left no last chance. -/
structure GaveUp (typer : Typer σ) (tree : Arena) (unresolved : List UnresolvedNode)
    (last after : Session σ) : Prop where
  ready : last.Ready tree
  pending : last.worklist.isEmpty = false
  passed : (pass typer.infer).run last = (.ok false, after)
  none_left : (typer.config.lastChance && !after.lastChance) = false
  report : cannotInfer after = .cannotInfer unresolved

theorem resolveWithin_gaveUp
    (declines : typer.expander.Declines)
    {unresolved : List UnresolvedNode} {after : Session σ}
    (fuel : Nat) :
    ∀ session : Session σ, session.Ready tree →
      (typer.resolveWithin fuel).run session =
        (.error (.failed (.cannotInfer unresolved)), after) →
      ∃ last, typer.GaveUp tree unresolved last after ∧
        ∀ {id}, session.Settled id → last.Settled id := by
  induction fuel with
  | zero =>
      intro session _ gaveUp
      cases gaveUp
  | succ fuel ih =>
      intro session ready gaveUp
      have turn := typer.turn fuel session
      generalize (typer.resolveWithin (fuel + 1)).run session = outcome at turn gaveUp
      cases turn with
      | done _ => cases gaveUp
      | limited _ _ => cases gaveUp
      | stopped _ passed =>
          cases gaveUp
          rcases pass_stops (infer_never_gives_up declines) ready.toIntact passed with
            fault | exhausted
          · cases fault
          · cases exhausted
      | productive _ passed =>
          obtain ⟨ready', settled⟩ := pass_ready declines ready passed
          obtain ⟨last, gave, lasts⟩ := ih _ (ready'.withLastChance false) gaveUp
          exact ⟨last, gave, fun before => lasts (settled before)⟩
      | lastChance _ passed _ =>
          obtain ⟨ready', settled⟩ := pass_ready declines ready passed
          obtain ⟨last, gave, lasts⟩ := ih _ (ready'.withLastChance true) gaveUp
          exact ⟨last, gave, fun before => lasts (settled before)⟩
      | stuck pending passed none_left =>
          obtain ⟨report, rfl⟩ := Prod.mk.inj gaveUp
          refine ⟨session, ⟨ready, pending, passed, none_left, ?_⟩, fun settled => settled⟩
          exact Stop.failed.inj (Except.error.inj report)

/-- Once the declarations are registered and the roots are visited, everything that was
reached has a type or is deferred. -/
theorem roots_ready
    (declines : typer.expander.Declines)
    (keyed : tree.Keyed)
    {catalog : Catalog} {state : σ} {registered visited : Session σ}
    (registers : typer.registerTypes.run (start tree catalog state) = (.ok (), registered))
    (visits : (each typer.infer (registered.facts.arena.roots.map Node.id)).run registered =
      (.ok (), visited)) :
    visited.Ready tree ∧ ∀ root ∈ tree.roots, visited.Settled root.id := by
  have fresh : (start tree catalog state).Covered tree [] := .start keyed catalog state
  obtain ⟨covered, roots⟩ := roots_covered declines.onlyAdds fresh rfl registers visits
  obtain ⟨declaredConstructors, resolved⟩ := returns_registerTypes registers
  obtain ⟨added, _⟩ := AddStep.added (declareSignatures_adds _) resolved
  have same := added.learned.sameNodes
  have intact : registered.Intact tree := ⟨same.arena, same.expansions⟩
  have grows := each_growsWithin declines (registered.facts.arena.roots.map Node.id)
    registered intact
  rw [visits] at grows
  have intact' : visited.Intact tree := grows.intact intact
  constructor
  · refine { covered, intact' with signed := ?_ }
    intro id method defines
    obtain ⟨signature, known⟩ := declareSignatures_resolved resolved (id, method)
      (keyed.mem_methods_iff.mpr defines)
    obtain ⟨later, kept, _⟩ := grows.facts.signatures known
    exact ⟨later, kept⟩
  · intro root member
    obtain ⟨stored, parentless⟩ := List.mem_filter.mp member
    exact roots (keyed.find?_of_mem stored) (Option.isNone_iff_eq_none.mp parentless)

theorem inferTypes_gaveUp
    (declines : typer.expander.Declines)
    (keyed : tree.Keyed)
    {catalog : Catalog} {state : σ} {unresolved : List UnresolvedNode} {after : Session σ}
    (gaveUp : typer.inferTypes.run (start tree catalog state) =
      (.error (.failed (.cannotInfer unresolved)), after)) :
    ∃ last, typer.GaveUp tree unresolved last after ∧
      ∀ root ∈ tree.roots, last.Settled root.id := by
  rcases run_inferTypes typer (start tree catalog state) with ⟨stop, other, registers, run⟩ |
    ⟨registered, registers, ⟨stop, other, visits, run⟩ | ⟨visited, visits, run⟩⟩
  · obtain ⟨_, _, _, _, _, faults⟩ := typer.registerTypes_added registers
    rw [run] at gaveUp
    cases gaveUp
    cases faults _ rfl
  · have intact : registered.Intact tree := by
      have keeps : KeepsTree tree typer.registerTypes := registerTypes_keepsTree
      have kept := keeps (start tree catalog state) ⟨rfl, rfl⟩
      rwa [registers] at kept
    rw [run] at gaveUp
    cases gaveUp
    have stops : StopsBy tree _ (each typer.infer _) :=
      each_stopsBy (infer_never_gives_up declines) (registered.facts.arena.roots.map Node.id)
    rcases stops.stops intact (congrArg Prod.fst visits) with fault | exhausted
    · cases fault
    · cases exhausted
  · obtain ⟨ready, roots⟩ := roots_ready declines keyed registers visits
    rw [run, run_resolve] at gaveUp
    obtain ⟨last, gave, settled⟩ := resolveWithin_gaveUp declines _ visited ready gaveUp
    exact ⟨last, gave, fun root member => settled (roots root member)⟩

private theorem ids_of_found
    {arena : Arena} (keyed : arena.Keyed) {ids : List NodeId}
    (found : ∀ id ∈ ids, ∃ node, arena.find? id = some node) :
    (ids.filterMap arena.find?).map Node.id = ids := by
  induction ids with
  | nil => rfl
  | cons id rest ih =>
      obtain ⟨node, present⟩ := found id List.mem_cons_self
      rw [List.filterMap_cons, present, List.map_cons, keyed.id_eq present,
        ih fun other member => found other (List.mem_cons_of_mem id member)]

namespace GaveUp

variable {unresolved : List UnresolvedNode} {last after : Session σ}

/-- The report lists the deferred nodes, each with what it is. -/
theorem ids_eq_ascending
    (gave : typer.GaveUp tree unresolved last after)
    (declines : typer.expander.Declines) :
    unresolved.map UnresolvedNode.id = after.worklist.ascending ∧
      ∀ entry ∈ unresolved, ∃ node, tree.find? entry.id = some node ∧
        entry.description = node.kind.describe ∧ entry.location = node.location := by
  have ready := (pass_ready declines gave.ready gave.passed).1
  have report : (after.worklist.ascending.filterMap after.facts.arena.find?).map
      (fun node => { id := node.id, description := node.kind.describe,
                     location := node.location : UnresolvedNode }) = unresolved :=
    TypeError.cannotInfer.inj gave.report
  subst report
  have found : ∀ id ∈ after.worklist.ascending,
      ∃ node, after.facts.arena.find? id = some node := by
    intro id member
    obtain ⟨node, present, _⟩ :=
      ready.explored (.inl (.inl (.inr (Worklist.mem_ascending.mp member))))
    exact ⟨node, present⟩
  constructor
  · rw [List.map_map]
    exact ids_of_found ready.keyed found
  · intro entry member
    obtain ⟨node, listed, rfl⟩ := List.mem_map.mp member
    obtain ⟨id, _, present⟩ := List.mem_filterMap.mp listed
    obtain rfl : node.id = id := ready.keyed.id_eq present
    exact ⟨node, ready.arena ▸ present, rfl, rfl⟩

theorem mem_ids
    (gave : typer.GaveUp tree unresolved last after)
    (declines : typer.expander.Declines)
    {id : NodeId} :
    id ∈ unresolved.map UnresolvedNode.id ↔ id ∈ last.worklist.queue := by
  rw [(gave.ids_eq_ascending declines).1, Worklist.mem_ascending]
  exact (pass_idle declines gave.ready gave.passed).2 id

/-- A node without a type that the visits came to is in the report. -/
theorem listed_of_untyped
    (gave : typer.GaveUp tree unresolved last after)
    (declines : typer.expander.Declines)
    {top id : NodeId}
    (settled : last.Settled top)
    (below : tree.Below top id)
    (unknown : after.facts.nodeType? id = none) :
    id ∈ unresolved.map UnresolvedNode.id := by
  obtain ⟨ready, lasts⟩ := pass_ready declines gave.ready gave.passed
  rcases ready.settled_of_below (lasts settled) (ready.arena.symm ▸ below) with
    ⟨ty, known⟩ | queued
  · rw [unknown] at known
    cases known
  · rw [(gave.ids_eq_ascending declines).1]
    exact Worklist.mem_ascending.mpr queued

/-- Resolving once more makes one more pass and ends with the same report. -/
theorem again
    (gave : typer.GaveUp tree unresolved last after)
    (declines : typer.expander.Declines)
    (unlimited : typer.config.maxPasses = none) :
    ∃ later, typer.resolve.run after =
        (.error (.failed (.cannotInfer unresolved)), later) ∧
      later.Alike after := by
  obtain ⟨later, passed, alike, same⟩ := pass_again declines gave.ready gave.passed
  refine ⟨later, ?_, alike⟩
  have queue : after.worklist.isEmpty = false := by
    obtain ⟨id, member⟩ := List.exists_mem_of_ne_nil last.worklist.queue
      (List.isEmpty_eq_false_iff.mp gave.pending)
    exact List.isEmpty_eq_false_iff.mpr (List.ne_nil_of_mem
      (((pass_idle declines gave.ready gave.passed).2 id).mpr member))
  have ascending : later.worklist.ascending = after.worklist.ascending := by
    apply List.Pairwise.eq_of_mem_iff later.worklist.pairwise_ascending
      after.worklist.pairwise_ascending
    intro id
    rw [Worklist.mem_ascending, Worklist.mem_ascending]
    exact same id
  have report : cannotInfer later = .cannotInfer unresolved := by
    rw [← gave.report, cannotInfer, cannotInfer, ascending, alike.facts]
  rw [run_resolve]
  have turn := typer.turn (3 * (typer.nodeBound after + 1) + 1) after
  generalize (typer.resolveWithin (3 * (typer.nodeBound after + 1) + 1 + 1)).run after =
    outcome at turn
  cases turn with
  | done empty =>
      rw [queue] at empty
      cases empty
  | limited _ bound =>
      rw [unlimited] at bound
      cases bound
  | stopped _ other =>
      rw [passed] at other
      cases other
  | productive _ other =>
      rw [passed] at other
      cases other
  | lastChance _ other left =>
      rw [passed] at other
      cases other
      rw [alike.lastChance, gave.none_left] at left
      cases left
  | stuck _ other _ =>
      rw [passed] at other
      cases other
      rw [report]

end GaveUp

/-- When typing a fresh tree gives up, the report lists nodes of the tree in
ascending order, at least one, none of which has a type; every node without a
type below a root is listed, the block slots of parameter lists aside.  Nothing
is gained by going on: resolving again ends with the same report and leaves all
facts as they are. -/
theorem cannotInfer_is_final
    (declines : typer.expander.Declines)
    (keyed : tree.Keyed)
    (unlimited : typer.config.maxPasses = none)
    {catalog : Catalog} {state : σ} {unresolved : List UnresolvedNode} {after : Session σ}
    (gaveUp : typer.inferTypes.run (start tree catalog state) =
      (.error (.failed (.cannotInfer unresolved)), after)) :
    unresolved ≠ [] ∧
    (unresolved.map UnresolvedNode.id).Pairwise (· < ·) ∧
    (∀ entry ∈ unresolved, after.facts.nodeType? entry.id = none ∧
      ∃ node, tree.find? entry.id = some node ∧
        entry.description = node.kind.describe ∧ entry.location = node.location) ∧
    (∀ root ∈ tree.roots, ∀ id, tree.Below root.id id →
      after.facts.nodeType? id = none → id ∈ unresolved.map UnresolvedNode.id) ∧
    (∀ node ∈ after.facts.untypedNodes,
      node.id ∈ unresolved.map UnresolvedNode.id ∨
      ∃ holder block held, tree.HasBlockSlot holder block ∧
        tree.find? block = some held ∧ held.kind.isBlockArgument = false ∧
        Relation.ReflTransGen tree.HasChild block node.id) ∧
    ∃ later, typer.resolve.run after =
        (.error (.failed (.cannotInfer unresolved)), later) ∧
      later.facts = after.facts := by
  obtain ⟨last, gave, roots⟩ := inferTypes_gaveUp declines keyed gaveUp
  have ready := (pass_ready declines gave.ready gave.passed).1
  obtain ⟨ids, entries⟩ := gave.ids_eq_ascending declines
  have listed : ∀ root ∈ tree.roots, ∀ id, tree.Below root.id id →
      after.facts.nodeType? id = none → id ∈ unresolved.map UnresolvedNode.id :=
    fun root member id below unknown =>
      gave.listed_of_untyped declines (roots root member) below unknown
  refine ⟨?_, ?_, ?_, listed, ?_, ?_⟩
  · rintro rfl
    obtain ⟨id, member⟩ := List.exists_mem_of_ne_nil last.worklist.queue
      (List.isEmpty_eq_false_iff.mp gave.pending)
    cases (gave.mem_ids declines).mpr member
  · rw [ids]
    exact after.worklist.pairwise_ascending
  · intro entry member
    refine ⟨?_, entries entry member⟩
    have queued := (gave.mem_ids declines).mp (List.mem_map_of_mem member)
    have absent : after.facts.nodeTypes.get? entry.id = none := by
      simpa [Table.contains] using pending_untyped_of_pass gave.passed entry.id queued
    exact absent
  · intro node member
    rcases Facts.below_root_or_in_block_slot ready.keyed member with
      ⟨root, top, below, unknown⟩ | inside
    · rw [ready.arena] at top below
      exact .inl (listed root top node.id below unknown)
    · rw [ready.arena] at inside
      exact .inr inside
  · obtain ⟨later, again, alike⟩ := gave.again declines unlimited
    exact ⟨later, again, alike.facts⟩

theorem cannotInfer_is_final_of_unknownCall :
    plain.expander.Declines ∧ unknownCall.Keyed ∧ plain.config.maxPasses = none ∧
      ∃ unresolved after, plain.inferTypes.run (start unknownCall {} ()) =
          (.error (.failed (.cannotInfer unresolved)), after) ∧
        unresolved.map UnresolvedNode.id = [1, 2, 3] ∧
        ∃ later, plain.resolve.run after =
            (.error (.failed (.cannotInfer unresolved)), later) ∧
          later.facts = after.facts := by
  have keyed : unknownCall.Keyed := ⟨by decide, by decide⟩
  have gaveUp : plain.inferTypes.run (start unknownCall {} ()) =
      (.error (.failed (.cannotInfer
        [⟨1, "script ``", {}⟩, ⟨2, "Body", {}⟩, ⟨3, "call to `answer`", {}⟩])),
        (plain.inferTypes.run (start unknownCall {} ())).2) :=
    run_eq_of_answer (by decide +kernel)
  have final := cannotInfer_is_final plain_declines keyed rfl gaveUp
  exact ⟨plain_declines, keyed, rfl, _, _, gaveUp, rfl, final.2.2.2.2.2⟩

/-- A number where a parameter list expects its block argument, beside a call
of a method that nothing defines. -/
def numberBesideUnknownCall : Arena where
  nodes := ⟨[
    (1, { id := 1, parent := none, location := {}, kind := .script "" (some 2) }),
    (2, { id := 2, parent := some 1, location := {}, kind := .body [3, 7] }),
    (3, { id := 3, parent := some 2, location := {},
          kind := .methodDefinition { name := "f", arguments := 4, body := some 6 } }),
    (4, { id := 4, parent := some 3, location := {},
          kind := .arguments { block := some 5 } }),
    (5, { id := 5, parent := some 4, location := {}, kind := .fixnum 5 }),
    (6, { id := 6, parent := some 3, location := {}, kind := .fixnum 1 }),
    (7, { id := 7, parent := some 2, location := {},
          kind := .functionalCall "g" [] none })]⟩
  nextId := 8

/-- The report leaves out a node without a type below the root that is no block
argument. -/
theorem numberBesideUnknownCall_is_not_listed :
    plain.expander.Declines ∧ numberBesideUnknownCall.Keyed ∧
      (∀ id, ¬ Relation.TransGen numberBesideUnknownCall.HasChild id id) ∧
      plain.config.maxPasses = none ∧
      ∃ unresolved after, plain.inferTypes.run (start numberBesideUnknownCall {} ()) =
          (.error (.failed (.cannotInfer unresolved)), after) ∧
        unresolved.map UnresolvedNode.id = [1, 2, 7] ∧
        after.facts.untypedNodes.map (fun node => (node.id, node.kind.label)) =
          [(1, "Script"), (2, "Body"), (5, "Fixnum"), (7, "FunctionalCall")] := by
  have gaveUp : plain.inferTypes.run (start numberBesideUnknownCall {} ()) =
      (.error (.failed (.cannotInfer
        [⟨1, "script ``", {}⟩, ⟨2, "Body", {}⟩, ⟨7, "call to `g`", {}⟩])),
        (plain.inferTypes.run (start numberBesideUnknownCall {} ())).2) :=
    run_eq_of_answer (by decide +kernel)
  have untyped : (plain.inferTypes.run
      (start numberBesideUnknownCall {} ())).2.facts.untypedNodes.map
        (fun node => (node.id, node.kind.label)) =
      [(1, "Script"), (2, "Body"), (5, "Fixnum"), (7, "FunctionalCall")] := by
    decide +kernel
  exact ⟨plain_declines, ⟨by decide, by decide⟩, Arena.no_cycle_of_ascending (by decide),
    rfl, _, _, gaveUp, rfl, untyped⟩

end Typer

end DeferredTyping
