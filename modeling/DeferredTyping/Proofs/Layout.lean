import DeferredTyping.Proofs.Numbering
import DeferredTyping.Proofs.Replacement
import DeferredTyping.Proofs.Slots
import DeferredTyping.Proofs.Walks

/-!
# Trees lie in pre-order

The id of a node is handed out before its children are built and the node is added after them,
so for a while there are nodes whose parent is not there yet.  What holds of them then is enough
for the node above: they are the only new nodes, they carry the id that was handed out, and they
are numbered one after another from the next one on.
-/

namespace DeferredTyping

variable {ρ : Type}

/-- The position that a builder gives to new nodes. -/
def Builder.place (builder : Builder) : Nat × Nat := (builder.line, builder.column)

/-- The builder after the id of a node was handed out, at a position that may have been set. -/
def Builder.started (builder : Builder) (position : Option (Nat × Nat)) : Builder where
  arena := builder.arena.reserve.2
  source := builder.source
  line := (position.getD builder.place).1
  column := (position.getD builder.place).2

def Location.ofPlace (source : String) (place : Nat × Nat) : Location where
  line := place.1
  column := place.2
  source := source

/-- The node of this id was built from a draft of this kind: what its slots hold are the nodes of
the drafts there, numbered one after another from the next id on, and each of these has it as
its parent. -/
structure Arena.Carries (arena : Arena) (id : NodeId) (location : Location)
    (kind : Kind (Draft ρ)) : Prop where
  stored : ∃ node, arena.find? id = some node ∧ node.id = id ∧ node.location = location ∧
    node.kind.outline (fun _ => ()) = kind.outline fun _ => ()
  children : arena.children id = Draft.firstIds (id + 1) kind.children
  parents : ∀ child ∈ arena.children id, arena.parent? child = some id

theorem Arena.Carries.mono {before after : Arena} {id : NodeId} {location : Location}
    {kind : Kind (Draft ρ)} (carries : before.Carries id location kind)
    (kept : ∀ {other node}, before.find? other = some node → after.find? other = some node) :
    after.Carries id location kind := by
  obtain ⟨⟨node, present, shown⟩, children, parents⟩ := carries
  have same : after.children id = before.children id := by
    rw [Arena.children, Arena.children, present, kept present]
  refine ⟨⟨node, kept present, shown⟩, same ▸ children, ?_⟩
  intro child member
  obtain ⟨held, found, carried⟩ := Arena.parent?_eq_some_iff.mp (parents child (same ▸ member))
  exact Arena.parent?_eq_some_iff.mpr ⟨held, kept found, carried⟩

/-- The nodes of these drafts are there, numbered one after another. -/
def Arena.CarriesAll (arena : Arena) (first : NodeId) (nodes : List (Draft ρ)) : Prop :=
  ∀ index position splits kind, nodes[index]? = some (.node position splits kind) →
    ∃ location, arena.Carries (first + index) location kind

/-- Drafts were built one after another, each under the parent, and their nodes are the only
new ones.  The node of each draft carries its id, its place and its children as the order of the
drafts says. -/
structure Builder.LaysOut (before : Builder) (parent : Option NodeId) (drafts : List (Draft ρ))
    (after : Builder) : Prop where
  source : after.source = before.source
  place : after.place = Draft.inForce before.place (drafts.flatMap Draft.preorder)
  nextId : after.arena.nextId =
    before.arena.nextId + (drafts.flatMap Draft.preorder).length
  numbered : after.arena.Numbered
  kept : ∀ {id}, id < before.arena.nextId → after.arena.find? id = before.arena.find? id
  roots : ∀ id ∈ Draft.firstIds before.arena.nextId drafts,
    ∃ node, after.arena.find? id = some node ∧ node.parent = parent
  carried : ∀ index {position splits kind},
    (drafts.flatMap Draft.preorder)[index]? = some (.node position splits kind) →
    after.arena.Carries (before.arena.nextId + index)
      (.ofPlace before.source (Draft.inForce before.place
        ((drafts.flatMap Draft.preorder).take (index + 1)))) kind

namespace Builder.LaysOut

variable {before middle after : Builder} {parent : Option NodeId} {early late : List (Draft ρ)}

theorem nil (numbered : before.arena.Numbered) :
    before.LaysOut parent ([] : List (Draft ρ)) before where
  source := rfl
  place := rfl
  nextId := rfl
  numbered := numbered
  kept _ := rfl
  roots := nofun
  carried _ := nofun

/-- What was there stays, and what was not is numbered from the next id on. -/
theorem find?_of_known (lays : before.LaysOut parent early after)
    (numbered : before.arena.Numbered) {id : NodeId} {node : Node}
    (present : before.arena.find? id = some node) : after.arena.find? id = some node := by
  rw [lays.kept (numbered.below present), present]

theorem append (first : before.LaysOut parent early middle)
    (second : middle.LaysOut parent late after) :
    before.LaysOut parent (early ++ late) after where
  source := second.source.trans first.source
  place := by
    rw [second.place, first.place, List.flatMap_append, Draft.inForce_append]
  nextId := by
    rw [second.nextId, first.nextId, List.flatMap_append, List.length_append, Nat.add_assoc]
  numbered := second.numbered
  kept below := by
    rw [second.kept (first.nextId ▸ Nat.lt_add_right _ below), first.kept below]
  roots id member := by
    rw [Draft.firstIds_append, ← first.nextId] at member
    rcases List.mem_append.mp member with earlier | later
    · obtain ⟨node, present, carries⟩ := first.roots id earlier
      exact ⟨node, second.find?_of_known first.numbered present, carries⟩
    · exact second.roots id later
  carried index {position splits kind} found := by
    rw [List.flatMap_append] at found ⊢
    by_cases here : index < (early.flatMap Draft.preorder).length
    · rw [List.getElem?_append_left here] at found
      rw [List.take_append_of_le_length here]
      exact (first.carried index found).mono (second.find?_of_known first.numbered)
    · obtain ⟨rest, rfl⟩ := Nat.exists_eq_add_of_le (Nat.not_lt.mp here)
      rw [List.getElem?_append_right (Nat.not_lt.mp here), Nat.add_sub_cancel_left] at found
      rw [Nat.add_assoc, List.take_length_add_append, Draft.inForce_append, ← first.place,
        ← first.source, ← Nat.add_assoc, ← first.nextId]
      exact second.carried rest found

end Builder.LaysOut

namespace Build

variable (resolve : ρ → NodeId)

/-- Drafts that lie one after another when they are built, whatever the parent. -/
def Lies (draft : Draft ρ) : Prop :=
  ∀ parent builder, builder.arena.Numbered → ∃ after,
    exec (draft.build resolve parent) builder = (.ok builder.arena.nextId, after) ∧
      builder.LaysOut parent [draft] after

/-- Drafts are built one after another. -/
theorem exec_buildList {drafts : List (Draft ρ)} (lie : ∀ draft ∈ drafts, Lies resolve draft)
    (parent : NodeId) {builder : Builder} (numbered : builder.arena.Numbered) :
    ∃ after, exec (Draft.buildList resolve parent drafts) builder =
        (.ok (Draft.firstIds builder.arena.nextId drafts), after) ∧
      builder.LaysOut (some parent) drafts after := by
  induction drafts generalizing builder with
  | nil => exact ⟨builder, rfl, .nil numbered⟩
  | cons draft rest ih =>
      obtain ⟨first, others⟩ := List.forall_mem_cons.mp lie
      obtain ⟨middle, built, lays⟩ := first (some parent) builder numbered
      obtain ⟨after, listed, later⟩ := ih others lays.numbered
      refine ⟨after, ?_, lays.append later⟩
      rw [Draft.buildList, exec_bind, built]
      dsimp only
      rw [exec_bind, listed]
      dsimp only
      rw [exec_pure, lays.nextId, Draft.firstIds, List.flatMap_singleton]

end Build

namespace Arena

variable {arena : Arena} {id : NodeId}

/-- The leading statement of a body that was built is the one that was drafted, so it is no
delegation call where the draft is none. -/
theorem leadingStatement?_of_carries
    {body : NodeId} {location : Location} {position : Option (Nat × Nat)} {splits : Bool}
    {kind : Kind (Draft ρ)} (carries : arena.Carries body location kind)
    (statements : ∀ first rest, kind = .body (first :: rest) → ∃ position splits inner place,
      first = .node position splits inner ∧ arena.Carries (body + 1) place inner)
    (calm : ∀ first, (Draft.node position splits kind).leading? = some first →
      first.delegates = false) :
    arena.leadingStatement? id body = .ok none ∨
      ∃ holder first statement, arena.leadingStatement? id body = .ok (some (holder, first)) ∧
        arena.find? first = some statement ∧ Delegation.ofKind? statement.kind = none := by
  obtain ⟨⟨node, present, _, _, outline⟩, children, _⟩ := carries
  rw [children_of_find? present] at children
  by_cases list : ∃ drafts, kind = .body drafts
  · obtain ⟨drafts, rfl⟩ := list
    obtain ⟨held, shape⟩ := Kind.eq_body_of_outline outline
    rw [Node.children, shape] at children
    have filled : held = Draft.firstIds (body + 1) drafts := children
    cases drafts with
    | nil =>
        left
        rw [leadingStatement?, node_of_find? present]
        simp only [bind, Except.bind, shape, filled, Draft.firstIds]
        rfl
    | cons first rest =>
        right
        obtain ⟨position, splits, inner, place, rfl, built⟩ := statements first rest rfl
        obtain ⟨statement, found, _, _, same⟩ := built.stored
        refine ⟨body, body + 1, statement, ?_, found, ?_⟩
        · rw [leadingStatement?, node_of_find? present]
          simp only [bind, Except.bind, shape, filled, Draft.firstIds]
          rfl
        · have plain : inner.delegates = false := calm _ rfl
          rwa [Delegation.ofKind?_eq_none_iff, Kind.delegates_eq_of_outline same]
  · right
    have single : ∀ held, node.kind ≠ .body held := by
      intro held shape
      rw [shape] at outline
      exact list (Kind.eq_body_of_outline outline.symm)
    refine ⟨id, body, node, ?_, present, ?_⟩
    · rw [leadingStatement?, node_of_find? present]
      simp only [bind, Except.bind]
      split
      · rename_i shape
        exact absurd shape (single _)
      · rename_i shape
        exact absurd shape (single _)
      · rfl
    · have alone : (Draft.node position splits kind).leading? =
          some (.node position splits kind) := by
        unfold Draft.leading?
        split <;> simp_all
      have plain : kind.delegates = false := calm _ alone
      rwa [Delegation.ofKind?_eq_none_iff, Kind.delegates_eq_of_outline outline]

/-- There is no delegation to split off a constructor that was drafted without. -/
theorem extractDelegation_of_startsPlainly
    {location : Location} {kind : Kind (Draft ρ)} (start : Draft.StartsPlainly kind)
    (plain : ∀ child ∈ kind.children, child.Plain) (carries : arena.Carries id location kind)
    (below : arena.CarriesAll (id + 1) (kind.children.flatMap Draft.preorder)) :
    arena.extractDelegation id = .ok arena := by
  obtain ⟨method, rfl, constructs, calm⟩ : ∃ method, kind = .methodDefinition method ∧
      method.isConstructor = true ∧ ∀ body, method.body = some body →
        ∀ first, body.leading? = some first → first.delegates = false := by
    cases kind <;> first | exact ⟨_, rfl, start⟩ | cases start
  obtain ⟨⟨node, present, _, _, outline⟩, children, _⟩ := carries
  rw [children_of_find? present] at children
  obtain ⟨built, shape⟩ := Kind.eq_methodDefinition_of_outline outline
  rw [shape] at outline
  simp only [Kind.outline, Kind.methodDefinition.injEq, Method.mk.injEq] at outline
  obtain ⟨_, sameKind, _, _, sameBody, _⟩ := outline
  have constructor : built.isConstructor = true := by
    rw [Method.isConstructor, sameKind]
    exact constructs
  refine extractDelegation_of_calm present shape constructor ?_
  intro body stated
  obtain ⟨draft, drafted⟩ : ∃ draft, method.body = some draft := by
    rw [stated] at sameBody
    exact Option.isSome_iff_exists.mp (by cases drafted : method.body <;> simp_all)
  have slots : (Kind.methodDefinition method).children = [method.arguments, draft] := by
    rw [Kind.children, drafted]
    rfl
  rw [slots] at plain below children
  rw [Node.children, shape, Kind.children, stated] at children
  obtain ⟨_, rfl⟩ : built.arguments = id + 1 ∧
      body = id + 1 + method.arguments.preorder.length := by
    simpa [Draft.firstIds] using children
  obtain ⟨position, splits, kind, rfl, inside⟩ := (plain draft (by simp)).exists_node
  obtain ⟨place, root⟩ := below method.arguments.preorder.length position splits kind
    (by simp [Draft.preorder_node])
  refine leadingStatement?_of_carries root ?_ (calm _ drafted)
  rintro first rest rfl
  obtain ⟨position', splits', inner, rfl, _⟩ := (inside first (by simp [Kind.children])).exists_node
  obtain ⟨place', statement⟩ := below (method.arguments.preorder.length + 1) position' splits' inner
    (by simp [Draft.preorder_node, Kind.children])
  exact ⟨_, _, _, place', rfl, statement⟩

end Arena

namespace Build

variable (resolve : ρ → NodeId)

theorem exec_build_at (parent : Option NodeId) (position : Option (Nat × Nat)) (splits : Bool)
    (kind : Kind (Draft ρ)) (builder : Builder) :
    exec (Draft.build resolve parent (.node position splits kind)) builder =
      exec (Draft.buildKind resolve builder.arena.nextId kind >>= fun kind =>
        addNode {
          id := builder.arena.nextId, parent
          location := .ofPlace builder.source (position.getD builder.place), kind } splits)
        (builder.started position) := by
  cases position <;> rfl

end Build

namespace Builder.LaysOut

variable {before middle : Builder} {grown : Arena} {parent : Option NodeId}
  {position : Option (Nat × Nat)} {kind : Kind (Draft ρ)} {built : Kind NodeId}

/-- The node above children that lie one after another. -/
theorem root (splits : Bool)
    (children : (before.started position).LaysOut (some before.arena.nextId) kind.children middle)
    (held : built.children = Draft.firstIds (before.arena.nextId + 1) kind.children)
    (outline : built.outline (fun _ => ()) = kind.outline fun _ => ())
    (added : middle.arena.add {
      id := before.arena.nextId, parent
      location := .ofPlace before.source (position.getD before.place), kind := built } = .ok grown)
    (next : grown.nextId = middle.arena.nextId) :
    before.LaysOut parent [.node position splits kind] { middle with arena := grown } := by
  obtain ⟨absent, stored, others⟩ := Arena.find?_add added
  have kept : ∀ {id node}, middle.arena.find? id = some node → grown.find? id = some node := by
    intro id node present
    rw [others (by rintro rfl; cases absent.symm.trans present), present]
  have whole := Draft.flatMap_preorder_node position splits kind
  have started : (before.started position).arena.nextId = before.arena.nextId + 1 := rfl
  constructor
  case source => exact children.source
  case place =>
    rw [whole]
    exact children.place
  case nextId =>
    rw [whole, List.length_cons, Nat.add_comm _ 1, ← Nat.add_assoc, ← started,
      ← children.nextId, ← next]
  case numbered => exact children.numbered.add added
  case kept =>
    intro id below
    rw [others (Nat.ne_of_lt below), children.kept (Nat.lt_succ_of_lt below)]
    rfl
  case roots =>
    intro id member
    obtain rfl := List.mem_singleton.mp member
    exact ⟨_, stored, rfl⟩
  case carried =>
    intro index position' splits' kind' found
    rw [whole] at found ⊢
    cases index with
    | zero =>
        cases found
        have slots : grown.children before.arena.nextId =
            Draft.firstIds (before.arena.nextId + 1) kind.children :=
          (Arena.children_of_find? stored).trans held
        refine ⟨⟨_, stored, rfl, rfl, outline⟩, slots, ?_⟩
        intro child member
        have below : child ∈ Draft.firstIds (before.arena.nextId + 1) kind.children :=
          slots ▸ member
        obtain ⟨node, present, carries⟩ := children.roots child below
        exact Arena.parent?_eq_some_iff.mpr ⟨node, kept present, carries⟩
    | succ index =>
        have later := (children.carried index found).mono kept
        rw [started, Nat.add_assoc, Nat.add_comm 1] at later
        exact later

end Builder.LaysOut

namespace Build

variable (resolve : ρ → NodeId)

/-- A plain draft is built without refusal, and its nodes lie in pre-order. -/
theorem lies_of_plain {draft : Draft ρ} (plain : draft.Plain) : Lies resolve draft := by
  induction plain with
  | @node position splits kind children attached start lie =>
      intro parent builder numbered
      have reserved : (builder.started position).arena.Numbered := numbered.reserve
      have started : (builder.started position).arena.nextId = builder.arena.nextId + 1 := rfl
      obtain ⟨middle, listed, lays⟩ :=
        exec_buildList resolve lie builder.arena.nextId reserved
      obtain ⟨built, run, held, outline⟩ := exec_buildKind_of_list resolve attached listed
      have handedOut : builder.arena.nextId < middle.arena.nextId := by
        rw [lays.nextId, started]
        exact Nat.lt_add_right _ (Nat.lt_succ_self _)
      have unused : middle.arena.find? builder.arena.nextId = none :=
        (lays.kept (Nat.lt_succ_self _)).trans (numbered.unused (Nat.le_refl _))
      obtain ⟨grown, added, next, _⟩ := lays.numbered.add_handedOut {
          id := builder.arena.nextId, parent
          location := .ofPlace builder.source (position.getD builder.place), kind := built }
        numbered.positive handedOut unused
      have laid := Builder.LaysOut.root splits lays held outline added next
      refine ⟨_, ?_, laid⟩
      rw [exec_build_at, exec_bind, run]
      refine exec_addNode_of_calm added fun splitting => ?_
      have order := Draft.flatMap_preorder_node position splits kind
      refine Arena.extractDelegation_of_startsPlainly (start splitting) children
        (laid.carried 0 (by rw [order]; rfl)) ?_
      intro index position' splits' inner found
      have below := laid.carried (index + 1) (by rw [order]; exact found)
      exact ⟨_, by simpa [Nat.add_assoc, Nat.add_comm 1] using below⟩

end Build

namespace Arena

variable {arena : Arena}

namespace CarriesAll

variable {first : NodeId} (early : List (Draft ρ)) {late : List (Draft ρ)}

theorem left (carried : arena.CarriesAll first (early ++ late)) :
    arena.CarriesAll first early := by
  intro index position splits kind found
  obtain ⟨inside, _⟩ := List.getElem?_eq_some_iff.mp found
  exact carried index position splits kind (by rwa [List.getElem?_append_left inside])

theorem right (carried : arena.CarriesAll first (early ++ late)) :
    arena.CarriesAll (first + early.length) late := by
  intro index position splits kind found
  rw [Nat.add_assoc]
  refine carried (early.length + index) position splits kind ?_
  rwa [List.getElem?_append_right (Nat.le_add_right _ _), Nat.add_sub_cancel_left]

end CarriesAll

/-- What a walk of a subtree meets: as many nodes as the draft has, numbered one after another,
and no path among them is longer than there are nodes. -/
def Lists (arena : Arena) (depth : Nat) (first : NodeId) (count : Nat) (ids : List NodeId) : Prop :=
  (ids.flatMap (arena.preorderWithin depth)).map Node.id = List.range' first count ∧
    ∀ id ∈ ids, arena.Bottoms depth id

theorem lists_firstIds {depth : Nat} {drafts : List (Draft ρ)}
    (each : ∀ draft ∈ drafts, ∀ {first}, arena.CarriesAll first draft.preorder →
      draft.preorder.length ≤ depth → arena.Lists depth first draft.preorder.length [first])
    {first : NodeId} (carried : arena.CarriesAll first (drafts.flatMap Draft.preorder))
    (deep : (drafts.flatMap Draft.preorder).length ≤ depth) :
    arena.Lists depth first (drafts.flatMap Draft.preorder).length
      (Draft.firstIds first drafts) := by
  induction drafts generalizing first with
  | nil => exact ⟨rfl, nofun⟩
  | cons draft rest ih =>
      obtain ⟨here, others⟩ := List.forall_mem_cons.mp each
      rw [List.flatMap_cons] at carried
      rw [List.flatMap_cons, List.length_append] at deep ⊢
      obtain ⟨listed, bottoms⟩ := here (carried.left draft.preorder) (by omega)
      obtain ⟨later, below⟩ := ih others (carried.right draft.preorder) (by omega)
      rw [List.flatMap_singleton] at listed
      refine ⟨?_, List.forall_mem_cons.mpr ⟨bottoms first List.mem_cons_self, below⟩⟩
      rw [Draft.firstIds, List.flatMap_cons, List.map_append, listed, later,
        List.range'_append_1]

/-- The subtree of a plain draft that was built has the nodes of the draft, in ascending order
of their ids. -/
theorem lists_of_plain {draft : Draft ρ} (plain : draft.Plain) {depth : Nat} {first : NodeId}
    (carried : arena.CarriesAll first draft.preorder) (deep : draft.preorder.length ≤ depth) :
    arena.Lists depth first draft.preorder.length [first] := by
  induction plain generalizing depth first with
  | @node position splits kind inside attached start ih =>
      rw [Draft.preorder_node] at carried deep ⊢
      obtain ⟨location, ⟨node, present, named, _⟩, children, _⟩ :=
        carried 0 position splits kind rfl
      rw [Nat.add_zero] at present named children
      obtain ⟨depth, rfl⟩ : ∃ below, depth = below + 1 :=
        Nat.exists_eq_add_one.mpr (Nat.lt_of_lt_of_le (Nat.succ_pos _) deep)
      have below : arena.CarriesAll (first + 1) (kind.children.flatMap Draft.preorder) :=
        carried.right [_]
      obtain ⟨listed, bottoms⟩ := lists_firstIds (fun draft member => ih draft member) below
        (Nat.le_of_succ_le_succ deep)
      rw [← children] at listed bottoms
      refine ⟨?_, by simpa [Bottoms] using bottoms⟩
      rw [children_of_find? present] at listed
      rw [List.flatMap_singleton, preorderWithin, present]
      simp only [List.map_cons, named, listed]
      rfl

/-- An arena has as many nodes as it carries drafts. -/
theorem length_le_size {first : NodeId} {count : Nat}
    (present : ∀ index < count, ∃ node, arena.find? (first + index) = some node) :
    count ≤ arena.size := by
  have inside : ∀ id ∈ List.range' first count, id ∈ arena.nodes.keys := by
    intro id member
    obtain ⟨index, below, rfl⟩ := List.mem_range'.mp member
    obtain ⟨node, found⟩ := present index below
    rw [Nat.one_mul]
    exact Table.mem_keys_of_get?_eq_some found
  have fewer := length_le_of_stored List.nodup_range' inside
  rwa [List.length_range'] at fewer

end Arena

/-- A tree beside a node whose number was chosen: a class with a constructor that assigns a local
first, and positions that are set for its statement and for the literal in it. -/
private def placedClass : Draft Empty :=
  .node (some (2, 4)) false <| .classDefinition "Placed" none [] <| some <|
    .constructor none {} .noArguments <| some <|
      .node (some (3, 6)) false <| .body [
        .node none false (.localAssignment "seed" (.node (some (3, 13)) false (.fixnum 7))),
        .node none false (.superCall [])]

private def besideNine : Builder where
  arena := {
    nodes := ⟨[(9, { id := 9, parent := none, location := {}, kind := .noop })]⟩, nextId := 10 }
  source := "placed.duby"

end DeferredTyping
