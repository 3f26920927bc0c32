import DeferredTyping.Proofs.Completeness
import DeferredTyping.Proofs.Construction
import DeferredTyping.Proofs.TreeChanges

/-!
# Arenas stay well linked

Rules learn facts and leave the tree alone; only an expansion changes it.  An expander
that adds nothing but new nodes, linked among themselves, and answers with a new root
that carries the parent of the call, gives a replacement that sits in no slot, and so
the splice keeps the tree well linked.  A splice that is refused leaves the new nodes
beside the tree, where they are linked as well.
-/

namespace DeferredTyping

variable {σ : Type}

open Infer

/-- New nodes stand beside the old ones, which are as they were.  The child slots of new
nodes hold new nodes that carry them as their parents, each of them once. -/
structure Arena.Sprouts (before after : Arena) : Prop where
  kept : ∀ {id node}, before.find? id = some node → after.find? id = some node
  linked : ∀ {parent child}, before.find? parent = none → child ∈ after.children parent →
    before.find? child = none ∧
      ∃ node, after.find? child = some node ∧ node.parent = some parent
  distinct : ∀ {parent}, before.find? parent = none → (after.children parent).Nodup

/-- The expander adds new nodes alone, linked among themselves, and the root that it
answers is one of them and carries the parent of the call. -/
structure Expander.Grafts (expander : Expander σ) : Prop where
  sprouts : ∀ {before after : Arena} {call receiver state answer later},
    expander.expand before call receiver state = (answer, after, later) → before.Sprouts after
  root : ∀ {before after : Arena} {call receiver state root later},
    expander.expand before call receiver state = (some root, after, later) →
      before.find? root = none ∧
        ∃ node, after.find? root = some node ∧ node.parent = before.parent? call

namespace Arena.Sprouts

variable {before after : Arena}

theorem refl (arena : Arena) : arena.Sprouts arena where
  kept present := present
  linked absent held := by
    rw [children_of_find?_eq_none absent] at held
    cases held
  distinct absent := children_of_find?_eq_none absent ▸ List.nodup_nil

/-- A leaf that is added. -/
theorem add {node : Node} (added : before.add node = .ok after) (leaf : node.children = []) :
    before.Sprouts after := by
  obtain ⟨absent, stored, others⟩ := find?_add added
  have bare : ∀ {parent}, before.find? parent = none → after.children parent = [] := by
    intro parent missing
    by_cases same : parent = node.id
    · rw [same, children_of_find? stored, leaf]
    · exact children_of_find?_eq_none ((others same).trans missing)
  refine ⟨?_, ?_, fun missing => bare missing ▸ List.nodup_nil⟩
  · intro id other present
    have different : id ≠ node.id := by
      rintro rfl
      rw [absent] at present
      cases present
    exact (others different).trans present
  · intro parent child missing held
    rw [bare missing] at held
    cases held

theorem children_eq
    (sprouts : before.Sprouts after) {id : NodeId} {node : Node}
    (present : before.find? id = some node) :
    after.children id = before.children id := by
  rw [children_of_find? present, children_of_find? (sprouts.kept present)]

theorem staysLinked (sprouts : before.Sprouts after) : before.StaysLinked after where
  parents _ node present := ⟨node, sprouts.kept present, rfl⟩
  linked linked := by
    refine .of_nodup ?_ ?_
    · intro parent child held
      cases present : before.find? parent with
      | none => exact (sprouts.linked present held).2
      | some holder =>
          rw [sprouts.children_eq present] at held
          obtain ⟨node, found, carried⟩ := linked.linked held
          exact ⟨node, sprouts.kept found, carried⟩
    · intro parent
      cases present : before.find? parent with
      | none => exact sprouts.distinct present
      | some holder => exact sprouts.children_eq present ▸ linked.nodup parent

/-- A new root that carries the parent of an old call takes the slot of the call. -/
theorem wellLinked_replaceChild
    (sprouts : before.Sprouts after) (linked : before.WellLinked)
    {parent call root : NodeId} {node : Node} (fresh : before.find? root = none)
    (present : after.find? root = some node) (carried : node.parent = before.parent? call)
    {spliced : Arena} (replaced : after.replaceChild parent call root = .ok spliced) :
    spliced.WellLinked := by
  obtain ⟨newNode, holder, kind, found, named, held, refilled, rfl⟩ :=
    replaceChild_replaces replaced
  obtain rfl := Option.some.inj (present.symm.trans found)
  have slot : call ∈ after.children parent := by
    rw [children_of_find? held]
    exact (Kind.replacesFirst_of_replaceFirst? refilled).mem_old
  refine ((sprouts.staysLinked.linked linked).replaceChild ?_ replaced).1
  intro other member
  cases old : before.find? other with
  | some _ =>
      -- What old nodes hold is old.
      rw [sprouts.children_eq old] at member
      obtain ⟨_, there, _⟩ := linked.linked member
      rw [fresh] at there
      cases there
  | none =>
      -- A new holder is the parent of the call, but new nodes hold new nodes alone.
      obtain ⟨_, _, still, under⟩ := sprouts.linked old member
      obtain rfl := Option.some.inj (present.symm.trans still)
      obtain rfl : other = parent := Option.some.inj (under.symm.trans named)
      have missing := (sprouts.linked old slot).1
      rw [named, Arena.parent?, missing] at carried
      cases carried

end Arena.Sprouts

/-- What such an expander adds stands beside the tree or takes the slot of its call, and
either way the tree stays well linked. -/
theorem Infer.tracksTree_staysLinked
    {setting : Setting σ} (grafts : setting.expander.Grafts) :
    TracksTree setting fun before after => before.arena.StaysLinked after.arena where
  trans _ _ _ := Arena.StaysLinked.trans
  calm same _ := .of_find?_eq fun _ => by rw [same]
  binds _ _ := .refl _
  offers asked := (grafts.sprouts asked).staysLinked
  splices asked replaced := by
    have sprouts := grafts.sprouts asked
    obtain ⟨fresh, node, present, carried⟩ := grafts.root asked
    exact ⟨sprouts.staysLinked.parents.trans (Arena.keepsParents_replaceChild replaced),
      fun linked => sprouts.wellLinked_replaceChild linked fresh present carried replaced⟩

namespace Typer

variable {typer : Typer σ}

theorem respects_staysLinked
    (grafts : typer.expander.Grafts) :
    typer.Respects fun before after => before.facts.arena.StaysLinked after.facts.arena :=
  TracksTree.respects (tracksTree_staysLinked grafts)

theorem answering_grafts : answering.expander.Grafts := by
  constructor
  · intro before after call receiver state answer later asked
    rcases answering_answers asked with ⟨_, rfl⟩ | ⟨node, added, leaf, _⟩
    · exact .refl after
    · exact .add added leaf
  · intro before after call receiver state root later asked
    rcases answering_answers asked with ⟨declined, _⟩ | ⟨node, added, _, same, carried, _⟩
    · cases declined
    · cases same
      obtain ⟨absent, stored, _⟩ := Arena.find?_add added
      exact ⟨absent, node, stored, carried⟩

/-- A constructor whose body starts with a call of another constructor, split off at
once or not. -/
def delegating (splits : Bool) : Draft Empty :=
  .node none false (.script "" (some
    (.node none splits (.methodDefinition {
      name := "initialize"
      kind := .constructor
      arguments := .node none false (.arguments {})
      body := some (.node none false (.body [
        .node none false (.functionalCall "initialize" [.node none false (.fixnum 1)] none)]))
      }))))

/-- What is built from a constructor that calls another one. -/
def delegated (splits : Bool) : Arena :=
  (Arena.empty.construct "" ((delegating splits).build nofun none)).2

/-- An unknown call beside a number that was built to take its place. -/
def spareAnswer : Arena where
  nodes := ⟨[
    (1, { id := 1, parent := none, location := {}, kind := .script "" (some 2) }),
    (2, { id := 2, parent := some 1, location := {}, kind := .body [3] }),
    (3, { id := 3, parent := some 2, location := {},
          kind := .functionalCall "answer" [] none }),
    (4, { id := 4, parent := some 2, location := {}, kind := .fixnum 42 })]⟩
  nextId := 5

end Typer

end DeferredTyping
