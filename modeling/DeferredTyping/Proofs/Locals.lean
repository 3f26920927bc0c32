import DeferredTyping.Proofs.Registration

/-!
# Locals are coherent

A read or an assignment of a local has the type that its name is bound to as seen
from the scope around it, and an assigned value is accepted there.  Names keep the
type that they are seen with, so this stays true whatever is learned later, in
which scope and in which order.
-/

namespace DeferredTyping

variable {σ : Type}

open Infer

/-- What the type of a local says: the name is bound to it around the node, and an
assigned value is accepted. -/
structure Facts.BindsLocal (classes : Catalog) (id : NodeId) (ty : Ty) (facts : Facts) :
    Prop where
  reads : ∀ {found name}, facts.arena.find? id = some found → found.kind = .localRead name →
    ∃ scope, facts.arena.enclosingScope? id = some scope ∧
      facts.localType? scope name = some ty
  assigns : ∀ {found name value}, facts.arena.find? id = some found →
    found.kind = .localAssignment name value →
      ∃ scope valueType, facts.arena.enclosingScope? id = some scope ∧
        facts.localType? scope name = some ty ∧
        facts.nodeType? value = some valueType ∧
        classes.isParent ty valueType = true

namespace Infer

variable {setting : Setting σ} {before after : Session σ}

/-- A name that was learned is seen with the answered type, which accepts the
learned one. -/
theorem localType?_of_learnLocal
    {scope : NodeId} {name : String} {ty bound : Ty} {location : Location}
    (returned : Returns (learnLocal scope name ty location) before bound after) :
    after.facts.localType? scope name = some bound ∧
      before.catalog.isParent bound ty = true := by
  rcases returns_learnLocal returned with ⟨known, accepted, rfl⟩ | ⟨free, rfl, rfl⟩
  · refine ⟨?_, ?_⟩
    · rw [Facts.localType?, Scopes.lookup?_eq_own?_owner, known]
    · rcases accepted with rfl | accepts
      · exact Catalog.isParent_refl _ _
      · exact accepts
  · exact ⟨Scopes.lookup?_bind_self free, Catalog.isParent_refl _ _⟩

/-- A name that is refused stays as it was, and so does everything else. -/
theorem learnLocal_refused
    {scope : NodeId} {name : String} {ty : Ty} {location : Location} {stop : Stop}
    (refused : (learnLocal scope name ty location).run before = (.error stop, after)) :
    after = before := by
  unfold learnLocal at refused
  rw [run_bind, run_get] at refused
  dsimp only at refused
  split at refused
  · split at refused
    · cases refused
    · rw [run_fail] at refused
      cases refused
      rfl
  · cases refused

end Infer

/-- Locals are bound to their types. -/
def localJudgement (classes : Catalog) : Judgement σ where
  context _ := True
  holds := Facts.BindsLocal classes

theorem localJudgement_established
    {setting : Setting σ} (declines : setting.expander.Declines)
    (tree : Arena) (classes : Catalog) :
    (localJudgement classes : Judgement σ).Established setting tree classes where
  context _ _ known := known
  later {id ty before after} later holds := by
    constructor
    · intro found name present kind
      rw [later.arena] at present ⊢
      obtain ⟨scope, around, visible⟩ := holds.reads present kind
      exact ⟨scope, around, later.locals visible⟩
    · intro found name value present kind
      rw [later.arena] at present ⊢
      obtain ⟨scope, valueType, around, visible, typed, accepted⟩ :=
        holds.assigns present kind
      exact ⟨scope, valueType, around, later.locals visible, later.nodeTypes typed, accepted⟩
  rule {fuel id found ty before after} regular _ _ present intact returned := by
    have faithful : Faithful (node setting fuel) := node_faithful declines.keepsNodes fuel
    unfold rule at returned
    constructor
    · intro other name stored kind
      obtain rfl := intact.eq_of_noted present stored
      rw [kind] at returned
      obtain ⟨scope, stands, visible, rfl⟩ := returns_localRead returned
      exact ⟨scope, Arena.enclosingScope?_of_scopeOf stands, visible.symm⟩
    · intro other name value stored kind
      obtain rfl := intact.eq_of_noted present stored
      rw [kind] at returned
      obtain ⟨given, middle, visited, concludes⟩ := returns_localAssignment returned
      rcases concludes with ⟨_, answer, _⟩ | ⟨valueType, scope, bound, rfl, stands, learned, same⟩
      · cases answer
      · cases same
        obtain ⟨visible, accepted⟩ := localType?_of_learnLocal learned
        have early := (node_extends setting fuel value).returned visited
        have adds : AddStep setting (learnLocal scope name valueType other.location) :=
          .learnLocal scope name valueType other.location
        obtain ⟨added, _⟩ := adds.added learned
        have later := (Facts.Added.extends added).trans (after.facts.extends_setNodeType id ty)
        have tree := (Facts.Learned.sameNodes (Facts.Added.learned added)).arena
        have around : (after.facts.setNodeType id ty).arena.enclosingScope? id = some scope := by
          rw [Facts.setNodeType, tree]
          exact Arena.enclosingScope?_of_scopeOf stands
        rw [early.catalog, regular.catalog] at accepted
        exact ⟨scope, valueType, around, visible, later.nodeTypes (faithful.answers visited),
          accepted⟩

/-- The name is seen with this type. -/
def visibleJudgement (scope : NodeId) (name : String) (ty : Ty) : Judgement σ where
  context session := session.facts.localType? scope name = some ty
  holds _ _ _ := True

theorem visibleJudgement_established
    (setting : Setting σ) (tree : Arena) (classes : Catalog) (scope : NodeId)
    (name : String) (ty : Ty) :
    (visibleJudgement scope name ty : Judgement σ).Established setting tree classes where
  context _ later visible := later.locals visible
  later _ _ := trivial
  rule _ _ _ _ _ _ := trivial

theorem visibleJudgement_onFacts (scope : NodeId) (name : String) (ty : Ty) :
    (visibleJudgement scope name ty : Judgement σ).OnFacts := by
  intro before after same visible
  simpa only [visibleJudgement, same] using visible

namespace Typer

variable {typer : Typer σ}

/-- Whatever is asked of a typer that has registered its declarations, locals are
bound to their types around them and accept what is assigned, a visible name keeps
its type under everything that is asked later, and a refused name changes nothing. -/
theorem locals_stay_coherent
    (declines : typer.expander.Declines)
    {arena : Arena} (keyed : arena.Keyed)
    {catalog : Catalog} {state : σ} {registered session : Session σ}
    (registers : Returns typer.registerTypes (start arena catalog state) () registered)
    (continues : typer.Continues registered session) :
    (∀ {id found name ty}, session.facts.arena.find? id = some found →
      found.kind = .localRead name → session.facts.nodeType? id = some ty →
        ∃ scope, session.facts.arena.enclosingScope? id = some scope ∧
          session.facts.localType? scope name = some ty) ∧
    (∀ {id found name value ty}, session.facts.arena.find? id = some found →
      found.kind = .localAssignment name value → session.facts.nodeType? id = some ty →
        ∃ scope valueType, session.facts.arena.enclosingScope? id = some scope ∧
          session.facts.localType? scope name = some ty ∧
          session.facts.nodeType? value = some valueType ∧
          session.catalog.isParent ty valueType = true) ∧
    (∀ {scope name ty later}, session.facts.localType? scope name = some ty →
      typer.Continues session later → later.facts.localType? scope name = some ty) ∧
    ∀ {scope name ty stop after},
      (learnLocalType scope name ty).run session = (.error stop, after) →
        after = session := by
  have established : (localJudgement (arena.declare catalog)).Established typer.setting
      arena (arena.declare catalog) := localJudgement_established declines _ _
  have judged := judged_of_continues established (fun _ _ _ _ => trivial) keyed declines
    registers trivial continues
  refine ⟨?_, ?_, ?_, ?_⟩
  · intro id found name ty present kind known
    exact (judged.holds known).reads present kind
  · intro id found name value ty present kind known
    rw [judged.catalog]
    exact (judged.holds known).assigns present kind
  · intro scope name ty later visible onward
    have seen : session.Judged arena (arena.declare catalog)
        (visibleJudgement scope name ty) := ⟨judged.toRegular, visible, fun _ => trivial⟩
    exact ((preserves_judged (visibleJudgement_established _ _ _ scope name ty)
      (visibleJudgement_onFacts scope name ty) keyed declines
      (arena.declare_declare catalog)).continues seen onward).context
  · intro scope name ty stop after refused
    unfold learnLocalType at refused
    rw [run_bind] at refused
    rcases located : (locationOf scope).run session with ⟨answer, middle⟩
    have kept : middle = session := by
      have same := (ReadStep.locationOf scope).keeps session
      rwa [located] at same
    rw [located] at refused
    subst kept
    cases answer with
    | error cause =>
        cases refused
        rfl
    | ok location => exact learnLocal_refused refused

/-- A number is assigned to a name, and the name is read. -/
def assignedLocal : Arena where
  nodes := ⟨[
    (1, { id := 1, parent := none, location := {}, kind := .script "" (some 2) }),
    (2, { id := 2, parent := some 1, location := {}, kind := .body [3, 5] }),
    (3, { id := 3, parent := some 2, location := {}, kind := .localAssignment "x" 4 }),
    (4, { id := 4, parent := some 3, location := {}, kind := .fixnum 1 }),
    (5, { id := 5, parent := some 2, location := {}, kind := .localRead "x" })]⟩
  nextId := 6

theorem locals_stay_coherent_of_assignedLocal :
    plain.expander.Declines ∧ assignedLocal.Keyed ∧
      ∃ registered, Returns plain.registerTypes (start assignedLocal {} ()) () registered ∧
        (plain.perform registered .inferTypes).facts.nodeType? 5 = some .int ∧
        (∃ scope, (plain.perform registered .inferTypes).facts.arena.enclosingScope? 5 =
            some scope ∧
          (plain.perform registered .inferTypes).facts.localType? scope "x" = some .int) ∧
        ∀ {later}, plain.Continues (plain.perform registered .inferTypes) later →
          later.facts.localType? 1 "x" = some .int := by
  have keyed : assignedLocal.Keyed := ⟨by decide, by decide⟩
  have registers : Returns plain.registerTypes (start assignedLocal {} ()) ()
      (plain.registerTypes.run (start assignedLocal {} ())).2 :=
    returns_of_isOk (by decide)
  have present : (plain.perform (plain.registerTypes.run (start assignedLocal {} ())).2
      .inferTypes).facts.arena.find? 5 =
        some { id := 5, parent := some 2, location := {}, kind := .localRead "x" } := by decide
  have typed : (plain.perform (plain.registerTypes.run (start assignedLocal {} ())).2
      .inferTypes).facts.nodeType? 5 = some .int := by decide
  obtain ⟨reads, _, keeps, _⟩ :=
    locals_stay_coherent plain_declines keyed registers (.step .refl .inferTypes)
  exact ⟨plain_declines, keyed, _, registers, typed, reads present rfl typed,
    keeps (by decide)⟩

end Typer

end DeferredTyping
