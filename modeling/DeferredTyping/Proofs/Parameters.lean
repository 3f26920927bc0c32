import DeferredTyping.Proofs.Locals

/-!
# Parameters are bound around them

A parameter of a method or a block takes its type by a binding of its name.  The scope around it
is the method or the block, and the name is seen from there with the type of the parameter.

Reading and writing differ in which scopes they look at.  A parameter without a default value and
without a declared type reads the bindings of its own scope alone, but whatever is learned goes
to the scope that owns the name.  A method captures no names, so it owns those of its parameters.
A block does, and an optional parameter of a block may take the type of a local around it.
-/

namespace DeferredTyping

variable {σ : Type}

open Infer

/-- The name of a parameter that takes a type. -/
def Kind.parameter? {α : Type} : Kind α → Option String
  | .requiredArgument name | .optionalArgument name _ | .restArgument name => some name
  | _ => none

theorem Kind.isScope_of_parameter?
    {α : Type} {kind : Kind α} {name : String} (named : kind.parameter? = some name) :
    kind.isScope = false := by
  cases kind with
  | requiredArgument _ | optionalArgument _ _ | restArgument _ => rfl
  | _ => cases named

/-- The node is listed as a parameter of a method or a block. -/
structure Arena.ParameterOf (arena : Arena) (owner id : NodeId) (name : String)
    (found around : Node) : Prop where
  present : arena.find? id = some found
  named : found.kind.parameter? = some name
  listed : ∃ list holder, found.parent = some list ∧ arena.find? list = some holder ∧
    holder.kind.isArguments = true ∧ holder.parent = some owner
  owned : arena.find? owner = some around
  takes : (∃ method, around.kind = .methodDefinition method) ∨
    ∃ parameters content, around.kind = .block parameters content

/-- The name of a parameter may be owned by a scope further out: the scope around it captures
names, and the parameter is given a type by its default value or by a method. -/
def Arena.MayShare (arena : Arena) (id scope : NodeId) (found : Node) : Prop :=
  arena.capturedScopes scope ≠ [] ∧
    ((∃ name value, found.kind = .optionalArgument name value) ∨
      ∃ owner, arena.owningMethod? id = .ok (some owner))

namespace Arena.ParameterOf

variable {arena : Arena} {owner id : NodeId} {name : String} {found around : Node}
  (parameter : arena.ParameterOf owner id name found around)

include parameter

theorem around_isScope : around.kind.isScope = true := by
  rcases parameter.takes with ⟨method, kind⟩ | ⟨parameters, content, kind⟩
  · rw [kind]
    rfl
  · rw [kind]
    rfl

/-- The scope around a parameter is the method or the block. -/
theorem eq_of_enclosingScope?
    (keyed : arena.Keyed) {scope : NodeId} (encloses : arena.enclosingScope? id = some scope) :
    scope = owner := by
  obtain ⟨list, holder, under, stored, isList, upper⟩ := parameter.listed
  have innermost : found.kind.isScope = false := Kind.isScope_of_parameter? parameter.named
  have inner : holder.kind.isScope = false := by
    obtain ⟨_, kind⟩ := Kind.isArguments_eq_true_iff.mp isList
    rw [kind]
    rfl
  unfold enclosingScope? lineage at encloses
  generalize arena.size = steps at encloses
  -- The lineage goes over the list of parameters, neither of the two is a scope.
  match steps with
  | 0 => cases encloses
  | 1 => simp [lineageWithin, parameter.present, innermost] at encloses
  | 2 => simp [lineageWithin, parameter.present, innermost, under, stored, inner] at encloses
  | steps + 3 =>
      simp only [lineageWithin, parameter.present, under, stored, upper, parameter.owned,
        List.find?_cons, innermost, inner, parameter.around_isScope, Option.map_some,
        Option.some.injEq] at encloses
      rw [← encloses, keyed.id_eq parameter.owned]

/-- A method is asked for the types of its parameters. -/
theorem owningMethod?_eq {method : Method NodeId} (defines : arena.method? owner = some method) :
    arena.owningMethod? id = .ok (some (owner, method)) := by
  rw [method?, parameter.owned, Option.bind_some] at defines
  obtain ⟨list, holder, under, stored, _, upper⟩ := parameter.listed
  have isArgument : found.kind.isArgument = true := by
    have named := parameter.named
    cases kind : found.kind with
    | requiredArgument _ | optionalArgument _ _ | restArgument _ => rfl
    | _ =>
        rw [kind] at named
        cases named
  have above : (arena.parent? id).bind arena.parent? = some owner := by
    simp [parent?, parameter.present, stored, under, upper]
  simp only [owningMethod?, require_of_find? parameter.present, bind, Except.bind, isArgument,
    above, require_of_find? parameter.owned, defines]
  rfl

/-- A name that a parameter shares with a scope further out is that of an optional parameter of
a block. -/
theorem optional_of_mayShare (shares : arena.MayShare id owner found) :
    (∃ value, found.kind = .optionalArgument name value) ∧
      ∃ parameters content, around.kind = .block parameters content := by
  obtain ⟨captures, takes⟩ := shares
  have block : ∃ parameters content, around.kind = .block parameters content := by
    apply parameter.takes.resolve_left
    rintro ⟨method, kind⟩
    apply captures
    simp [capturedScopes, parameter.owned, kind, Kind.isolatesLocals]
  refine ⟨?_, block⟩
  rcases takes with ⟨written, value, kind⟩ | ⟨⟨other, method⟩, owns⟩
  · have named := parameter.named
    rw [kind] at named
    exact ⟨value, Option.some.inj named ▸ kind⟩
  · obtain ⟨list, holder, under, stored, _, upper⟩ := parameter.listed
    obtain ⟨parameters, content, kind⟩ := block
    obtain ⟨above, defines⟩ := owningMethod?_ok owns
    simp only [parent?, parameter.present, stored, Option.bind_some, under, upper,
      Option.some.injEq] at above
    subst above
    simp [method?, parameter.owned, kind, Kind.method?] at defines

/-- A method does not share the names of its parameters. -/
theorem not_mayShare {method : Method NodeId} (defines : arena.method? owner = some method) :
    ¬ arena.MayShare id owner found := by
  intro shares
  obtain ⟨_, parameters, content, kind⟩ := parameter.optional_of_mayShare shares
  simp [method?, parameter.owned, kind, Kind.method?] at defines

end Arena.ParameterOf

/-- What the type of a parameter says: its name is seen with this type from the scope around it,
which binds the name itself unless it may share it. -/
def Facts.BindsParameter (id : NodeId) (ty : Ty) (facts : Facts) : Prop :=
  ∀ ⦃found name⦄, facts.arena.find? id = some found → found.kind.parameter? = some name →
    ∃ scope, facts.arena.enclosingScope? id = some scope ∧
      facts.localType? scope name = some ty ∧
      (facts.scopes.own? scope name = some ty ∨ facts.arena.MayShare id scope found)

/-- What is learned later does not take the binding of a parameter back. -/
theorem Facts.BindsParameter.mono
    {before after : Facts} {id : NodeId} {ty : Ty}
    (binds : before.BindsParameter id ty)
    (same : after.arena = before.arena)
    (visible : ∀ {scope name ty}, before.localType? scope name = some ty →
      after.localType? scope name = some ty)
    (bound : ∀ {scope name ty}, before.scopes.own? scope name = some ty →
      after.scopes.own? scope name = some ty) :
    after.BindsParameter id ty := by
  intro found name present named
  rw [same] at present ⊢
  obtain ⟨scope, around, seen, owned⟩ := binds present named
  exact ⟨scope, around, visible seen, owned.imp_left bound⟩

namespace Infer

variable {setting : Setting σ} {infer : NodeId → Infer σ (Option Ty)} {tree : Arena}
  {id : NodeId} {found : Node} {name : String} {ty : Ty} {before after : Session σ}

/-- A scope that captures nothing binds what is learned in it. -/
theorem own?_of_learnLocal
    {scope : NodeId} {given : Ty} {location : Location}
    (isolated : before.facts.arena.capturedScopes scope = [])
    (returned : Returns (learnLocal scope name given location) before ty after) :
    after.facts.scopes.own? scope name = some ty := by
  have itself : before.facts.scopes.owner before.facts.arena scope name = scope := by
    simp only [Scopes.owner, Arena.visibleScopes, isolated, List.find?_cons, List.find?_nil]
    split
    · rfl
    · rfl
  rcases returns_learnLocal returned with ⟨known, _, rfl⟩ | ⟨_, rfl, rfl⟩
  · rwa [itself] at known
  · rw [itself]
    exact Scopes.own?_bind_self _ _ _ _

/-- A name that was learned for a parameter is bound by the scope around it, or shared. -/
theorem bindsParameter_of_learnLocal
    {scope : NodeId} {given : Ty} {location : Location}
    (present : before.facts.arena.find? id = some found)
    (named : found.kind.parameter? = some name)
    (stands : before.facts.arena.scopeOf id = .ok scope)
    (shares : (∃ name value, found.kind = .optionalArgument name value) ∨
      ∃ owner, before.facts.arena.owningMethod? id = .ok (some owner))
    (returned : Returns (learnLocal scope name given location) before ty after) :
    after.facts.BindsParameter id ty := by
  have same : after.facts.arena = before.facts.arena := by
    rcases returns_learnLocal returned with ⟨_, _, rfl⟩ | ⟨_, _, rfl⟩
    · rfl
    · rfl
  intro other own stored owned
  rw [same] at stored ⊢
  obtain rfl : found = other := Option.some.inj (present.symm.trans stored)
  obtain rfl : name = own := Option.some.inj (named.symm.trans owned)
  refine ⟨scope, Arena.enclosingScope?_of_scopeOf stands, (localType?_of_learnLocal returned).1, ?_⟩
  by_cases isolated : before.facts.arena.capturedScopes scope = []
  · exact .inl (own?_of_learnLocal isolated returned)
  · exact .inr ⟨isolated, shares⟩

theorem declaredType?_intact
    {declared : Option Ty} (intact : before.Intact tree)
    (returned : Returns (declaredType? setting id name) before declared after) :
    after.Intact tree := by
  have adds : AddStep setting (declaredType? setting id name) := .declaredType? id name
  have same := Facts.Learned.sameNodes (Facts.Added.learned (adds.added returned).1)
  exact ⟨same.arena.trans intact.arena, same.expansions.trans intact.unexpanded⟩

theorem bindsParameter_of_requiredArgument
    (intact : before.Intact tree) (present : tree.find? id = some found)
    (named : found.kind.parameter? = some name)
    (returned : Returns (requiredArgument setting id name) before (some ty) after) :
    after.facts.BindsParameter id ty := by
  obtain ⟨scope, declared, middle, stands, declares, concludes⟩ :=
    returns_requiredArgument returned
  have between := declaredType?_intact intact declares
  rw [intact.arena, ← between.arena] at stands
  rw [← between.arena] at present
  rcases concludes with ⟨_, bound, rfl⟩ | ⟨given, location, kept, rfl, learns, answer⟩
  · intro other own stored owned
    obtain rfl : found = other := Option.some.inj (present.symm.trans stored)
    obtain rfl : name = own := Option.some.inj (named.symm.trans owned)
    exact ⟨scope, Arena.enclosingScope?_of_scopeOf stands,
      Facts.localType?_of_own? bound.symm, .inl bound.symm⟩
  · cases answer
    rcases returns_declaredType? declares with ⟨_, none, _⟩ | ⟨owner, method, _, owns, _, _⟩
    · cases none
    · rw [intact.arena, ← between.arena] at owns
      exact bindsParameter_of_learnLocal present named stands (.inr ⟨_, owns⟩) learns

theorem bindsParameter_of_optionalArgument
    {value : NodeId}
    (visits : ∀ {before answer after}, before.Intact tree →
      Returns (infer value) before answer after → after.Intact tree)
    (intact : before.Intact tree) (present : tree.find? id = some found)
    (kind : found.kind = .optionalArgument name value)
    (returned : Returns (optionalArgument setting infer id name value) before (some ty) after) :
    after.facts.BindsParameter id ty := by
  obtain ⟨scope, declared, declaredAt, given, middle, stands, declares, visited, concludes⟩ :=
    returns_optionalArgument returned
  rcases concludes with ⟨_, answer, _⟩ | ⟨valueType, location, bound, _, _, learns, answer⟩
  · cases answer
  · cases answer
    have between := visits (declaredType?_intact intact declares) visited
    rw [intact.arena, ← between.arena] at stands
    rw [← between.arena] at present
    have named : found.kind.parameter? = some name := by
      rw [kind]
      rfl
    exact bindsParameter_of_learnLocal present named stands (.inl ⟨name, value, kind⟩) learns

/-- The rule of a parameter binds its name. -/
theorem bindsParameter_of_rule
    (visits : ∀ {child before answer after}, before.Intact tree →
      Returns (infer child) before answer after → after.Intact tree)
    (intact : before.Intact tree)
    (present : tree.find? id = some found)
    (returned : Returns (rule setting infer id found) before (some ty) after)
    (still : after.Intact tree) :
    after.facts.BindsParameter id ty := by
  intro other name stored named
  obtain rfl : found = other := Option.some.inj (present.symm.trans (still.arena ▸ stored))
  unfold rule at returned
  cases kind : found.kind with
  | requiredArgument own | restArgument own =>
      rw [kind] at returned
      have owned : found.kind.parameter? = some own := by
        rw [kind]
        rfl
      exact bindsParameter_of_requiredArgument intact present owned returned stored named
  | optionalArgument own value =>
      rw [kind] at returned
      exact bindsParameter_of_optionalArgument visits intact present kind returned stored named
  | _ =>
      rw [kind] at named
      cases named

end Infer

/-- The tree is the given one, and the names of parameters with types are bound. -/
structure Session.BindsParameters (tree : Arena) (session : Session σ) : Prop
    extends session.Intact tree where
  bound : ∀ {id ty}, session.facts.nodeType? id = some ty → session.facts.BindsParameter id ty

namespace Session.BindsParameters

variable {tree : Arena} {session : Session σ}

theorem learned
    (keyed : tree.Keyed) {scriptClass : String} {catalog : Catalog} {facts : Facts}
    (binds : session.BindsParameters tree)
    (learned : Facts.Learned scriptClass catalog session.facts facts) :
    { session with facts : Session σ }.BindsParameters tree := by
  induction learned with
  | refl => exact binds
  | @tail middle _ _ last ih =>
      have same := last.sameNodes
      have between : middle.arena.Keyed := ih.arena ▸ keyed
      refine ⟨⟨same.arena.trans ih.arena, same.expansions.trans ih.unexpanded⟩, ?_⟩
      intro id ty known
      rw [Facts.nodeType?, same.nodeTypes] at known
      exact (ih.bound known).mono same.arena (last.localType? between) last.extends.bindings

/-- Noting the type of a node keeps the bindings, when the node itself is bound. -/
theorem note
    (binds : session.BindsParameters tree) {id : NodeId} {ty : Ty}
    (own : session.facts.BindsParameter id ty) :
    { session with facts := session.facts.setNodeType id ty : Session σ }.BindsParameters
      tree where
  arena := binds.arena
  unexpanded := binds.unexpanded
  bound {other known} typed := by
    by_cases earlier : session.facts.nodeType? other = some known
    · exact binds.bound earlier
    · have here : other = id := by
        by_contra different
        exact earlier ((Table.get?_insertIfNew_of_ne _ different ty).symm.trans typed)
      subst here
      cases between : session.facts.nodeType? other with
      | some kept =>
          have still := (session.facts.extends_setNodeType other ty).nodeTypes between
          obtain rfl : kept = known := Option.some.inj (still.symm.trans typed)
          exact binds.bound between
      | none =>
          obtain rfl : ty = known :=
            Option.some.inj ((Table.get?_insertIfNew_self between ty).symm.trans typed)
          exact own

/-- A parameter with a type is bound by its method or block, or may share its name. -/
theorem at_owner
    (binds : session.BindsParameters tree) (keyed : tree.Keyed)
    {owner id : NodeId} {name : String} {found around : Node} {ty : Ty}
    (parameter : tree.ParameterOf owner id name found around)
    (typed : session.facts.nodeType? id = some ty) :
    tree.enclosingScope? id = some owner ∧ session.facts.localType? owner name = some ty ∧
      (session.facts.scopes.own? owner name = some ty ∨ tree.MayShare id owner found) := by
  have same : session.facts.arena = tree := binds.arena
  obtain ⟨scope, encloses, visible, owned⟩ :=
    binds.bound typed (same.symm ▸ parameter.present) parameter.named
  rw [same] at encloses owned
  obtain rfl := parameter.eq_of_enclosingScope? keyed encloses
  exact ⟨encloses, visible, owned⟩

end Session.BindsParameters

namespace Infer

variable {setting : Setting σ} {tree : Arena}

theorem traversal_bindsParameters (setting : Setting σ) (keyed : tree.Keyed) :
    Traversal setting fun _ step =>
      Upholds (Session.BindsParameters tree) (fun _ => True) step :=
  .ofInvariant fun binds learned => binds.learned keyed learned

theorem keepArgumentTypes_bindsParameters (id : NodeId) (types : Option (List Ty)) :
    Upholds (Session.BindsParameters tree) (fun _ => True)
      (keepArgumentTypes id types : Infer σ _) := by
  intro session binds
  cases types with
  | none => exact ⟨binds, fun _ => trivial⟩
  | some types => exact ⟨⟨⟨binds.arena, binds.unexpanded⟩, binds.bound⟩, fun _ => trivial⟩

theorem node_bindsParameters
    (declines : setting.expander.Declines) (keyed : tree.Keyed) (fuel : Nat) :
    ∀ id, Upholds (Session.BindsParameters tree) (fun _ => True) (node setting fuel id) := by
  refine node_upholds (fun binds => binds.toIntact) trivial (fun _ => trivial) ?_ fuel
  intro fuel id found session visits binds _ present
  have traversal := traversal_bindsParameters setting keyed
  have ruled : Upholds (Session.BindsParameters tree) (fun _ => True)
      (rule setting (node setting fuel) id found) := by
    refine traversal.rule ?_ ?_ fun child _ => visits child
    · intro receiver name types
      exact traversal.read (.resolveCall declines id receiver name types)
    · intro list _
      exact traversal.arguments visits (keepArgumentTypes_bindsParameters id)
  have grows : ∀ {child before answer after}, before.Intact tree →
      Returns (node setting fuel child) before answer after → after.Intact tree := by
    intro child before answer after intact returned
    have still := node_growsWithin declines fuel child before intact
    rw [returned] at still
    exact still.intact intact
  have begun : UpholdsFrom session (Session.BindsParameters tree) (fun _ => True)
      (rule setting (node setting fuel) id found) := ruled binds
  apply begun.bind
  intro answer middle returned kept
  cases answer with
  | none => exact .of_run rfl ⟨⟨kept.arena, kept.unexpanded⟩, kept.bound⟩
  | some ty =>
      apply UpholdsFrom.of_run (run_remember_some id ty middle)
      exact kept.note
        (bindsParameter_of_rule grows binds.toIntact present returned kept.toIntact)

end Infer

namespace Typer

variable {typer : Typer σ} {arena : Arena}

theorem preserves_bindsParameters
    (declines : typer.expander.Declines) (keyed : arena.Keyed) :
    typer.Preserves (Session.BindsParameters arena) fun _ => True where
  drives _ _ _ _ binds := ⟨⟨binds.arena, binds.unexpanded⟩, binds.bound⟩
  givesUp _ := trivial
  registers session binds := by
    rcases registers : typer.registerTypes.run session with ⟨answer, after⟩
    obtain ⟨catalog, declaredConstructors, facts, added, rfl, _⟩ :=
      typer.registerTypes_added registers
    have kept := binds.learned keyed (Facts.Added.learned added)
    exact ⟨⟨⟨kept.arena, kept.unexpanded⟩, kept.bound⟩, fun _ => trivial⟩
  visits id session binds := by
    rw [run_infer]
    exact node_bindsParameters declines keyed _ id binds
  lists id := by
    refine (traversal_bindsParameters typer.setting keyed).arguments ?_
      (keepArgumentTypes_bindsParameters id)
    intro child session binds
    rw [run_infer]
    exact node_bindsParameters declines keyed _ child binds
  adds adds := (traversal_bindsParameters typer.setting keyed).own adds.own

theorem Reachable.bindsParameters
    {catalog : Catalog} {state : σ} {session : Session σ}
    (reached : typer.Reachable arena catalog state session)
    (declines : typer.expander.Declines) (keyed : arena.Keyed) :
    session.BindsParameters arena := by
  induction reached with
  | start =>
      refine ⟨⟨rfl, rfl⟩, ?_⟩
      rintro id ty ⟨⟩
  | step _ operation binds =>
      exact ((preserves_bindsParameters declines keyed).perform binds operation).1

/-- Without macros, in every session that is reached, a parameter of a method or of a block that
has a type is seen with it from the method or the block, which is the scope around it.  The
method or the block binds the name itself, unless the parameter is an optional one of a block: it
may take the type of a scope further out that bound its name before. -/
theorem parameters_are_bound_around_them
    {catalog : Catalog} {state : σ} {session : Session σ}
    (reached : typer.Reachable arena catalog state session)
    (declines : typer.expander.Declines) (keyed : arena.Keyed)
    {owner id : NodeId} {name : String} {found around : Node} {ty : Ty}
    (parameter : arena.ParameterOf owner id name found around)
    (typed : session.facts.nodeType? id = some ty) :
    session.facts.arena.enclosingScope? id = some owner ∧
      session.facts.localType? owner name = some ty ∧
      (session.facts.scopes.own? owner name = some ty ∨
        session.facts.scopes.own? owner name = none ∧
          (∃ outer ∈ arena.capturedScopes owner,
            session.facts.scopes.own? outer name = some ty) ∧
          (∃ value, found.kind = .optionalArgument name value) ∧
          ∃ parameters content, around.kind = .block parameters content) := by
  have binds := reached.bindsParameters declines keyed
  have tree : session.facts.arena = arena := binds.arena
  obtain ⟨encloses, visible, owned⟩ := binds.at_owner keyed parameter typed
  refine ⟨tree.symm ▸ encloses, visible, ?_⟩
  -- The first visible scope is the owner itself, the others are those that it captures.
  cases own : session.facts.scopes.own? owner name with
  | some kept =>
      left
      rw [← visible, Facts.localType?_of_own? own]
  | none =>
      right
      rw [own] at owned
      obtain ⟨optional, block⟩ := parameter.optional_of_mayShare (owned.resolve_left nofun)
      rw [Facts.localType?, Scopes.lookup?, tree, Arena.visibleScopes, List.findSome?_cons, own]
        at visible
      obtain ⟨outer, captured, binding⟩ := List.exists_of_findSome?_eq_some visible
      exact ⟨rfl, ⟨outer, captured, binding⟩, optional, block⟩

/-- A script that assigns a number to a name that is also a parameter of a method. -/
def sameNameOutside : Arena where
  nodes := ⟨[
    (1, { id := 1, parent := none, location := {}, kind := .script "" (some 2) }),
    (2, { id := 2, parent := some 1, location := {}, kind := .body [3, 5] }),
    (3, { id := 3, parent := some 2, location := {}, kind := .localAssignment "x" 4 }),
    (4, { id := 4, parent := some 3, location := {}, kind := .float ⟨15, 1⟩ }),
    (5, { id := 5, parent := some 2, location := {}, kind := .methodDefinition {
            name := "f", declared := { parameters := [("x", "int")] }
            arguments := 6, body := some 8 } }),
    (6, { id := 6, parent := some 5, location := {}, kind := .arguments { required := [7] } }),
    (7, { id := 7, parent := some 6, location := {}, kind := .requiredArgument "x" }),
    (8, { id := 8, parent := some 5, location := {}, kind := .localRead "x" })]⟩
  nextId := 9

theorem parameters_are_bound_around_them_of_sameNameOutside :
    plain.Reachable sameNameOutside .builtin ()
        (plain.perform (start sameNameOutside .builtin ()) .inferTypes) ∧
      plain.expander.Declines ∧ sameNameOutside.Keyed ∧
      (plain.perform (start sameNameOutside .builtin ()) .inferTypes).facts.nodeType? 7 =
        some .int ∧
      (plain.perform (start sameNameOutside .builtin ()) .inferTypes).facts.scopes.own? 1 "x" =
        some (.primitive .double) ∧
      (plain.perform (start sameNameOutside .builtin ()) .inferTypes).facts.scopes.own? 5 "x" =
        some .int := by
  have reached : plain.Reachable sameNameOutside .builtin ()
      (plain.perform (start sameNameOutside .builtin ()) .inferTypes) := .step .start .inferTypes
  have keyed : sameNameOutside.Keyed := ⟨by decide, by decide⟩
  have typed : (plain.perform (start sameNameOutside .builtin ()) .inferTypes).facts.nodeType? 7 =
      some .int := by decide +kernel
  have parameter : sameNameOutside.ParameterOf 5 7 "x"
      { id := 7, parent := some 6, location := {}, kind := .requiredArgument "x" }
      { id := 5, parent := some 2, location := {}, kind := .methodDefinition {
          name := "f", declared := { parameters := [("x", "int")] }
          arguments := 6, body := some 8 } } :=
    ⟨by decide, rfl, ⟨6, _, rfl, rfl, rfl, rfl⟩, by decide, .inl ⟨_, rfl⟩⟩
  obtain ⟨_, _, own | ⟨_, _, ⟨_, kind⟩, _⟩⟩ :=
    parameters_are_bound_around_them reached plain_declines keyed parameter typed
  · exact ⟨reached, plain_declines, keyed, typed, by decide +kernel, own⟩
  · cases kind

/-- A block whose optional parameter has the name of a local of the script. -/
def sameNameCaptured : Arena where
  nodes := ⟨[
    (1, { id := 1, parent := none, location := {}, kind := .script "" (some 2) }),
    (2, { id := 2, parent := some 1, location := {}, kind := .body [3, 5] }),
    (3, { id := 3, parent := some 2, location := {}, kind := .localAssignment "x" 4 }),
    (4, { id := 4, parent := some 3, location := {}, kind := .float ⟨15, 1⟩ }),
    (5, { id := 5, parent := some 2, location := {},
          kind := .functionalCall "each" [] (some 6) }),
    (6, { id := 6, parent := some 5, location := {}, kind := .block 7 none }),
    (7, { id := 7, parent := some 6, location := {}, kind := .arguments { optional := [8] } }),
    (8, { id := 8, parent := some 7, location := {}, kind := .optionalArgument "x" 9 }),
    (9, { id := 9, parent := some 8, location := {}, kind := .fixnum 1 })]⟩
  nextId := 10

/-- The parameter takes the type of the local, and the block binds nothing. -/
theorem optional_block_parameters_may_share :
    plain.Reachable sameNameCaptured .builtin ()
        (plain.perform (start sameNameCaptured .builtin ()) (.infer 1)) ∧
      plain.expander.Declines ∧
      (plain.perform (start sameNameCaptured .builtin ()) (.infer 1)).facts.arena.find? 8 =
        some { id := 8, parent := some 7, location := {}, kind := .optionalArgument "x" 9 } ∧
      (plain.perform (start sameNameCaptured .builtin ()) (.infer 1)).facts.arena.enclosingScope?
        8 = some 6 ∧
      (plain.perform (start sameNameCaptured .builtin ()) (.infer 1)).facts.nodeType? 9 =
        some .int ∧
      (plain.perform (start sameNameCaptured .builtin ()) (.infer 1)).facts.nodeType? 8 =
        some (.primitive .double) ∧
      (plain.perform (start sameNameCaptured .builtin ()) (.infer 1)).facts.scopes.own? 6 "x" =
        none := by
  refine ⟨.step .start (.infer 1), plain_declines, ?_⟩
  decide +kernel

end Typer

end DeferredTyping
