import DeferredTyping.Proofs.Frames
import DeferredTyping.Proofs.Parameters

/-!
# Who binds a name

Of all that is done to a tree, only assignments and parameters bind names, each in the scope
around it: a name that no visible scope owns is bound where it is learned.  So whenever a scope
binds a name, a node with this name stands in the scope itself.  If it is an assignment, its value
has the type that was bound; if it is a parameter for whose name the signature of its method
declares a type, it is this type that was bound.
-/

namespace DeferredTyping

variable {σ : Type}

open Infer

/-- The name that a node binds in the scope around it. -/
def Kind.bound? {α : Type} : Kind α → Option String
  | .localAssignment name _ => some name
  | kind => kind.parameter?

theorem Kind.bound?_eq_some_iff
    {α : Type} {kind : Kind α} {name : String} :
    kind.bound? = some name ↔
      (∃ value, kind = .localAssignment name value) ∨ kind.parameter? = some name := by
  cases kind with
  | localAssignment written value => simp [bound?, parameter?]
  | _ => simp [bound?]

/-- No name is bound when a method is published. -/
theorem Facts.scopes_hidesPublishing : Facts.HidesPublishing Facts.scopes :=
  ⟨fun _ _ => rfl, fun _ _ => rfl, fun _ _ => rfl⟩

/-- A type that the signature of its method declares for a parameter of this name is accepted. -/
def Facts.Declares (facts : Facts) (id : NodeId) (name : String) (accepts : Ty → Prop) : Prop :=
  ∀ ⦃owner method⦄, facts.arena.owningMethod? id = .ok (some (owner, method)) →
    ∃ signature, facts.signature? owner = some signature ∧
      ∀ ⦃declared⦄, signature.parameter? name = some declared → accepts declared

theorem Facts.Declares.mono
    {before after : Facts} {id : NodeId} {name : String} {accepts : Ty → Prop}
    (declares : before.Declares id name accepts)
    (same : after.arena = before.arena) (extended : before.Extends after) :
    after.Declares id name accepts := by
  intro owner method owns
  rw [same] at owns
  obtain ⟨signature, known, accepted⟩ := declares owns
  obtain ⟨later, still, parameters, _⟩ := extended.signatures known
  refine ⟨later, still, ?_⟩
  intro declared found
  rw [Signature.parameter?, parameters] at found
  exact accepted found

theorem Facts.Declares.imp
    {facts : Facts} {id : NodeId} {name : String} {accepts wider : Ty → Prop}
    (declares : facts.Declares id name accepts) (included : ∀ {ty}, accepts ty → wider ty) :
    facts.Declares id name wider := by
  intro owner method owns
  obtain ⟨signature, known, accepted⟩ := declares owns
  exact ⟨signature, known, fun _ found => included (accepted found)⟩

/-- A scope binds a name for a node that stands in it: an assignment of a value of this type, or
a parameter for which nothing else is declared. -/
structure Facts.BindsFor (facts : Facts) (scope : NodeId) (name : String) (ty : Ty)
    (id : NodeId) : Prop where
  named : ∃ found, facts.arena.find? id = some found ∧ found.kind.bound? = some name
  around : facts.arena.enclosingScope? id = some scope
  declared : facts.Declares id name (ty = ·)
  assigned : ∀ {found value}, facts.arena.find? id = some found →
    found.kind = .localAssignment name value → facts.nodeType? value = some ty

theorem Facts.BindsFor.mono
    {before after : Facts} {scope id : NodeId} {name : String} {ty : Ty}
    (binds : before.BindsFor scope name ty id)
    (same : after.arena = before.arena) (extended : before.Extends after) :
    after.BindsFor scope name ty id where
  named := same.symm ▸ binds.named
  around := same.symm ▸ binds.around
  declared := binds.declared.mono same extended
  assigned present kind := extended.nodeTypes (binds.assigned (same ▸ present) kind)

/-- The tree is the given one, and each binding of a scope was made for a node in it. -/
structure Session.BindsInPlace (tree : Arena) (session : Session σ) : Prop
    extends session.Intact tree where
  bound : ∀ {scope name ty}, session.facts.scopes.own? scope name = some ty →
    ∃ id, session.facts.BindsFor scope name ty id

namespace Session.BindsInPlace

variable {tree : Arena} {session : Session σ}

/-- More facts with the same bindings. -/
theorem keep
    {facts : Facts} (binds : session.BindsInPlace tree) (extended : session.facts.Extends facts)
    (arena : facts.arena = session.facts.arena)
    (expansions : facts.expansions = session.facts.expansions)
    (scopes : facts.scopes = session.facts.scopes) :
    { session with facts : Session σ }.BindsInPlace tree where
  arena := arena.trans binds.arena
  unexpanded := expansions.trans binds.unexpanded
  bound own := by
    rw [scopes] at own
    obtain ⟨id, bindsFor⟩ := binds.bound own
    exact ⟨id, bindsFor.mono arena extended⟩

/-- A name that nobody owned is bound for a node in the scope. -/
theorem bind
    {id scope : NodeId} {name : String} {ty : Ty} (binds : session.BindsInPlace tree)
    (bindsFor : session.facts.BindsFor scope name ty id)
    (free : session.facts.scopes.own?
      (session.facts.scopes.owner session.facts.arena scope name) name = none) :
    { session with facts := { session.facts with
        scopes := session.facts.scopes.bind
          (session.facts.scopes.owner session.facts.arena scope name) name ty } :
      Session σ }.BindsInPlace tree := by
  have adds : Facts.Adds "" {} session.facts { session.facts with
      scopes := session.facts.scopes.bind
        (session.facts.scopes.owner session.facts.arena scope name) name ty } := .local free
  -- A free name is owned by the scope in which it is learned.
  have here := (Scopes.free_of_owner_free free).1
  rw [here] at adds ⊢
  refine ⟨⟨binds.arena, binds.unexpanded⟩, ?_⟩
  intro other bound known own
  by_cases same : other = scope ∧ bound = name
  · obtain ⟨rfl, rfl⟩ := same
    obtain rfl : ty = known := Option.some.inj ((Scopes.own?_bind_self _ _ _ _).symm.trans own)
    exact ⟨id, bindsFor.mono rfl adds.extends⟩
  · have earlier : session.facts.scopes.own? other bound = some known := by
      rw [← own]
      by_cases sameScope : other = scope
      · subst sameScope
        exact (Scopes.own?_bind_of_name_ne _ _ (fun again => same ⟨rfl, again⟩) _).symm
      · exact (Scopes.own?_bind_of_scope_ne _ sameScope _ _ _).symm
    obtain ⟨binder, stands⟩ := binds.bound earlier
    exact ⟨binder, stands.mono rfl adds.extends⟩

end Session.BindsInPlace

namespace Infer

variable {setting : Setting σ} {tree : Arena} {infer : NodeId → Infer σ (Option Ty)}

/-- What the signature of a method declares for one of its parameters is what is asked for. -/
theorem declares_of_declaredType?
    {id : NodeId} {name : String} {declared : Option Ty} {before after : Session σ}
    (intact : before.Intact tree)
    (returned : Returns (declaredType? setting id name) before declared after) :
    after.facts.Declares id name (declared = some ·) := by
  intro owner method owns
  rw [(declaredType?_intact intact returned).arena, ← intact.arena] at owns
  rcases returns_declaredType? returned with
    ⟨none, _⟩ | ⟨other, defined, signature, owned, resolves, rfl⟩
  · cases none.symm.trans owns
  · cases owned.symm.trans owns
    exact ⟨signature, signature?_of_signatureOf resolves, fun _ found => found⟩

theorem bindsInPlace_of_keepsView
    (setting : Setting σ) {α : Type} {step : Infer σ α}
    (own : OwnStep setting step) (keeps : KeepsView Facts.scopes step) :
    Upholds (Session.BindsInPlace tree) (fun _ => True) step := by
  intro session binds
  obtain ⟨facts, learned, ended⟩ := own.learns session
  have same := Facts.Learned.sameNodes learned
  have scopes := keeps session
  rw [ended] at scopes ⊢
  have extended : session.facts.Extends facts := Facts.Learned.extends learned
  exact ⟨binds.keep extended same.arena same.expansions scopes, fun _ => trivial⟩

theorem declaredType?_bindsInPlace (id : NodeId) (name : String) :
    Upholds (Session.BindsInPlace tree) (fun _ => True) (declaredType? setting id name) :=
  bindsInPlace_of_keepsView setting (AddStep.declaredType? id name).own
    (.declaredType? Facts.scopes_hidesPublishing id name)

/-- A step that asks for the scope of a node goes on with the scope around it. -/
theorem bindsInPlace_of_scopeOf
    {α : Type} {id : NodeId} {next : NodeId → Infer σ α} {session : Session σ}
    (onward : ∀ {scope}, tree.enclosingScope? id = some scope →
      UpholdsFrom session (Session.BindsInPlace tree) (fun _ => True) (next scope))
    (binds : session.BindsInPlace tree) :
    UpholdsFrom session (Session.BindsInPlace tree) (fun _ => True)
      (getArena >>= fun arena => ofTree (arena.scopeOf id) >>= next) := by
  cases stands : session.facts.arena.scopeOf id with
  | error cause =>
      have stops : (getArena >>= fun arena => ofTree (arena.scopeOf id) >>= next).run session =
          (.error (.failed (.broken cause)), session) := by
        simp [run_bind, stands]
      exact UpholdsFrom.of_stop stops binds trivial
  | ok scope =>
      have around := Arena.enclosingScope?_of_scopeOf stands
      rw [binds.arena] at around
      have goes : (getArena >>= fun arena => ofTree (arena.scopeOf id) >>= next).run session =
          (next scope).run session := by
        simp [run_bind, stands]
      rw [UpholdsFrom, goes]
      exact onward around

/-- What is learned for a node is bound in the scope around it, unless it is bound already. -/
theorem learnLocal_bindsInPlace
    {session : Session σ} {id scope : NodeId} {name : String} {ty : Ty} (location : Location)
    (binds : session.BindsInPlace tree) (bindsFor : session.facts.BindsFor scope name ty id) :
    UpholdsFrom session (Session.BindsInPlace tree) (fun _ => True)
      (do return some (← learnLocal scope name ty location)) := by
  have learns : UpholdsFrom session (Session.BindsInPlace tree) (fun _ => True)
      (learnLocal scope name ty location) := by
    rcases run : (learnLocal scope name ty location).run session with ⟨stop | kept, after⟩
    · obtain rfl := learnLocal_refused run
      exact .of_stop run binds trivial
    · apply UpholdsFrom.of_run run
      rcases returns_learnLocal run with ⟨_, _, rfl⟩ | ⟨free, rfl, rfl⟩
      · exact binds
      · exact binds.bind bindsFor free
  exact learns.bind fun _ kept => .of_run rfl kept

section

variable {id : NodeId} {found : Node} {name : String} (present : tree.find? id = some found)

include present

/-- A parameter binds its declared type, if there is one. -/
theorem bindsFor_of_parameter
    {session : Session σ} {scope : NodeId} {ty : Ty} (intact : session.Intact tree)
    (named : found.kind.parameter? = some name)
    (around : tree.enclosingScope? id = some scope)
    (declared : session.facts.Declares id name (ty = ·)) :
    session.facts.BindsFor scope name ty id := by
  have apart : ∀ value, found.kind ≠ .localAssignment name value := by
    intro value kind
    rw [kind] at named
    cases named
  refine ⟨?_, intact.arena.symm ▸ around, declared, ?_⟩
  · exact ⟨found, intact.arena.symm ▸ present, Kind.bound?_eq_some_iff.mpr (.inr named)⟩
  · intro other value stored kind
    rw [intact.arena, present] at stored
    cases stored
    exact absurd kind (apart value)

theorem localAssignment_bindsInPlace
    {value : NodeId} {location : Location}
    (kind : found.kind = .localAssignment name value) (faithful : Faithful infer)
    (visits : Upholds (Session.BindsInPlace tree) (fun _ => True) (infer value)) :
    Upholds (Session.BindsInPlace tree) (fun _ => True)
      (localAssignment infer id name value location) := by
  intro session binds
  apply UpholdsFrom.bind (visits binds)
  intro answer after visited kept
  cases answer with
  | none => exact .of_run rfl kept
  | some valueType =>
      refine bindsInPlace_of_scopeOf ?_ kept
      intro scope around
      have bindsFor : after.facts.BindsFor scope name valueType id := by
        refine ⟨⟨found, kept.arena.symm ▸ present, by rw [kind]; rfl⟩,
          kept.arena.symm ▸ around, ?_, ?_⟩
        · -- An assignment is no parameter.
          intro owner method owns
          rw [kept.arena, Arena.owningMethod?, Arena.require_of_find? present] at owns
          simp [bind, Except.bind, kind, Kind.isArgument] at owns
        · intro other held stored assigns
          rw [kept.arena, present] at stored
          cases stored
          cases kind.symm.trans assigns
          exact faithful.answers visited
      exact learnLocal_bindsInPlace location kept bindsFor

theorem requiredArgument_bindsInPlace (named : found.kind.parameter? = some name) :
    Upholds (Session.BindsInPlace tree) (fun _ => True) (requiredArgument setting id name) := by
  have sequential : Sequential fun _ (step : Infer σ _) =>
      Upholds (Session.BindsInPlace tree) (fun _ => True) step :=
    .ofInvariant _
  intro session binds
  refine bindsInPlace_of_scopeOf ?_ binds
  intro scope around
  apply UpholdsFrom.bind (declaredType?_bindsInPlace id name binds)
  intro declared middle asked kept
  cases declared with
  | none => exact sequential.read (ReadStep.getFacts.bind fun _ => .pure _) kept
  | some given =>
      have declares := declares_of_declaredType? binds.toIntact asked
      apply UpholdsFrom.bind (sequential.read (.locationOf id) kept)
      intro location there located _
      obtain rfl := (ReadStep.locationOf id).after_eq located
      exact learnLocal_bindsInPlace location kept <|
        bindsFor_of_parameter present kept.toIntact named around (declares.imp Option.some.inj)

theorem optionalArgument_bindsInPlace
    {value : NodeId} (named : found.kind.parameter? = some name) (faithful : Faithful infer)
    (visits : Upholds (Session.BindsInPlace tree) (fun _ => True) (infer value)) :
    Upholds (Session.BindsInPlace tree) (fun _ => True)
      (optionalArgument setting infer id name value) := by
  have sequential : Sequential fun _ (step : Infer σ _) =>
      Upholds (Session.BindsInPlace tree) (fun _ => True) step :=
    .ofInvariant _
  intro session binds
  refine bindsInPlace_of_scopeOf ?_ binds
  intro scope around
  apply UpholdsFrom.bind (sequential.read (.locationOf id) binds)
  intro location there located _
  obtain rfl := (ReadStep.locationOf id).after_eq located
  apply UpholdsFrom.bind (declaredType?_bindsInPlace id name binds)
  intro declared middle asked kept
  apply UpholdsFrom.bind (visits kept)
  intro answer after visited still
  cases answer with
  | none => exact .of_run rfl still
  | some valueType =>
      -- The default value was visited meanwhile, and may itself have bound names in this scope.
      have extended := ((faithful.adds value).returned visited).facts
      have asks : after.facts.Declares id name (declared = some ·) :=
        (declares_of_declaredType? binds.toIntact asked).mono
          (still.arena.trans kept.arena.symm) extended
      have learns : ∀ {ty}, (∀ {given}, declared = some given → ty = given) →
          UpholdsFrom after (Session.BindsInPlace tree) (fun _ => True)
            (do return some (← learnLocal scope name ty location)) :=
        fun fits => learnLocal_bindsInPlace location still <|
          bindsFor_of_parameter present still.toIntact named around (asks.imp fits)
      cases declared with
      | none => exact learns nofun
      | some given =>
          apply UpholdsFrom.bind (sequential.read (.isParent _ _) still)
          intro accepted last compared _
          obtain rfl := (ReadStep.isParent given valueType).after_eq compared
          cases accepted with
          | true => exact learns Option.some.inj
          | false =>
              exact UpholdsFrom.bind (.of_stop (run_fail _ _) still trivial)
                fun failed => absurd failed returns_fail

end

theorem methodDefinition_bindsInPlace
    (visits : ∀ child, Upholds (Session.BindsInPlace tree) (fun _ => True) (infer child))
    (id : NodeId) (method : Method NodeId) :
    Upholds (Session.BindsInPlace tree) (fun _ => True)
      (methodDefinition setting infer id method) := by
  have gathers : Upholds (Session.BindsInPlace tree) (fun _ => True)
      (gatherMethod setting infer id method) := by
    refine (Sequential.ofInvariant (Session.BindsInPlace tree)).gatherMethod ?_ ?_ ?_
      fun child _ => visits child
    · exact bindsInPlace_of_keepsView setting (AddStep.bindDefiningClass id).own
        (.bindDefiningClass (fun _ _ => rfl) id)
    · exact bindsInPlace_of_keepsView setting (AddStep.signatureOf id method).own
        (.signatureOf Facts.scopes_hidesPublishing id method)
    · intro lexical location
      exact bindsInPlace_of_keepsView setting
        (AddStep.delegateBound id method lexical location).own
        (.delegateBound (fun _ _ => rfl) id method lexical location)
  rw [methodDefinition_eq, bind_assoc]
  refine gathers.bind fun gathered => ?_
  refine Upholds.bind (bindsInPlace_of_keepsView setting
    (announceGathered_own id method gathered)
    (.announceGathered (fun _ _ => rfl) id method gathered)) ?_
  intro answer
  exact bindsInPlace_of_keepsView setting (fillGathered_own id answer)
    (.fillGathered (fun _ _ => rfl) id answer)

theorem keepArgumentTypes_bindsInPlace (id : NodeId) (types : Option (List Ty)) :
    Upholds (Session.BindsInPlace tree) (fun _ => True)
      (keepArgumentTypes id types : Infer σ _) := by
  intro session binds
  cases types with
  | none => exact ⟨binds, fun _ => trivial⟩
  | some types =>
      exact ⟨binds.keep (session.facts.extends_setArgumentTypes id types) rfl rfl rfl,
        fun _ => trivial⟩

theorem rule_bindsInPlace
    (declines : setting.expander.Declines)
    (visits : ∀ child, Upholds (Session.BindsInPlace tree) (fun _ => True) (infer child))
    (faithful : Faithful infer)
    {id : NodeId} {found : Node} (present : tree.find? id = some found) :
    Upholds (Session.BindsInPlace tree) (fun _ => True) (rule setting infer id found) := by
  have sequential : Sequential fun _ (step : Infer σ _) =>
      Upholds (Session.BindsInPlace tree) (fun _ => True) step :=
    .ofInvariant _
  refine sequential.rule ?_ ?_ fun child _ => visits child
  · intro learns
    unfold rule
    cases kind : found.kind with
    | methodDefinition method => exact methodDefinition_bindsInPlace visits id method
    | arguments list =>
        have listed : Upholds (Session.BindsInPlace tree) (fun _ => True) (arguments infer id) :=
          sequential.arguments visits (keepArgumentTypes_bindsInPlace id)
        exact listed.bind fun _ => sequential.read (.pure _)
    | requiredArgument name | restArgument name =>
        exact requiredArgument_bindsInPlace present (by rw [kind]; rfl)
    | optionalArgument name value =>
        exact optionalArgument_bindsInPlace present (by rw [kind]; rfl) faithful (visits value)
    | localAssignment name value =>
        exact localAssignment_bindsInPlace present kind faithful (visits value)
    | _ =>
        rw [kind] at learns
        cases learns
  · intro receiver name types
    exact sequential.read (.resolveCall declines id receiver name types)

/-- Every visit binds names in place. -/
theorem node_bindsInPlace (declines : setting.expander.Declines) (fuel : Nat) :
    ∀ id, Upholds (Session.BindsInPlace tree) (fun _ => True) (node setting fuel id) := by
  refine node_upholds (fun binds => binds.toIntact) trivial (fun _ => trivial) ?_ fuel
  intro fuel id found session visits binds _ present
  apply UpholdsFrom.bind
    (rule_bindsInPlace declines visits (node_faithful declines.keepsNodes fuel) present binds)
  intro answer after _ kept
  cases answer with
  | none => exact .of_run rfl ⟨⟨kept.arena, kept.unexpanded⟩, kept.bound⟩
  | some ty =>
      exact .of_run rfl (kept.keep (after.facts.extends_setNodeType id ty) rfl rfl rfl)

end Infer

namespace Typer

variable {typer : Typer σ} {tree : Arena}

theorem sustains_bindsInPlace (declines : typer.expander.Declines) :
    typer.Sustains (Session.BindsInPlace tree) fun _ => True where
  drives _ _ _ _ binds := ⟨⟨binds.arena, binds.unexpanded⟩, binds.bound⟩
  givesUp _ := trivial
  visits id session binds := by
    rw [run_infer]
    exact node_bindsInPlace declines _ id binds

/-- Without macros, whatever the run of a fresh typer answers, each binding of a scope was made
for a node that stands in it. -/
theorem inferTypes_bindsInPlace
    (declines : typer.expander.Declines) (catalog : Catalog) (state : σ) :
    (typer.inferTypes.run (start tree catalog state)).2.BindsInPlace tree := by
  have fresh : (typer.registerTypes.run (start tree catalog state)).2.BindsInPlace tree := by
    have intact : KeepsTree tree typer.registerTypes := registerTypes_keepsTree
    refine ⟨intact _ ⟨rfl, rfl⟩, ?_⟩
    intro scope name ty own
    have keeps : KeepsView Facts.scopes typer.registerTypes :=
      .registerTypes Facts.scopes_hidesPublishing typer
    rw [keeps (start tree catalog state)] at own
    cases own
  rcases registers : typer.registerTypes.run (start tree catalog state) with
    ⟨stop | value, registered⟩
  · rw [registers] at fresh
    rw [inferTypes, run_bind_of_error registers]
    exact fresh
  · rw [registers] at fresh
    exact ((sustains_bindsInPlace declines).inferTypes registers fresh).1

end Typer

end DeferredTyping
