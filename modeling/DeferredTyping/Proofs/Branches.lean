import DeferredTyping.Proofs.Completeness
import DeferredTyping.Proofs.Registration

/-!
# The type of a choice

A choice with an alternative joins the types of its branches, so it accepts both of
them.  In a last-chance pass it may take the type of its only known branch instead;
its type is kept when the other branch is typed later, whatever that one is.
-/

namespace DeferredTyping

variable {σ : Type}

open Infer

/-- A choice accepts both of its branches. -/
def Facts.Joins (classes : Catalog) (id : NodeId) (ty : Ty) (facts : Facts) : Prop :=
  ∀ {found condition thenBody elseBody}, facts.arena.find? id = some found →
    found.kind = .ifElse condition thenBody (some elseBody) →
      ∃ thenType elseType, facts.optionalType? thenBody = some thenType ∧
        facts.nodeType? elseBody = some elseType ∧
        classes.isParent ty thenType = true ∧ classes.isParent ty elseType = true

theorem Facts.Joins.mono
    {classes : Catalog} {id : NodeId} {ty : Ty} {before after : Facts}
    (joins : before.Joins classes id ty) (extended : before.Extends after)
    (arena : after.arena = before.arena) :
    after.Joins classes id ty := by
  intro found condition thenBody elseBody present kind
  rw [arena] at present
  obtain ⟨thenType, elseType, thenKnown, elseKnown, accepts⟩ := joins present kind
  exact ⟨thenType, elseType, extended.optionalType? thenKnown, extended.nodeTypes elseKnown,
    accepts⟩

/-- A choice without a type before has that of one branch afterwards, and the other
branch had none before, while a last chance was on. -/
structure Session.TakesBranch (before : Session σ) (id : NodeId) (ty : Ty) (after : Facts) :
    Prop where
  lastChance : before.lastChance = true
  untyped : before.facts.nodeType? id = none
  branch : ∀ {found condition thenBody elseBody}, after.arena.find? id = some found →
    found.kind = .ifElse condition thenBody (some elseBody) →
      after.optionalType? thenBody = some ty ∧ before.facts.nodeType? elseBody = none ∨
        after.nodeType? elseBody = some ty ∧ before.facts.optionalType? thenBody = none

theorem Session.TakesBranch.mono
    {first : Session σ} {id : NodeId} {ty : Ty} {before after : Facts}
    (takes : first.TakesBranch id ty before) (extended : before.Extends after)
    (arena : after.arena = before.arena) :
    first.TakesBranch id ty after where
  lastChance := takes.lastChance
  untyped := takes.untyped
  branch present kind :=
    (takes.branch (arena ▸ present) kind).imp
      (And.imp_left extended.optionalType?) (And.imp_left extended.nodeTypes)

/-- Of the nodes that take a type after the first session, choices accept both
branches or take one of them. -/
def branchJudgement (classes : Catalog) (first : Session σ) : Judgement σ where
  context session := session.lastChance = first.lastChance ∧
    first.facts.Extends session.facts
  holds id ty facts := first.facts.nodeType? id = some ty ∨
    facts.Joins classes id ty ∨ first.TakesBranch id ty facts

/-- A choice joins both branches, or takes one of them while a last chance is on and
the other has no type. -/
theorem Infer.joins_or_takes
    {infer : NodeId → Infer σ (Option Ty)} (faithful : Faithful infer)
    {first before after : Session σ} {condition elseBody : NodeId}
    {thenBody : Option NodeId} {location : Location} {ty : Ty}
    (sameChance : before.lastChance = first.lastChance)
    (extended : first.facts.Extends before.facts)
    (returned : Returns (ifElse infer condition thenBody (some elseBody) location) before
      (some ty) after) :
    (∃ thenType elseType, after.facts.optionalType? thenBody = some thenType ∧
      after.facts.nodeType? elseBody = some elseType ∧
      before.catalog.isParent ty thenType = true ∧
      before.catalog.isParent ty elseType = true) ∨
    first.lastChance = true ∧
      (after.facts.optionalType? thenBody = some ty ∧
          first.facts.nodeType? elseBody = none ∨
        after.facts.nodeType? elseBody = some ty ∧
          first.facts.optionalType? thenBody = none) := by
  obtain ⟨conditionType, decided, thenType, chosen, elseType, decides, visits, alternates,
    concludes⟩ := returns_ifElse_some returned
  have asked := (faithful.adds condition).returned decides
  have early := (faithful.adds_optional thenBody).returned visits
  have late := (faithful.adds elseBody).returned alternates
  have whole := (asked.trans early).trans late
  have thenAnswer := faithful.optional visits
  have elseAnswer := faithful.answers alternates
  rcases concludes with ⟨known, other, rfl, rfl, joined⟩ |
    ⟨lastChance, ⟨rfl, rfl⟩ | ⟨rfl, rfl⟩⟩
  · obtain ⟨acceptsThen, acceptsElse⟩ := Catalog.isParent_of_join? joined
    rw [whole.catalog] at acceptsThen acceptsElse
    exact .inl ⟨known, other, late.facts.optionalType? thenAnswer, elseAnswer, acceptsThen,
      acceptsElse⟩
  · refine .inr ⟨sameChance.symm.trans (whole.lastChance.symm.trans lastChance), .inl ?_⟩
    exact ⟨late.facts.optionalType? thenAnswer,
      (extended.trans whole.facts).nodeType?_eq_none elseAnswer⟩
  · refine .inr ⟨sameChance.symm.trans (whole.lastChance.symm.trans lastChance), .inr ?_⟩
    exact ⟨elseAnswer, (extended.trans (asked.trans early).facts).optionalType?_eq_none
      thenAnswer⟩

theorem branchJudgement_established
    {setting : Setting σ} (declines : setting.expander.Declines)
    (tree : Arena) (classes : Catalog) (first : Session σ) :
    (branchJudgement classes first).Established setting tree classes where
  context extended _ known := ⟨extended.lastChance.trans known.1,
    known.2.trans extended.facts⟩
  later later holds :=
    holds.imp_right <| Or.imp
      (fun joins => joins.mono later.toExtends later.arena)
      (fun takes => takes.mono later.toExtends later.arena)
  rule {fuel id found ty before after} regular context unknown present intact returned := by
    have faithful : Faithful (node setting fuel) := node_faithful declines.keepsNodes fuel
    have learned := after.facts.extends_setNodeType id ty
    right
    unfold rule at returned
    cases kind : found.kind with
    | ifElse condition thenBody elseBody =>
        cases elseBody with
        | some elseBody =>
            rw [kind] at returned
            obtain ⟨sameChance, extended⟩ := context
            rcases joins_or_takes faithful sameChance extended returned with
              ⟨thenType, elseType, thenKnown, elseKnown, accepts⟩ | ⟨lastChance, takes⟩
            · left
              intro other condition thenBody elseBody stored same
              obtain rfl := intact.eq_of_noted present stored
              rw [kind] at same
              cases same
              rw [regular.catalog] at accepts
              exact ⟨thenType, elseType, learned.optionalType? thenKnown,
                learned.nodeTypes elseKnown, accepts⟩
            · right
              refine ⟨lastChance, extended.nodeType?_eq_none unknown, ?_⟩
              intro other condition thenBody elseBody stored same
              obtain rfl := intact.eq_of_noted present stored
              rw [kind] at same
              cases same
              exact takes.imp (And.imp_left learned.optionalType?)
                (And.imp_left learned.nodeTypes)
        | none =>
            left
            intro other _ _ _ stored same
            rw [intact.eq_of_noted present stored, kind] at same
            cases same
    | _ =>
        left
        intro other _ _ _ stored same
        rw [intact.eq_of_noted present stored, kind] at same
        cases same

namespace Typer

variable {typer : Typer σ} {tree : Arena} {classes : Catalog}

theorem each_branches
    (declines : typer.expander.Declines) (keyed : tree.Keyed)
    {session after : Session σ} (regular : session.Regular tree classes) {ids : List NodeId}
    (visits : Returns (each typer.infer ids) session () after) :
    after.Regular tree classes ∧
      (after.lastChance = session.lastChance ∧ session.facts.Extends after.facts) ∧
      ∀ {id ty}, after.facts.nodeType? id = some ty →
        session.facts.nodeType? id = some ty ∨ after.facts.Joins classes id ty ∨
          session.TakesBranch id ty after.facts := by
  have established : (branchJudgement classes session).Established typer.setting tree
      classes := branchJudgement_established declines tree classes session
  have building := judged_building established keyed
  have visited : Upholds (Session.Judged tree classes (branchJudgement classes session))
      (fun stop => stop.isProper = true) (each typer.infer ids) :=
    building.each fun id _ => infer_judged established keyed declines id
  have begun : session.Judged tree classes (branchJudgement classes session) :=
    ⟨regular, ⟨rfl, .refl _⟩, .inl⟩
  have ended := visited.returned begun visits
  exact ⟨ended.toRegular, ended.context, ended.holds⟩

/-- A pass accounts for the choices that take a type in it. -/
theorem pass_branches
    (declines : typer.expander.Declines) (keyed : tree.Keyed)
    {session after : Session σ} (regular : session.Regular tree classes) {productive : Bool}
    (passed : Returns (pass typer.infer) session productive after) :
    after.Regular tree classes ∧ session.facts.Extends after.facts ∧
      ∀ {id ty}, after.facts.nodeType? id = some ty →
        session.facts.nodeType? id = some ty ∨ after.facts.Joins classes id ty ∨
          session.TakesBranch id ty after.facts := by
  rw [Returns] at passed
  rcases run_pass typer.infer session with ⟨_, _, _, run⟩ | ⟨other, visits, run⟩
  · rw [run] at passed
    cases passed
  · rw [run] at passed
    cases passed
    have begun : (passStart session).Regular tree classes := regular.drive _ _ _
    obtain ⟨kept, ⟨_, extended⟩, accounted⟩ := each_branches declines keyed begun visits
    refine ⟨kept, extended, fun known => ?_⟩
    exact (accounted known).imp_right (Or.imp_right fun takes =>
      ⟨takes.lastChance, takes.untyped, takes.branch⟩)

/-- The passes that the driver makes from a session on, each from where it begins to
where it ends.  A pass limit may cut them short. -/
inductive MakesPass (typer : Typer σ) : Session σ → Session σ → Session σ → Prop where
  | here {session after : Session σ} {productive : Bool}
      (pending : session.worklist.isEmpty = false)
      (passed : Returns (pass typer.infer) session productive after) :
      MakesPass typer session session after
  | next {session after first last : Session σ} {productive : Bool}
      (pending : session.worklist.isEmpty = false)
      (passed : Returns (pass typer.infer) session productive after)
      (goesOn : productive = true ∨
        (typer.config.lastChance && !after.lastChance) = true)
      (later : MakesPass typer { after with lastChance := !productive } first last) :
      MakesPass typer session first last

/-- Every choice accepts its branches, or took one of them in a pass that was made
since. -/
def Accounted (typer : Typer σ) (classes : Catalog) (origin session : Session σ) : Prop :=
  ∀ {id ty}, session.facts.nodeType? id = some ty →
    session.facts.Joins classes id ty ∨
      ∃ first last, typer.MakesPass origin first last ∧
        first.TakesBranch id ty last.facts ∧ last.facts.nodeType? id = some ty ∧
        last.facts.Extends session.facts ∧ last.facts.arena = session.facts.arena

theorem Accounted.pass
    {origin session after : Session σ}
    (accounted : typer.Accounted classes origin session)
    (extended : session.facts.Extends after.facts)
    (arena : after.facts.arena = session.facts.arena)
    (made : typer.MakesPass origin session after)
    (holds : ∀ {id ty}, after.facts.nodeType? id = some ty →
      session.facts.nodeType? id = some ty ∨ after.facts.Joins classes id ty ∨
        session.TakesBranch id ty after.facts) :
    typer.Accounted classes origin after := by
  intro id ty known
  rcases holds known with earlier | joins | takes
  · rcases accounted earlier with joins | ⟨first, last, makes, takes, typed, grown, same⟩
    · exact .inl (joins.mono extended arena)
    · exact .inr ⟨first, last, makes, takes, typed, grown.trans extended,
        same.trans arena.symm⟩
  · exact .inl joins
  · exact .inr ⟨session, after, made, takes, known, .refl _, rfl⟩

/-- Driving the deferred nodes accounts for every choice. -/
theorem resolveWithin_accounted
    (declines : typer.expander.Declines) (keyed : tree.Keyed) {origin : Session σ}
    (fuel : Nat) :
    ∀ {session after : Session σ}, session.Regular tree classes →
      typer.Accounted classes origin session →
      (∀ {first last}, typer.MakesPass session first last →
        typer.MakesPass origin first last) →
      Returns (typer.resolveWithin fuel) session () after →
        after.Regular tree classes ∧ typer.Accounted classes origin after := by
  induction fuel with
  | zero =>
      intro session after _ _ _ returned
      cases returned
  | succ fuel ih =>
      intro session after regular accounted makes returned
      rw [Returns] at returned
      have turn := typer.turn fuel session
      generalize (typer.resolveWithin (fuel + 1)).run session = outcome at turn returned
      have goes : ∀ {middle : Session σ} {productive : Bool},
          session.worklist.isEmpty = false →
          Returns (Infer.pass typer.infer) session productive middle →
          (productive = true ∨ (typer.config.lastChance && !middle.lastChance) = true) →
          Returns (typer.resolveWithin fuel) { middle with lastChance := !productive } ()
            after →
            after.Regular tree classes ∧ typer.Accounted classes origin after := by
        intro middle productive pending passed goesOn later
        obtain ⟨kept, extended, holds⟩ := pass_branches declines keyed regular passed
        have onward : typer.Accounted classes origin middle :=
          accounted.pass extended (kept.arena.trans regular.arena.symm)
            (makes (.here pending passed)) holds
        have further : ∀ {first last},
            typer.MakesPass { middle with lastChance := !productive } first last →
              typer.MakesPass origin first last :=
          fun next => makes (.next pending passed goesOn next)
        have driven : { middle with lastChance := !productive : Session σ }.Regular tree
            classes := kept.drive _ _ _
        exact ih driven onward further later
      cases turn with
      | done empty =>
          cases returned
          exact ⟨regular, accounted⟩
      | limited _ _ => cases returned
      | stopped _ _ => cases returned
      | stuck _ _ _ => cases returned
      | productive pending passed => exact goes pending passed (.inl rfl) returned
      | lastChance pending passed left => exact goes pending passed (.inr left) returned

/-- What the inference of all trees does before it drives the deferred nodes. -/
def visitRoots (typer : Typer σ) : Infer σ Unit := do
  typer.registerTypes
  let roots := (← getArena).roots
  Infer.each typer.infer (roots.map Node.id)

theorem inferTypes_eq (typer : Typer σ) :
    typer.inferTypes = typer.visitRoots >>= fun _ => typer.resolve := by
  simp only [inferTypes, visitRoots, bind_assoc]

theorem returns_visitRoots
    {session visited : Session σ} (visits : Returns typer.visitRoots session () visited) :
    ∃ registered, Returns typer.registerTypes session () registered ∧
      Returns (Infer.each typer.infer (registered.facts.arena.roots.map Node.id)) registered ()
        visited := by
  obtain ⟨_, registered, registers, roots⟩ := returns_bind.mp visits
  obtain ⟨_, _, read, each⟩ := returns_bind.mp roots
  obtain ⟨rfl, rfl⟩ := returns_getArena.mp read
  exact ⟨registered, registers, each⟩

theorem visitRoots_accounted
    (declines : typer.expander.Declines) (keyed : tree.Keyed)
    {catalog : Catalog} {state : σ} {visited : Session σ}
    (visits : Returns typer.visitRoots (start tree catalog state) () visited) :
    visited.Regular tree (tree.declare catalog) ∧ visited.lastChance = false ∧
      typer.Accounted (tree.declare catalog) visited visited := by
  obtain ⟨registered, registers, roots⟩ := returns_visitRoots visits
  obtain ⟨regular, untyped⟩ := registered_regular keyed registers
  obtain ⟨kept, ⟨sameChance, _⟩, holds⟩ := each_branches declines keyed regular roots
  have fresh : registered.lastChance = false := by
    obtain ⟨_, _, _, _, ended, _⟩ := typer.registerTypes_added registers
    rw [ended]
    rfl
  refine ⟨kept, sameChance.trans fresh, ?_⟩
  intro id ty known
  rcases holds known with earlier | joins | takes
  · rw [untyped] at earlier
    cases earlier
  · exact .inl joins
  · have on := takes.lastChance
    rw [fresh] at on
    cases on

/-- Without last chances no pass is made while one is on. -/
theorem MakesPass.lastChance_of_lastChance
    {session first last : Session σ} (makes : typer.MakesPass session first last)
    (off : session.lastChance = false) (on : first.lastChance = true) :
    typer.config.lastChance = true := by
  induction makes with
  | here _ _ =>
      rw [off] at on
      cases on
  | @next _ _ _ _ productive _ _ goesOn _ ih =>
      cases productive with
      | true => exact ih rfl on
      | false =>
          rcases goesOn with progress | left
          · cases progress
          · exact (Bool.and_eq_true_iff.mp left).1

/-- When inference succeeds, both branches of a choice have types and the choice
accepts both, unless last chances are allowed and it took its type in a last-chance
pass: then that is the type of one branch, and the other branch had none when the
pass began. -/
theorem branches_join_unless_lastChance
    (declines : typer.expander.Declines)
    {arena : Arena} (keyed : arena.Keyed)
    {catalog : Catalog} {state : σ} {session : Session σ}
    (success : Returns typer.inferTypes (start arena catalog state) () session)
    {id : NodeId} {found : Node} {condition elseBody : NodeId} {thenBody : Option NodeId}
    {ty : Ty}
    (present : session.facts.arena.find? id = some found)
    (kind : found.kind = .ifElse condition thenBody (some elseBody))
    (known : session.facts.nodeType? id = some ty) :
    ∃ thenType elseType, session.facts.optionalType? thenBody = some thenType ∧
      session.facts.nodeType? elseBody = some elseType ∧
      (session.catalog.isParent ty thenType = true ∧
          session.catalog.isParent ty elseType = true ∨
        typer.config.lastChance = true ∧
          ∃ visited first last,
            Returns typer.visitRoots (start arena catalog state) () visited ∧
            typer.MakesPass visited first last ∧ first.lastChance = true ∧
            first.facts.nodeType? id = none ∧ last.facts.nodeType? id = some ty ∧
            (ty = thenType ∧ first.facts.nodeType? elseBody = none ∨
              ty = elseType ∧ first.facts.optionalType? thenBody = none)) := by
  obtain ⟨covered, empty, _⟩ :=
    inferTypes_covered declines.onlyAdds (.start keyed catalog state) rfl success
  rw [inferTypes_eq] at success
  obtain ⟨_, visited, visits, resolves⟩ := returns_bind.mp success
  obtain ⟨regular, off, accounted⟩ := visitRoots_accounted declines keyed visits
  rw [Returns, run_resolve] at resolves
  obtain ⟨ended, holds⟩ :=
    resolveWithin_accounted declines keyed _ regular accounted (fun makes => makes) resolves
  have typed : ∀ child ∈ found.kind.dependencies,
      ∃ childType, session.facts.nodeType? child = some childType := by
    intro child member
    exact covered.typed_of_below empty (.inl ⟨ty, known⟩) (.single ⟨found, present, member⟩)
  rw [kind] at typed
  obtain ⟨elseType, elseKnown⟩ := typed elseBody (by simp [Kind.dependencies, Kind.children])
  obtain ⟨thenType, thenKnown⟩ : ∃ thenType,
      session.facts.optionalType? thenBody = some thenType := by
    cases thenBody with
    | none => exact ⟨.void, rfl⟩
    | some thenBody => exact typed thenBody (by simp [Kind.dependencies, Kind.children])
  refine ⟨thenType, elseType, thenKnown, elseKnown, ?_⟩
  rcases holds known with joins | ⟨first, last, makes, takes, settled, grown, same⟩
  · left
    obtain ⟨thenOther, elseOther, thenSame, elseSame, accepts⟩ := joins present kind
    rw [thenKnown] at thenSame
    rw [elseKnown] at elseSame
    cases thenSame
    cases elseSame
    rw [ended.catalog]
    exact accepts
  · right
    refine ⟨makes.lastChance_of_lastChance off takes.lastChance, visited, first, last, visits,
      makes, takes.lastChance, takes.untyped, settled, ?_⟩
    rcases takes.branch (same ▸ present) kind with ⟨taken, other⟩ | ⟨taken, other⟩
    · have kept := grown.optionalType? taken
      rw [thenKnown] at kept
      exact .inl ⟨(Option.some.inj kept).symm, other⟩
    · have kept := grown.nodeTypes taken
      rw [elseKnown] at kept
      exact .inr ⟨(Option.some.inj kept).symm, other⟩

/-- A choice between a number and a call of a method whose body calls the method that
chooses. -/
def mutualChoice : Arena where
  nodes := ⟨[
    (1, { id := 1, parent := none, location := {}, kind := .script "" (some 2) }),
    (2, { id := 2, parent := some 1, location := {}, kind := .body [3, 9] }),
    (3, { id := 3, parent := some 2, location := {},
          kind := .methodDefinition { name := "f", arguments := 4, body := some 5 } }),
    (4, { id := 4, parent := some 3, location := {}, kind := .arguments {} }),
    (5, { id := 5, parent := some 3, location := {}, kind := .ifElse 6 (some 7) (some 8) }),
    (6, { id := 6, parent := some 5, location := {}, kind := .boolean true }),
    (7, { id := 7, parent := some 5, location := {}, kind := .fixnum 1 }),
    (8, { id := 8, parent := some 5, location := {}, kind := .functionalCall "g" [] none }),
    (9, { id := 9, parent := some 2, location := {},
          kind := .methodDefinition { name := "g", arguments := 10, body := some 11 } }),
    (10, { id := 10, parent := some 9, location := {}, kind := .arguments {} }),
    (11, { id := 11, parent := some 9, location := {}, kind := .body [12, 13] }),
    (12, { id := 12, parent := some 11, location := {},
           kind := .functionalCall "f" [] none }),
    (13, { id := 13, parent := some 11, location := {}, kind := .str "s" })]⟩
  nextId := 14

theorem mutualChoice_infers :
    ∃ session, Returns plain.inferTypes (start mutualChoice .builtin ()) () session ∧
      session.facts.arena.find? 5 = some { id := 5, parent := some 3, location := {},
                                           kind := .ifElse 6 (some 7) (some 8) } ∧
      session.facts.nodeType? 5 = some .int :=
  ⟨(plain.inferTypes.run (start mutualChoice .builtin ())).2,
    returns_of_isOk (by decide +kernel), by decide +kernel, by decide +kernel⟩

theorem branches_join_unless_lastChance_of_mutualChoice :
    plain.expander.Declines ∧ mutualChoice.Keyed ∧
      ∃ session, Returns plain.inferTypes (start mutualChoice .builtin ()) () session ∧
        session.facts.nodeType? 5 = some .int ∧
        ∃ thenType elseType, session.facts.optionalType? (some 7) = some thenType ∧
          session.facts.nodeType? 8 = some elseType ∧
          (session.catalog.isParent .int thenType = true ∧
              session.catalog.isParent .int elseType = true ∨
            plain.config.lastChance = true ∧
              ∃ visited first last,
                Returns plain.visitRoots (start mutualChoice .builtin ()) () visited ∧
                plain.MakesPass visited first last ∧ first.lastChance = true ∧
                first.facts.nodeType? 5 = none ∧ last.facts.nodeType? 5 = some .int ∧
                (.int = thenType ∧ first.facts.nodeType? 8 = none ∨
                  .int = elseType ∧ first.facts.optionalType? (some 7) = none)) := by
  have keyed : mutualChoice.Keyed := ⟨by decide, by decide⟩
  obtain ⟨session, success, present, known⟩ := mutualChoice_infers
  have joined := branches_join_unless_lastChance plain_declines keyed success present rfl known
  exact ⟨plain_declines, keyed, session, success, known, joined⟩

/-- The choice is typed by the number, and the call turns out to be a string. -/
theorem mutualChoice_refuses_its_alternative :
    plain.expander.Declines ∧ mutualChoice.Keyed ∧
      ∃ session, Returns plain.inferTypes (start mutualChoice .builtin ()) () session ∧
        session.facts.arena.find? 5 = some { id := 5, parent := some 3, location := {},
                                             kind := .ifElse 6 (some 7) (some 8) } ∧
        session.facts.nodeType? 5 = some .int ∧
        session.facts.nodeType? 8 = some (.object stringName) ∧
        session.catalog.isParent .int (.object stringName) = false := by
  have keyed : mutualChoice.Keyed := ⟨by decide, by decide⟩
  exact ⟨plain_declines, keyed, (plain.inferTypes.run (start mutualChoice .builtin ())).2,
    returns_of_isOk (by decide +kernel), by decide +kernel, by decide +kernel,
    by decide +kernel, by decide +kernel⟩

end Typer

end DeferredTyping
