import Mathlib.Logic.Relation
import DeferredTyping.Proofs.Breakages
import DeferredTyping.Proofs.Run

/-!
# What a rule does by itself

Between its visits to other nodes a rule looks at what is known, learns a few
facts and may fail.  `Facts.Adds` lists every way in which it adds a fact, each
with what holds when it does so; `Facts.Learns` has one more, filling the
return slot of a signature, which may hold a declared type by then.

A `ReadStep` only looks, and a `FactStep` changes the facts in given ways: an
`AddStep` adds facts and stops for ordinary faults alone, an `OwnStep` learns.
All of them change nothing but the facts, never run out of fuel and do not look
at the worklist.
-/

namespace DeferredTyping

variable {σ α β : Type}

/-- One fact is added.  Types of nodes and of lists of parameters are not
among them: those are what visiting a node leaves behind. -/
inductive Facts.Adds (scriptClass : String) (catalog : Catalog) :
    Facts → Facts → Prop where
  | definingClass {facts : Facts} {id : NodeId} {lexical : Ty} :
      facts.definingClasses.get? id = none →
      facts.arena.lexicalClass scriptClass id = .ok lexical →
      Adds scriptClass catalog facts { facts with
        definingClasses := facts.definingClasses.insert id lexical }
  | signature {facts : Facts} {id : NodeId} {declared : DeclaredSignature}
      {signature : Signature} :
      facts.signature? id = none →
      catalog.resolveSignature declared = .ok signature →
      Adds scriptClass catalog facts { facts with
        signatures := facts.signatures.insert id signature }
  | local {facts : Facts} {scope : NodeId} {name : String} {ty : Ty} :
      facts.scopes.own? (facts.scopes.owner facts.arena scope name) name = none →
      Adds scriptClass catalog facts { facts with
        scopes := facts.scopes.bind
          (facts.scopes.owner facts.arena scope name) name ty }
  | method {facts : Facts} {method : MethodType} {methods : MethodTable} :
      facts.methods.learn method = .ok methods →
      Adds scriptClass catalog facts { facts with methods }
  | delegateTarget {facts : Facts} {id : NodeId} {lexical : Ty}
      {types : List Ty} {target : MethodType} :
      facts.delegateTargets.contains id = false →
      Members.findConstructor { catalog, methods := facts.methods } lexical types
        = .ok (some target) →
      Adds scriptClass catalog facts { facts with
        delegateTargets := facts.delegateTargets.insert id target }

/-- One fact is learned: it is added, or a return slot is filled. -/
inductive Facts.Learns (scriptClass : String) (catalog : Catalog) :
    Facts → Facts → Prop where
  | adds {before after : Facts} :
      Facts.Adds scriptClass catalog before after →
      Learns scriptClass catalog before after
  | returnType {facts : Facts} {id : NodeId} {ty : Ty} :
      Learns scriptClass catalog facts { facts with
        signatures := facts.signatures.setReturnType id ty }

/-- Facts are added one after another. -/
abbrev Facts.Added (scriptClass : String) (catalog : Catalog) :
    Facts → Facts → Prop :=
  Relation.ReflTransGen (Facts.Adds scriptClass catalog)

/-- Facts are learned one after another. -/
abbrev Facts.Learned (scriptClass : String) (catalog : Catalog) :
    Facts → Facts → Prop :=
  Relation.ReflTransGen (Facts.Learns scriptClass catalog)

theorem Facts.Added.learned {scriptClass : String} {catalog : Catalog}
    {before after : Facts} (added : Facts.Added scriptClass catalog before after) :
    Facts.Learned scriptClass catalog before after :=
  Relation.ReflTransGen.mono (fun _ _ step => Facts.Learns.adds step) _ _ added

/-- The tree and what visiting its nodes left behind are the same. -/
structure Facts.SameNodes (before after : Facts) : Prop where
  arena : after.arena = before.arena
  nodeTypes : after.nodeTypes = before.nodeTypes
  argumentTypes : after.argumentTypes = before.argumentTypes
  expansions : after.expansions = before.expansions

theorem Facts.SameNodes.nodeType?_eq
    {before after : Facts} (same : before.SameNodes after) :
    after.nodeType? = before.nodeType? := by
  funext id
  rw [Facts.nodeType?, same.nodeTypes]
  rfl

theorem Facts.Learns.sameNodes {scriptClass : String} {catalog : Catalog}
    {before after : Facts} (learns : Facts.Learns scriptClass catalog before after) :
    before.SameNodes after := by
  cases learns with
  | adds added => cases added <;> exact ⟨rfl, rfl, rfl, rfl⟩
  | returnType => exact ⟨rfl, rfl, rfl, rfl⟩

theorem Facts.Learned.sameNodes {scriptClass : String} {catalog : Catalog}
    {before after : Facts} (learned : Facts.Learned scriptClass catalog before after) :
    before.SameNodes after := by
  induction learned with
  | refl => exact ⟨rfl, rfl, rfl, rfl⟩
  | tail _ last ih =>
      have step := last.sameNodes
      constructor
      · exact step.arena.trans ih.arena
      · exact step.nodeTypes.trans ih.nodeTypes
      · exact step.argumentTypes.trans ih.argumentTypes
      · exact step.expansions.trans ih.expansions

/-- Two sessions that differ in their worklists and pass counters at most. -/
structure Session.Alike (left right : Session σ) : Prop where
  facts : left.facts = right.facts
  catalog : left.catalog = right.catalog
  declaredConstructors : left.declaredConstructors = right.declaredConstructors
  lastChance : left.lastChance = right.lastChance
  expanderState : left.expanderState = right.expanderState

namespace Session.Alike

theorem refl (session : Session σ) : session.Alike session :=
  ⟨rfl, rfl, rfl, rfl, rfl⟩

theorem symm {left right : Session σ} (alike : left.Alike right) :
    right.Alike left where
  facts := alike.facts.symm
  catalog := alike.catalog.symm
  declaredConstructors := alike.declaredConstructors.symm
  lastChance := alike.lastChance.symm
  expanderState := alike.expanderState.symm

theorem trans {first second third : Session σ} (early : first.Alike second)
    (late : second.Alike third) : first.Alike third where
  facts := early.facts.trans late.facts
  catalog := early.catalog.trans late.catalog
  declaredConstructors :=
    early.declaredConstructors.trans late.declaredConstructors
  lastChance := early.lastChance.trans late.lastChance
  expanderState := early.expanderState.trans late.expanderState

theorem modifyFacts {left right : Session σ} (alike : left.Alike right)
    (change : Facts → Facts) :
    ({ left with facts := change left.facts } : Session σ).Alike
      { right with facts := change right.facts } :=
  { alike with facts := congrArg change alike.facts }

theorem defer {left right : Session σ} (alike : left.Alike right) (id : NodeId) :
    ({ left with worklist := left.worklist.push id } : Session σ).Alike
      { right with worklist := right.worklist.push id } :=
  { alike with }

end Session.Alike

/-- Giving up is the driver's: no rule decides that a program cannot be
typed. -/
def TypeError.givesUp : TypeError → Bool
  | .cannotInfer _ | .passLimitExceeded _ => true
  | _ => false

/-- The step ended for something that is wrong with the typed program. -/
def Stop.isFault : Stop → Bool
  | .failed error => !error.givesUp
  | .exhausted => false

/-- The step ended for an ordinary fault. -/
def Stop.isOrdinary : Stop → Bool
  | .failed error => error.isOrdinary
  | .exhausted => false

theorem Stop.isFault_of_isOrdinary {stop : Stop} (ordinary : stop.isOrdinary = true) :
    stop.isFault = true := by
  cases stop with
  | exhausted => cases ordinary
  | failed error =>
      cases error with
      | cannotInfer _ | passLimitExceeded _ => cases ordinary
      | _ => rfl

/-- A step that takes no notice of the worklist. -/
def Infer.Blind (step : Infer σ α) : Prop :=
  ∀ ⦃left right : Session σ⦄, left.Alike right →
    (step.run left).1 = (step.run right).1 ∧
      (step.run left).2.Alike (step.run right).2

/-- A step that stops for ordinary faults alone and that takes no notice of the
worklist. -/
structure BlindStep (step : Infer σ α) : Prop where
  ordinary : ∀ {session : Session σ} {stop : Stop},
    (step.run session).1 = .error stop → stop.isOrdinary = true
  blind : Infer.Blind step

/-- A step that only looks at the session. -/
structure ReadStep (step : Infer σ α) : Prop extends BlindStep step where
  keeps : ∀ session : Session σ, (step.run session).2 = session

/-- A step that visits no node: it changes the facts in given ways, one after
another, and stops for accepted reasons. -/
structure FactStep (setting : Setting σ) (accepts : Stop → Prop)
    (changes : String → Catalog → Facts → Facts → Prop) (step : Infer σ α) :
    Prop where
  answers : ∀ {session : Session σ} {stop : Stop},
    (step.run session).1 = .error stop → accepts stop
  blind : Infer.Blind step
  learns : ∀ session : Session σ, ∃ facts,
    Relation.ReflTransGen (changes setting.scriptClass session.catalog)
        session.facts facts ∧
      (step.run session).2 = { session with facts }

/-- A step that visits no node and adds facts. -/
abbrev AddStep (setting : Setting σ) (step : Infer σ α) : Prop :=
  FactStep setting (fun stop => stop.isOrdinary = true) Facts.Adds step

/-- A step that visits no node. -/
abbrev OwnStep (setting : Setting σ) (step : Infer σ α) : Prop :=
  FactStep setting (fun stop => stop.isFault = true) Facts.Learns step

open Infer

/-- The lengths that publishing a method compares. -/
theorem ArgumentLayout.length_typed (arguments : ArgumentList NodeId) :
    arguments.typed.length = (ArgumentLayout.ofArguments arguments).positional +
      (if (ArgumentLayout.ofArguments arguments).rest then 1 else 0) := by
  cases rest : arguments.rest with
  | none => simp [ArgumentList.typed, ofArguments, positional, rest]
  | some id => simp [ArgumentList.typed, ofArguments, positional, rest]; omega

/-- When a step stops for accepted reasons, and so does the next one, then both
together do. -/
private theorem stops_of_bind {accepts : Stop → Prop} {step : Infer σ α}
    {next : α → Infer σ β}
    (first : ∀ {session : Session σ} {stop : Stop},
      (step.run session).1 = .error stop → accepts stop)
    (second : ∀ value {session : Session σ} {stop : Stop},
      ((next value).run session).1 = .error stop → accepts stop)
    {session : Session σ} {stop : Stop}
    (stopped : ((step >>= next).run session).1 = .error stop) :
    accepts stop := by
  have answered := @first session stop
  rw [run_bind] at stopped
  rcases run : step.run session with ⟨answer, middle⟩
  rw [run] at answered stopped
  cases answer with
  | error cause =>
      cases stopped
      exact answered rfl
  | ok value => exact second value stopped

protected theorem Infer.Blind.bind {step : Infer σ α} {next : α → Infer σ β}
    (first : Blind step) (second : ∀ value, Blind (next value)) :
    Blind (step >>= next) := by
  intro left right alike
  have same := first alike
  rw [run_bind, run_bind]
  rcases leftRun : step.run left with ⟨answer, leftMiddle⟩
  rcases rightRun : step.run right with ⟨other, rightMiddle⟩
  rw [leftRun, rightRun] at same
  obtain ⟨sameAnswer, sameMiddle⟩ := same
  cases sameAnswer
  cases answer with
  | error stop => exact ⟨rfl, sameMiddle⟩
  | ok value => exact second value sameMiddle

namespace BlindStep

protected theorem pure (value : α) : BlindStep (pure value : Infer σ α) where
  ordinary stopped := by simp at stopped
  blind _ _ alike := ⟨rfl, alike⟩

protected theorem fail {error : TypeError} (ordinary : error.isOrdinary = true) :
    BlindStep (fail error : Infer σ α) where
  ordinary := by
    rintro session stop ⟨⟩
    exact ordinary
  blind _ _ alike := ⟨rfl, alike⟩

protected theorem ofTree {answer : Except Breakage α} (blames : BlamesTree answer) :
    BlindStep (ofTree answer : Infer σ α) := by
  cases answer with
  | ok value => exact BlindStep.pure value
  | error cause => exact BlindStep.fail (blames rfl)

protected theorem bind {step : Infer σ α} {next : α → Infer σ β}
    (first : BlindStep step) (second : ∀ value, BlindStep (next value)) :
    BlindStep (step >>= next) where
  ordinary := stops_of_bind first.ordinary fun value => (second value).ordinary
  blind := first.blind.bind fun value => (second value).blind

/-- Looking at the session, its worklist and pass counter aside. -/
protected theorem read {next : Session σ → Infer σ α}
    (indifferent : ∀ {left right}, left.Alike right → next left = next right)
    (later : ∀ session, BlindStep (next session)) :
    BlindStep (get >>= next) where
  ordinary {session _} stopped := (later session).ordinary stopped
  blind left right alike := by
    have same := (later left).blind alike
    rw [run_bind, run_bind]
    simp only [run_get]
    rw [← indifferent alike]
    exact same

theorem modifyFacts (change : Facts → Facts) :
    BlindStep (modifyFacts change : Infer σ Unit) where
  ordinary stopped := by simp at stopped
  blind _ _ alike := ⟨rfl, alike.modifyFacts change⟩

theorem getFacts : BlindStep (getFacts : Infer σ Facts) :=
  .read (fun alike => by rw [alike.facts]) fun _ => .pure _

end BlindStep

namespace ReadStep

variable {setting : Setting σ}

/-- Looking is a way of adding nothing. -/
theorem add {step : Infer σ α} (reads : ReadStep step) : AddStep setting step where
  answers := reads.ordinary
  blind := reads.blind
  learns session := ⟨session.facts, .refl, reads.keeps session⟩

protected theorem pure (value : α) : ReadStep (pure value : Infer σ α) where
  toBlindStep := .pure value
  keeps _ := rfl

protected theorem fail {error : TypeError} (ordinary : error.isOrdinary = true) :
    ReadStep (fail error : Infer σ α) where
  toBlindStep := .fail ordinary
  keeps _ := rfl

protected theorem ofTree {answer : Except Breakage α} (blames : BlamesTree answer) :
    ReadStep (ofTree answer : Infer σ α) := by
  cases answer with
  | ok value => exact ReadStep.pure value
  | error cause => exact ReadStep.fail (blames rfl)

protected theorem bind {step : Infer σ α} {next : α → Infer σ β}
    (first : ReadStep step) (second : ∀ value, ReadStep (next value)) :
    ReadStep (step >>= next) where
  toBlindStep := first.toBlindStep.bind fun value => (second value).toBlindStep
  keeps session := by
    have kept := first.keeps session
    rw [run_bind]
    rcases run : step.run session with ⟨answer, middle⟩
    rw [run] at kept
    cases kept
    cases answer with
    | error stop => rfl
    | ok value => exact (second value).keeps _

protected theorem read {next : Session σ → Infer σ α}
    (indifferent : ∀ {left right}, left.Alike right → next left = next right)
    (later : ∀ session, ReadStep (next session)) :
    ReadStep (get >>= next) where
  toBlindStep := .read indifferent fun session => (later session).toBlindStep
  keeps session := (later session).keeps session

theorem getFacts : ReadStep (getFacts : Infer σ Facts) :=
  .read (fun alike => by rw [alike.facts]) fun _ => .pure _

theorem getArena : ReadStep (getArena : Infer σ Arena) :=
  .read (fun alike => by rw [alike.facts]) fun _ => .pure _

theorem locationOf (id : NodeId) :
    ReadStep (locationOf id : Infer σ Location) :=
  getArena.bind fun arena =>
    (ReadStep.ofTree (arena.require_blamesTree id)).bind fun _ => .pure _

theorem isParent (expected given : Ty) :
    ReadStep (isParent expected given : Infer σ Bool) :=
  .read (fun alike => by rw [alike.catalog]) fun _ => .pure _

theorem getMembers : ReadStep (getMembers : Infer σ Members) :=
  .read (fun alike => by rw [alike.catalog, alike.facts]) fun _ => .pure _

theorem ofLookup (name : String) (arguments : List Ty) (location : Location)
    (answer : LookupResult) :
    ReadStep (ofLookup name arguments location answer : Infer σ _) := by
  cases answer with
  | ok method? => exact ReadStep.pure method?
  | error definingClass => exact ReadStep.fail rfl

theorem findMethod (receiver : Ty) (name : String) (arguments : List Ty)
    (location : Location) :
    ReadStep (findMethod receiver name arguments location : Infer σ _) :=
  getMembers.bind fun _ => ofLookup _ _ _ _

theorem findConstructor (definingClass : Ty) (arguments : List Ty)
    (location : Location) :
    ReadStep (findConstructor definingClass arguments location : Infer σ _) :=
  getMembers.bind fun _ => ofLookup _ _ _ _

theorem localRead (id : NodeId) (name : String) :
    ReadStep (localRead id name : Infer σ _) :=
  getArena.bind fun arena =>
    (ReadStep.ofTree (arena.scopeOf_blamesTree id)).bind fun _ =>
    getFacts.bind fun _ => .pure _

theorem instantiation (id : NodeId) (instanceType : Ty) (parameters : List Ty) :
    ReadStep (instantiation id instanceType parameters : Infer σ _) := by
  refine (locationOf id).bind fun location =>
    (findConstructor _ _ _).bind fun found => ?_
  cases found with
  | some constructor => exact ReadStep.pure _
  | none =>
      refine .read (fun alike => by rw [alike.declaredConstructors]) ?_
      intro session
      dsimp only
      split
      · exact ReadStep.pure _
      · exact ReadStep.pure _

end ReadStep

namespace FactStep

variable {setting : Setting σ} {accepts : Stop → Prop}
  {changes : String → Catalog → Facts → Facts → Prop}

theorem mono {step : Infer σ α} {wider : Stop → Prop}
    {more : String → Catalog → Facts → Facts → Prop}
    (known : FactStep setting accepts changes step)
    (included : ∀ {stop}, accepts stop → wider stop)
    (extended : ∀ {scriptClass catalog before after},
      changes scriptClass catalog before after → more scriptClass catalog before after) :
    FactStep setting wider more step where
  answers stopped := included (known.answers stopped)
  blind := known.blind
  learns session := by
    obtain ⟨facts, changed, ended⟩ := known.learns session
    exact ⟨facts, Relation.ReflTransGen.mono (fun _ _ step => extended step) _ _ changed, ended⟩

/-- Looking is a way of changing nothing. -/
theorem ofRead {step : Infer σ α} (reads : ReadStep step)
    (included : ∀ {stop : Stop}, stop.isOrdinary = true → accepts stop) :
    FactStep setting accepts changes step where
  answers stopped := included (reads.ordinary stopped)
  blind := reads.blind
  learns session := ⟨session.facts, .refl, reads.keeps session⟩

protected theorem fail {error : TypeError} (stops : accepts (.failed error)) :
    FactStep setting accepts changes (fail error : Infer σ α) where
  answers := by
    rintro session stop ⟨⟩
    exact stops
  blind _ _ alike := ⟨rfl, alike⟩
  learns session := ⟨session.facts, .refl, rfl⟩

protected theorem bind {step : Infer σ α} {next : α → Infer σ β}
    (first : FactStep setting accepts changes step)
    (second : ∀ value, FactStep setting accepts changes (next value)) :
    FactStep setting accepts changes (step >>= next) where
  answers := stops_of_bind first.answers fun value => (second value).answers
  blind := first.blind.bind fun value => (second value).blind
  learns session := by
    obtain ⟨facts, learned, ended⟩ := first.learns session
    rw [run_bind]
    rcases run : step.run session with ⟨answer, middle⟩
    rw [run] at ended
    cases ended
    cases answer with
    | error stop => exact ⟨facts, learned, rfl⟩
    | ok value =>
        obtain ⟨later, more, finished⟩ :=
          (second value).learns { session with facts }
        exact ⟨later, learned.trans more, finished⟩

end FactStep

namespace AddStep

variable {setting : Setting σ}

theorem ofBlind {step : Infer σ α} (blind : BlindStep step)
    (adds : ∀ session : Session σ, ∃ facts,
      Facts.Added setting.scriptClass session.catalog session.facts facts ∧
        (step.run session).2 = { session with facts }) :
    AddStep setting step :=
  ⟨blind.ordinary, blind.blind, adds⟩

theorem toBlindStep {step : Infer σ α} (adds : AddStep setting step) : BlindStep step :=
  ⟨adds.answers, adds.blind⟩

/-- Adding is a way of learning. -/
theorem own {step : Infer σ α} (adds : AddStep setting step) : OwnStep setting step :=
  adds.mono Stop.isFault_of_isOrdinary .adds

protected theorem pure (value : α) : AddStep setting (pure value) :=
  (ReadStep.pure value).add

protected theorem fail {error : TypeError} (ordinary : error.isOrdinary = true) :
    AddStep setting (fail error : Infer σ α) :=
  (ReadStep.fail ordinary).add

/-- A step that looks comes first. -/
protected theorem after {step : Infer σ α} {next : α → Infer σ β}
    (first : ReadStep step) (second : ∀ value, AddStep setting (next value)) :
    AddStep setting (step >>= next) :=
  first.add.bind second

/-- The tree answers first, or refuses to. -/
theorem ofTree_bind {answer : Except Breakage α} {next : α → Infer σ β}
    (blames : BlamesTree answer)
    (second : ∀ value, answer = .ok value → AddStep setting (next value)) :
    AddStep setting (ofTree answer >>= next) := by
  cases answer with
  | ok value => exact second value rfl
  | error cause => exact AddStep.fail (blames rfl)

theorem learnMethod (method : MethodType) (location : Location) :
    AddStep setting (learnMethod method location) := by
  apply ofBlind
  · refine BlindStep.getFacts.bind fun facts => ?_
    cases facts.methods.learn method with
    | error existing => exact .fail rfl
    | ok methods => exact (BlindStep.modifyFacts _).bind fun _ => .pure _
  · intro session
    cases learned : session.facts.methods.learn method with
    | error existing =>
        refine ⟨session.facts, .refl, ?_⟩
        simp [Infer.learnMethod, run_bind, learned]
    | ok methods =>
        refine ⟨_, .single (.method learned), ?_⟩
        simp [Infer.learnMethod, run_bind, run_map, learned]

theorem learnLocal (scope : NodeId) (name : String) (ty : Ty)
    (location : Location) :
    AddStep setting (learnLocal scope name ty location) := by
  apply ofBlind
  · refine .read (fun alike => by rw [alike.facts, alike.catalog]) ?_
    intro session
    dsimp only
    split
    · split
      · exact .pure _
      · exact .fail rfl
    · exact (BlindStep.modifyFacts _).bind fun _ => .pure _
  · intro session
    cases bound : session.facts.scopes.own?
        (session.facts.scopes.owner session.facts.arena scope name) name with
    | some existing =>
        refine ⟨session.facts, .refl, ?_⟩
        simp only [Infer.learnLocal, run_bind, run_get, bound]
        split <;> rfl
    | none =>
        have learned : Facts.Adds setting.scriptClass session.catalog
            session.facts { session.facts with
              scopes := session.facts.scopes.bind
                (session.facts.scopes.owner session.facts.arena scope name)
                name ty } := .local bound
        refine ⟨_, .single learned, ?_⟩
        simp [Infer.learnLocal, run_bind, run_map, bound]

theorem bindDefiningClass (id : NodeId) :
    AddStep setting (bindDefiningClass setting id) := by
  apply ofBlind
  · refine BlindStep.getFacts.bind fun facts => ?_
    cases facts.definingClasses.get? id with
    | some lexical => exact .pure _
    | none =>
        exact (BlindStep.ofTree (facts.arena.lexicalClass_blamesTree _ id)).bind fun _ =>
          (BlindStep.modifyFacts _).bind fun _ => .pure _
  · intro session
    cases known : session.facts.definingClasses.get? id with
    | some lexical =>
        refine ⟨session.facts, .refl, ?_⟩
        simp [Infer.bindDefiningClass, run_bind, known]
    | none =>
        cases stands :
            session.facts.arena.lexicalClass setting.scriptClass id with
        | error cause =>
            refine ⟨session.facts, .refl, ?_⟩
            simp [Infer.bindDefiningClass, run_bind, known, stands]
        | ok lexical =>
            refine ⟨_, .single (.definingClass known stands), ?_⟩
            simp [Infer.bindDefiningClass, run_bind, run_map, known, stands]

/-- The steps of a list are taken one after another. -/
theorem learnEach (location : Location) (methods : List MethodType) :
    AddStep setting (learnEach location methods) := by
  induction methods with
  | nil => exact AddStep.pure ()
  | cons method rest ih => exact (learnMethod method location).bind fun _ => ih

/-- The parameter types of a method are as many as its parameters. -/
theorem learnOverloads {layout : ArgumentLayout} {method : MethodType}
    (fits : method.parameters.length = layout.positional + (if layout.rest then 1 else 0))
    (location : Location) :
    AddStep setting (learnOverloads layout method location) := by
  rw [Infer.learnOverloads, if_pos fits]
  exact learnEach location _

theorem registerDeclared (id : NodeId) (method : Method NodeId)
    (signature : Signature) (location : Location) :
    AddStep setting (registerDeclared setting id method signature location) := by
  unfold Infer.registerDeclared
  cases declaredReturn? signature method with
  | none => exact AddStep.pure ()
  | some returnType =>
      refine .after .getArena fun arena =>
        ofTree_bind (arena.argumentsOf_blamesTree _) fun arguments _ =>
        .after .getArena fun arena =>
        ofTree_bind (arena.argumentNames_blamesTree arguments) fun names named => ?_
      cases typed : names.mapM signature.parameter? with
      | none => exact AddStep.pure ()
      | some parameters =>
          refine (bindDefiningClass id).bind fun lexical => learnOverloads ?_ location
          have counted : parameters.length = arguments.typed.length :=
            (length_of_mapM_some typed).trans (length_of_mapM_ok named)
          exact counted.trans (ArgumentLayout.length_typed arguments)

theorem signatureOf (id : NodeId) (method : Method NodeId) :
    AddStep setting (signatureOf setting id method) := by
  apply ofBlind
  · refine BlindStep.getFacts.bind fun facts => ?_
    cases facts.signature? id with
    | some signature => exact .pure _
    | none =>
        refine (ReadStep.locationOf id).toBlindStep.bind fun location => ?_
        refine .read (fun alike => by rw [alike.catalog]) fun session => ?_
        cases session.catalog.resolveSignature method.declared with
        | error name => exact .fail rfl
        | ok signature =>
            have registers : AddStep setting
                (Infer.registerDeclared setting id method signature location) :=
              registerDeclared id method signature location
            exact (BlindStep.modifyFacts _).bind fun _ =>
              registers.toBlindStep.bind fun _ => .pure _
  · intro session
    cases known : session.facts.signature? id with
    | some signature =>
        refine ⟨session.facts, .refl, ?_⟩
        simp [Infer.signatureOf, run_bind, known]
    | none =>
        cases found : session.facts.arena.require id with
        | error cause =>
            refine ⟨session.facts, .refl, ?_⟩
            simp [Infer.signatureOf, Infer.locationOf, run_bind, known, found]
        | ok node =>
            cases resolved : session.catalog.resolveSignature method.declared with
            | error name =>
                refine ⟨session.facts, .refl, ?_⟩
                simp [Infer.signatureOf, Infer.locationOf, run_bind, known,
                  found, resolved]
            | ok signature =>
                have published :
                    AddStep setting (do
                      Infer.registerDeclared setting id method signature
                        node.location
                      return signature) :=
                  (registerDeclared id method signature node.location).bind
                    fun _ => AddStep.pure _
                obtain ⟨facts, learned, ended⟩ := published.learns
                  { session with facts := { session.facts with
                      signatures := session.facts.signatures.insert id signature } }
                refine ⟨facts, .head (.signature known resolved) learned, ?_⟩
                simpa [Infer.signatureOf, Infer.locationOf, run_bind, known,
                  found, resolved] using ended

theorem declaredType? (argument : NodeId) (name : String) :
    AddStep setting (declaredType? setting argument name) := by
  refine .after .getArena fun arena =>
    .after (.ofTree (arena.owningMethod?_blamesTree argument)) fun owner => ?_
  cases owner with
  | none => exact AddStep.pure _
  | some owner =>
      exact (signatureOf owner.1 owner.2).bind fun _ => AddStep.pure _

theorem bindDelegateTarget (id : NodeId) (method : Method NodeId) (lexical : Ty)
    (location : Location) :
    AddStep setting (bindDelegateTarget id method lexical location) := by
  unfold Infer.bindDelegateTarget
  cases method.thisArgs with
  | none => exact AddStep.pure _
  | some thisArgs =>
      apply ofBlind
      · refine BlindStep.getFacts.bind fun facts => ?_
        split
        · exact .pure _
        · cases thisArgs.mapM facts.nodeType? with
          | none => exact .pure _
          | some types =>
              refine (ReadStep.findConstructor _ _ _).toBlindStep.bind
                fun target => ?_
              cases target with
              | none => exact .pure _
              | some target =>
                  exact (BlindStep.modifyFacts _).bind fun _ => .pure _
      · intro session
        cases bound : session.facts.delegateTargets.contains id with
        | true =>
            refine ⟨session.facts, .refl, ?_⟩
            simp [run_bind, bound]
        | false =>
            cases known : thisArgs.mapM session.facts.nodeType? with
            | none =>
                refine ⟨session.facts, .refl, ?_⟩
                simp [run_bind, bound, known]
            | some types =>
                rcases found : session.members.findConstructor lexical types with
                  definingClass | _ | target
                · refine ⟨session.facts, .refl, ?_⟩
                  simp [run_bind, bound, known, run_findConstructor, found]
                · refine ⟨session.facts, .refl, ?_⟩
                  simp [run_bind, bound, known, run_findConstructor, found]
                · refine ⟨_, .single (.delegateTarget bound found), ?_⟩
                  simp [run_bind, run_map, bound, known, run_findConstructor, found]

theorem delegateBound (id : NodeId) (method : Method NodeId) (lexical : Ty)
    (location : Location) :
    AddStep setting (delegateBound id method lexical location) := by
  unfold Infer.delegateBound
  split
  · exact bindDelegateTarget id method lexical location
  · exact AddStep.pure _

end AddStep

namespace Infer

/-- A method as its definition publishes it. -/
def publishedMethod (method : Method NodeId) (lexical : Ty) (signature : Signature)
    (parameters : List Ty) (bodyType : Ty) (list : ArgumentList NodeId) : MethodType where
  definingClass := if method.isStatic then lexical.toMeta else lexical
  name := method.name
  parameters
  returnType := if method.isConstructor then .void
    else effectiveReturn signature.returnType bodyType
  throws := signature.throws
  varargs := list.rest.isSome

/-- Learns a published method for each way of calling it. -/
def learnPublished (method : Method NodeId) (lexical : Ty) (signature : Signature)
    (parameters : List Ty) (bodyType : Ty) (location : Location) : Infer σ Unit := do
  let list ← ofTree ((← getArena).argumentsOf method.arguments)
  learnOverloads (.ofArguments list)
    (publishedMethod method lexical signature parameters bodyType list) location

/-- What publishing a method does before it fills the return slot. -/
def announce (id : NodeId) (method : Method NodeId) (lexical : Ty)
    (signature : Signature) (parameters : List Ty) (bodyType : Ty)
    (location : Location) : Infer σ Unit := do
  let returnType := effectiveReturn signature.returnType bodyType
  if checksBody signature.returnType ((← getArena).isAbstract id) then
    unless ← isParent returnType bodyType do
      fail (.mismatch returnType bodyType (.methodReturn method.name) location)
  learnPublished method lexical signature parameters bodyType location

/-- Fills the return slot of a method, which is then the answer. -/
def fillReturn (id : NodeId) (returnType : Ty) : Infer σ Ty := do
  modifyFacts fun facts =>
    { facts with signatures := facts.signatures.setReturnType id returnType }
  return returnType

theorem publish_eq (id : NodeId) (method : Method NodeId) (lexical : Ty)
    (signature : Signature) (parameters : List Ty) (bodyType : Ty)
    (location : Location) :
    (publish id method lexical signature parameters bodyType location : Infer σ Ty) =
      announce id method lexical signature parameters bodyType location >>= fun _ =>
        fillReturn id (effectiveReturn signature.returnType bodyType) := by
  unfold publish announce fillReturn learnPublished publishedMethod
  simp only [bind_assoc]
  refine bind_congr fun arena => ?_
  split
  · simp only [bind_assoc]
    refine bind_congr fun accepted => ?_
    split
    · simp only [bind_assoc]
    · simp only [bind_assoc]
  · simp only [bind_assoc]

end Infer

section Announcing

variable {setting : Setting σ}

private theorem faulty_read {step : Infer σ α} (reads : ReadStep step) :
    FactStep setting (fun stop => stop.isFault = true) Facts.Adds step :=
  .ofRead reads Stop.isFault_of_isOrdinary

theorem learnOverloads_adds (layout : ArgumentLayout) (method : MethodType)
    (location : Location) :
    FactStep setting (fun stop => stop.isFault = true) Facts.Adds
      (learnOverloads layout method location) := by
  by_cases fits : method.parameters.length
      = layout.positional + (if layout.rest then 1 else 0)
  · exact (AddStep.learnOverloads fits location).mono Stop.isFault_of_isOrdinary
      fun added => added
  · rw [learnOverloads, if_neg fits]
    exact .fail rfl

/-- A method that is announced adds overloads to the method table.  This is the
one step that may find another number of types than of parameters. -/
theorem announce_adds (id : NodeId) (method : Method NodeId)
    (lexical : Ty) (signature : Signature) (parameters : List Ty) (bodyType : Ty)
    (location : Location) :
    FactStep setting (fun stop => stop.isFault = true) Facts.Adds
      (announce id method lexical signature parameters bodyType location) := by
  have announced : FactStep setting (fun stop => stop.isFault = true) Facts.Adds
      (learnPublished method lexical signature parameters bodyType location) :=
    (faulty_read .getArena).bind fun arena =>
      (faulty_read (.ofTree (arena.argumentsOf_blamesTree _))).bind fun _ =>
        learnOverloads_adds _ _ _
  refine (faulty_read .getArena).bind fun arena => ?_
  dsimp only
  split
  · refine (faulty_read (.isParent _ _)).bind fun accepted => ?_
    cases accepted with
    | false =>
        refine FactStep.bind (FactStep.fail ?_) fun _ => announced
        rfl
    | true => exact announced
  · exact announced

theorem OwnStep.fillReturn (id : NodeId) (returnType : Ty) :
    OwnStep setting (fillReturn id returnType) := by
  refine FactStep.bind ?_ fun _ => (AddStep.pure _).own
  exact ⟨fun stopped => by simp at stopped, (BlindStep.modifyFacts _).blind,
    fun session => ⟨_, .single .returnType, rfl⟩⟩

end Announcing

end DeferredTyping
