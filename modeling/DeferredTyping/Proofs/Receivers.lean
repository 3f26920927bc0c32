import DeferredTyping.Proofs.Frames
import DeferredTyping.Proofs.Overloads
import DeferredTyping.Proofs.Standing
import DeferredTyping.Proofs.TreeChanges

/-!
# Where calls look for methods

A method definition is bound to the class around it once, and its method types are learned
under that class.  A call without a receiver goes to `self`, whose type is read off the tree
at the call.  The two agree for as long as expanders edit the tree and do nothing else to it:
a call below a method definition looks under the class that the method is learned under,
unless a class, an interface, a script or a static method stands in between.
-/

namespace DeferredTyping

variable {σ : Type}

open Infer

/-- Bound method definitions stand in the classes that they are bound to. -/
def Facts.ClassesHold (scriptClass : String) (facts : Facts) : Prop :=
  ∀ ⦃id lexical⦄, facts.definingClasses.get? id = some lexical →
    facts.arena.lexicalClass scriptClass id = .ok lexical

/-- Nodes keep their standing, and method definitions stay in their classes. -/
structure Facts.KeepsClasses (scriptClass : String) (before after : Facts) : Prop where
  standing : before.arena.KeepsStanding after.arena
  classes : before.ClassesHold scriptClass → after.ClassesHold scriptClass

theorem Facts.keepsClasses_of_keepsStanding {scriptClass : String} {facts : Facts} {arena : Arena}
    (keeps : facts.arena.KeepsStanding arena) :
    facts.KeepsClasses scriptClass { facts with arena } where
  standing := keeps
  classes hold _ _ bound := keeps.lexicalClass (hold bound)

namespace Infer

/-- Binding a method definition reads its class off the tree, and edits do not change what is
read there. -/
theorem tracksTree_keepsClasses
    {setting : Setting σ} (edits : setting.expander.Edits) :
    TracksTree setting (Facts.KeepsClasses setting.scriptClass) where
  trans _ _ _ early late :=
    ⟨early.standing.trans late.standing, fun hold => late.classes (early.classes hold)⟩
  calm {before after} arena classes := by
    refine ⟨arena ▸ .refl _, fun hold id lexical bound => ?_⟩
    rw [arena]
    exact hold (classes ▸ bound)
  binds {facts id lexical} _ stands := by
    refine ⟨.refl _, fun hold other known bound => ?_⟩
    rcases Table.get?_insert_eq_some bound with ⟨rfl, rfl⟩ | ⟨_, before⟩
    · exact stands
    · exact hold before
  offers asked := Facts.keepsClasses_of_keepsStanding (edits asked).keepsStanding
  splices asked replaced := Facts.keepsClasses_of_keepsStanding <|
    (edits asked).keepsStanding.trans (.replaceChild replaced)

/-- An unqualified call on a receiver that is known. -/
def callOn (setting : Setting σ) (infer : NodeId → Infer σ (Option Ty)) (id : NodeId)
    (receiver : Ty) (name : String) (parameters : List NodeId) (closure : Option NodeId) :
    Infer σ (Option Ty) := do
  let parameterTypes ← all infer parameters
  let ready ← blockReady infer closure
  match parameterTypes, ready with
  | some parameterTypes, true => resolveCall setting infer id receiver name parameterTypes
  | _, _ => return none

section

variable {setting : Setting σ} {session : Session σ} {id : NodeId}

theorem returns_selfType {scriptClass : String} {receiver : Ty}
    (stands : session.facts.arena.selfType scriptClass id = .ok receiver) :
    Returns (do ofTree ((← getArena).selfType scriptClass id)) session receiver session :=
  returns_bind.mpr ⟨_, _, returns_getArena.mpr ⟨rfl, rfl⟩, returns_ofTree.mpr ⟨stands, rfl⟩⟩

theorem run_functionalCall
    {receiver : Ty} (stands : session.facts.arena.selfType setting.scriptClass id = .ok receiver)
    (infer : NodeId → Infer σ (Option Ty)) (name : String) (parameters : List NodeId)
    (closure : Option NodeId) :
    (functionalCall setting infer id name parameters closure).run session =
      (callOn setting infer id receiver name parameters closure).run session := by
  rw [functionalCall, ← bind_assoc, run_bind_of_returns (returns_selfType stands)]
  rfl

/-- A method definition is bound once. -/
theorem returns_bindDefiningClass_of_bound {lexical : Ty}
    (bound : session.facts.definingClasses.get? id = some lexical) :
    Returns (bindDefiningClass setting id) session lexical session := by
  rw [Returns, bindDefiningClass, run_bind, run_getFacts]
  dsimp only
  rw [bound]
  rfl

end

end Infer

/-- Whatever was learned of methods was learned under this class. -/
def Session.LearnsUnder (definingClass : Ty) (before after : Session σ) : Prop :=
  ∀ entry ∈ after.facts.methods.entries,
    entry ∈ before.facts.methods.entries ∨ entry.definingClass = definingClass

namespace Session.LearnsUnder

variable {definingClass : Ty}

theorem refl (session : Session σ) : session.LearnsUnder definingClass session :=
  fun _ => .inl

theorem trans ⦃first second third : Session σ⦄
    (early : first.LearnsUnder definingClass second)
    (late : second.LearnsUnder definingClass third) :
    first.LearnsUnder definingClass third :=
  fun entry member => (late entry member).elim (early entry) .inr

section

variable {method : MethodType} (under : method.definingClass = definingClass)

include under

theorem learnMethod (location : Location) :
    Relates (LearnsUnder definingClass) (learnMethod method location : Infer σ Ty) := by
  intro session
  rw [Infer.learnMethod, run_bind, run_getFacts]
  dsimp only
  cases learned : session.facts.methods.learn method with
  | error existing => exact refl session
  | ok methods =>
      intro entry member
      rcases MethodTable.mem_entries_of_learn learned member with known | rfl
      · exact .inl known
      · exact .inr under

theorem learnOverloads (layout : ArgumentLayout) (location : Location) :
    Relates (LearnsUnder definingClass)
      (learnOverloads layout method location : Infer σ Unit) := by
  have each : ∀ methods : List MethodType,
      (∀ other ∈ methods, other.definingClass = definingClass) →
      Relates (LearnsUnder definingClass) (learnEach location methods : Infer σ Unit) := by
    intro methods
    induction methods with
    | nil => exact fun _ session => refl session
    | cons first rest ih =>
        intro same
        exact (learnMethod (same first List.mem_cons_self) location).bind trans
          fun _ => ih fun other member => same other (List.mem_cons_of_mem first member)
  by_cases fits : method.parameters.length
      = layout.positional + (if layout.rest then 1 else 0)
  · rw [Infer.learnOverloads, if_pos fits]
    refine each _ fun other member => ?_
    obtain ⟨_, _, rfl⟩ := List.mem_map.mp member
    exact under
  · rw [Infer.learnOverloads, if_neg fits]
    exact refl

end

/-- A step that looks comes first. -/
theorem after
    {α β : Type} {step : Infer σ α} {next : α → Infer σ β} {session : Session σ}
    (reads : ReadStep step)
    (onward : ∀ value, session.LearnsUnder definingClass ((next value).run session).2) :
    session.LearnsUnder definingClass ((step >>= next).run session).2 := by
  have same := reads.keeps session
  rw [run_bind]
  rcases run : step.run session with ⟨stop | value, middle⟩
  · rw [run] at same
    exact same ▸ refl middle
  · rw [run] at same
    obtain rfl : middle = session := same
    exact onward value

/-- A definition whose types are all declared is learned under the class that it is bound
to. -/
theorem registerDeclared
    {setting : Setting σ} {session : Session σ} {id : NodeId} {lexical : Ty}
    (bound : session.facts.definingClasses.get? id = some lexical) (method : Method NodeId)
    (signature : Signature) (location : Location) :
    session.LearnsUnder (if method.isStatic then lexical.toMeta else lexical)
      ((registerDeclared setting id method signature location).run session).2 := by
  unfold Infer.registerDeclared
  cases declaredReturn? signature method with
  | none => exact refl session
  | some returnType =>
      refine after .getArena fun arena =>
        after (.ofTree (arena.argumentsOf_blamesTree _)) fun arguments =>
        after .getArena fun arena =>
        after (.ofTree (arena.argumentNames_blamesTree arguments)) fun names => ?_
      cases names.mapM signature.parameter? with
      | none => exact refl session
      | some parameters =>
          rw [run_bind_of_returns (returns_bindDefiningClass_of_bound bound)]
          exact learnOverloads rfl _ location session

/-- A definition that has its type is learned under its class. -/
theorem publish (id : NodeId) (method : Method NodeId) (lexical : Ty) (signature : Signature)
    (parameters : List Ty) (bodyType : Ty) (location : Location) :
    Relates (LearnsUnder (if method.isStatic then lexical.toMeta else lexical))
      (publish id method lexical signature parameters bodyType location : Infer σ Ty) := by
  have learns : Relates (LearnsUnder (if method.isStatic then lexical.toMeta else lexical))
      (learnPublished method lexical signature parameters bodyType location : Infer σ Unit) :=
    fun _ => after .getArena fun arena => after (.ofTree (arena.argumentsOf_blamesTree _)) fun _ =>
      learnOverloads rfl _ location _
  rw [publish_eq]
  exact (Relates.announce refl trans learns).bind trans fun _ session => refl session

end Session.LearnsUnder

namespace Typer

theorem respects_keepsClasses {typer : Typer σ} (edits : typer.expander.Edits) :
    typer.Respects fun before after =>
      before.facts.KeepsClasses typer.config.scriptClass after.facts :=
  TracksTree.respects (tracksTree_keepsClasses edits)

theorem classesHold_of_reachable
    {typer : Typer σ} (edits : typer.expander.Edits)
    {arena : Arena} {catalog : Catalog} {state : σ} {session : Session σ}
    (reached : typer.Reachable arena catalog state session) :
    session.facts.ClassesHold typer.config.scriptClass := by
  induction reached with
  | start => exact fun _ _ bound => nomatch bound
  | step _ operation ih => exact ((respects_keepsClasses edits).perform _ operation).classes ih

/-- What is learned of a method definition is learned under the class that `self` has at the
definition, and so a call without a receiver below it looks there, unless a script, a class,
an interface or a static method stands in between. -/
theorem calls_look_where_methods_are_learned
    {typer : Typer σ} (edits : typer.expander.Edits)
    {arena : Arena} {catalog : Catalog} {state : σ} {session : Session σ}
    (reached : typer.Reachable arena catalog state session)
    {id : NodeId} {method : Method NodeId} {defining : Ty}
    (defines : session.facts.arena.method? id = some method)
    (bound : session.facts.definingClass? id = some defining) :
    Returns (typer.selfType id) session defining session ∧
    (∀ {inside}, Relation.ReflTransGen session.facts.arena.KeepsSelf inside id →
      Returns (typer.selfType inside) session defining session ∧
      ∀ infer name parameters closure,
        (functionalCall typer.setting infer inside name parameters closure).run session =
          (callOn typer.setting infer inside defining name parameters closure).run session) ∧
    (∀ signature location, session.LearnsUnder defining
      ((registerDeclared typer.setting id method signature location).run session).2) ∧
    ∃ lexical, Returns (bindDefiningClass typer.setting id) session lexical session ∧
      ∀ signature parameters bodyType location, Relates (Session.LearnsUnder defining)
        (publish id method lexical signature parameters bodyType location : Infer σ Ty) := by
  have hold := classesHold_of_reachable edits reached
  obtain ⟨lexical, known, under⟩ := Option.map_eq_some_iff.mp bound
  rw [defines] at under
  dsimp only at under
  subst under
  have below : ∀ {inside}, Relation.ReflTransGen session.facts.arena.KeepsSelf inside id →
      session.facts.arena.selfType typer.config.scriptClass inside =
        .ok (if method.isStatic then lexical.toMeta else lexical) := by
    intro inside path
    induction path using Relation.ReflTransGen.head_induction_on with
    | refl => exact Arena.selfType_of_lexicalClass defines (hold known)
    | head keeps _ ih => exact keeps.selfType ih
  refine ⟨returns_selfType (below .refl), ?_, ?_, lexical, ?_, ?_⟩
  · exact fun path => ⟨returns_selfType (below path), run_functionalCall (below path)⟩
  · exact .registerDeclared known method
  · exact returns_bindDefiningClass_of_bound known
  · exact .publish id method lexical

/-- Calls of `answer` stand for calls of `cost`. -/
def costRule : ExpansionRule where
  callName := some "answer"
  template := .node none false (.functionalCall "cost" [] none)

def costing : Typer ExpansionRules where
  expander := ExpansionRules.expander [costRule]

/-- A method inside of a static one, whose body is expanded. -/
def callInNestedMethod : Arena where
  nodes := ⟨[
    (1, { id := 1, parent := none, location := {}, kind := .script "" (some 2) }),
    (2, { id := 2, parent := some 1, location := {},
          kind := .classDefinition "Shop" none [] (some 3) }),
    (3, { id := 3, parent := some 2, location := {}, kind := .body [4, 9] }),
    (4, { id := 4, parent := some 3, location := {},
          kind := .methodDefinition {
            name := "open", kind := .static, arguments := 5, body := some 6 } }),
    (5, { id := 5, parent := some 4, location := {}, kind := .arguments {} }),
    (6, { id := 6, parent := some 4, location := {},
          kind := .methodDefinition { name := "sell", arguments := 7, body := some 8 } }),
    (7, { id := 7, parent := some 6, location := {}, kind := .arguments {} }),
    (8, { id := 8, parent := some 6, location := {},
          kind := .functionalCall "answer" [] none }),
    (9, { id := 9, parent := some 3, location := {},
          kind := .methodDefinition {
            name := "cost", kind := .static, arguments := 10, body := some 11 } }),
    (10, { id := 10, parent := some 9, location := {}, kind := .arguments {} }),
    (11, { id := 11, parent := some 9, location := {}, kind := .fixnum 3 })]⟩
  nextId := 12

theorem calls_look_where_methods_are_learned_of_callInNestedMethod :
    costing.expander.Edits ∧
      ∃ session, costing.Reachable callInNestedMethod {} (.ofList [costRule]) session ∧
        session.facts.expansionOf? 8 = some 12 ∧ session.facts.nodeType? 12 = some .int ∧
        session.facts.arena.method? 4 =
          some { name := "open", kind := .static, arguments := 5, body := some 6 } ∧
        session.facts.definingClass? 4 = some (Ty.object "Shop").toMeta ∧
        Relation.ReflTransGen session.facts.arena.KeepsSelf 12 4 ∧
        Returns (costing.selfType 12) session (Ty.object "Shop").toMeta session := by
  have edits : costing.expander.Edits := ExpansionRules.expander_edits [costRule]
  obtain ⟨session, ended⟩ : ∃ session, costing.perform
      (start callInNestedMethod {} (.ofList [costRule])) .inferTypes = session := ⟨_, rfl⟩
  have reached : costing.Reachable callInNestedMethod {} (.ofList [costRule]) session :=
    ended ▸ .step .start .inferTypes
  have defines : session.facts.arena.method? 4 =
      some { name := "open", kind := .static, arguments := 5, body := some 6 } := by
    rw [← ended]
    decide +kernel
  have bound : session.facts.definingClass? 4 = some (Ty.object "Shop").toMeta := by
    rw [← ended]
    decide +kernel
  have expansion : session.facts.arena.KeepsSelf 12 6 := by
    refine ⟨{ id := 12, parent := some 6, location := {},
              kind := .functionalCall "cost" [] none }, ?_, rfl, rfl⟩
    rw [← ended]
    decide +kernel
  have method : session.facts.arena.KeepsSelf 6 4 := by
    refine ⟨{ id := 6, parent := some 4, location := {},
              kind := .methodDefinition { name := "sell", arguments := 7, body := some 12 } },
      ?_, rfl, rfl⟩
    rw [← ended]
    decide +kernel
  have path := Relation.ReflTransGen.head expansion (.single method)
  obtain ⟨_, below, _⟩ := calls_look_where_methods_are_learned edits reached defines bound
  refine ⟨edits, session, reached, ?_, ?_, defines, bound, path, (below path).1⟩
  · rw [← ended]
    decide +kernel
  · rw [← ended]
    decide +kernel

end Typer

end DeferredTyping
