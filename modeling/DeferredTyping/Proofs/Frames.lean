import DeferredTyping.Proofs.Outcomes
import DeferredTyping.Proofs.Reachable

/-!
# What a step leaves alone

A view shows a part of what is known.  A step keeps a view when it shows the same afterwards,
whether the step ends with a value or not, and a step keeps every view that does not show the
tables to which the step adds.

Without macros the tree never changes, and neither does the catalogue once the declarations of the
tree are in it; so a method definition stays in the class around it.
-/

namespace DeferredTyping

variable {σ γ : Type}

/-- Publishing a method does not show in the view: neither its class nor its signature nor its
overloads. -/
structure Facts.HidesPublishing (view : Facts → γ) : Prop where
  definingClasses : ∀ facts definingClasses, view { facts with definingClasses } = view facts
  signatures : ∀ facts signatures, view { facts with signatures } = view facts
  methods : ∀ facts methods, view { facts with methods } = view facts

open Infer

namespace Infer

variable {α β : Type} {view : Facts → γ} {setting : Setting σ}

section

variable {relation : Session σ → Session σ → Prop} (refl : ∀ session, relation session session)

include refl

/-- A step that looks leads nowhere else. -/
theorem Relates.read {step : Infer σ α} (reads : ReadStep step) : Relates relation step := by
  intro session
  rw [reads.keeps session]
  exact refl session

/-- What is announced is checked first. -/
theorem Relates.announce
    (trans : ∀ ⦃first second third⦄, relation first second → relation second third →
      relation first third)
    {id : NodeId} {method : Method NodeId} {lexical : Ty} {signature : Signature}
    {parameters : List Ty} {bodyType : Ty} {location : Location}
    (learns : Relates relation
      (learnPublished method lexical signature parameters bodyType location)) :
    Relates relation (announce id method lexical signature parameters bodyType location) := by
  refine (Relates.read refl .getArena).bind trans fun arena => ?_
  dsimp only
  split
  · refine (Relates.read refl (.isParent _ _)).bind trans fun accepted => ?_
    split
    · exact learns
    · have refused : Relates relation (fail (.mismatch (effectiveReturn signature.returnType
          bodyType) bodyType (.methodReturn method.name) location) : Infer σ Unit) := refl
      exact refused.bind trans fun _ => learns
  · exact learns

end

/-- The view shows the same after the step, whether the step ends with a value or not. -/
abbrev KeepsView (view : Facts → γ) (step : Infer σ α) : Prop :=
  Relates (fun before after => view after.facts = view before.facts) step

namespace KeepsView

theorem read {step : Infer σ α} (reads : ReadStep step) : KeepsView view step := by
  refine Relates.read ?_ reads
  exact fun _ => rfl

protected theorem fail (error : TypeError) : KeepsView view (fail error : Infer σ α) :=
  fun _ => rfl

protected theorem bind
    {step : Infer σ α} {next : α → Infer σ β}
    (first : KeepsView view step) (second : ∀ value, KeepsView view (next value)) :
    KeepsView view (step >>= next) :=
  Relates.bind first (fun _ _ _ early late => late.trans early) second

/-- A step that looks comes first. -/
protected theorem after
    {step : Infer σ α} {next : α → Infer σ β}
    (first : ReadStep step) (second : ∀ value, KeepsView view (next value)) :
    KeepsView view (step >>= next) :=
  (read first).bind second

/-- Facts that do not show change before an answer is given. -/
theorem modifyFacts_bind
    {change : Facts → Facts} (same : ∀ facts, view (change facts) = view facts)
    {next : Unit → Infer σ β} (second : KeepsView view (next ())) :
    KeepsView view (modifyFacts change >>= next) :=
  KeepsView.bind (fun session => same session.facts) fun _ => second

theorem learnLocal
    (hidden : ∀ facts scopes, view { facts with scopes } = view facts)
    (scope : NodeId) (name : String) (ty : Ty) (location : Location) :
    KeepsView view (learnLocal scope name ty location : Infer σ Ty) := by
  refine KeepsView.bind (fun _ => rfl) fun session => ?_
  dsimp only
  split
  · split
    · exact .read (.pure _)
    · exact .fail _
  · exact modifyFacts_bind (fun facts => hidden facts _) (.read (.pure _))

theorem bindDefiningClass
    (hidden : ∀ facts definingClasses, view { facts with definingClasses } = view facts)
    (id : NodeId) :
    KeepsView view (bindDefiningClass setting id) := by
  refine .after .getFacts fun facts => ?_
  split
  · exact .read (.pure _)
  · refine .after (.ofTree (facts.arena.lexicalClass_blamesTree _ id)) fun lexical => ?_
    exact modifyFacts_bind (fun facts => hidden facts _) (.read (.pure _))

theorem delegateBound
    (hidden : ∀ facts delegateTargets, view { facts with delegateTargets } = view facts)
    (id : NodeId) (method : Method NodeId) (lexical : Ty) (location : Location) :
    KeepsView view (delegateBound id method lexical location : Infer σ Bool) := by
  unfold Infer.delegateBound bindDelegateTarget
  split
  · split
    · exact .read (.pure _)
    · refine .after .getFacts fun facts => ?_
      split
      · exact .read (.pure _)
      · split
        · exact .read (.pure _)
        · refine .after (.findConstructor _ _ _) fun target => ?_
          split
          · exact .read (.pure _)
          · exact modifyFacts_bind (fun facts => hidden facts _) (.read (.pure _))
  · exact .read (.pure _)

theorem fillGathered
    (hidden : ∀ facts signatures, view { facts with signatures } = view facts)
    (id : NodeId) (answer : Option Ty) :
    KeepsView view (fillGathered id answer : Infer σ (Option Ty)) := by
  cases answer with
  | none => exact .read (.pure _)
  | some ty => exact fun session => hidden session.facts _

theorem keepArgumentTypes
    (hidden : ∀ facts argumentTypes, view { facts with argumentTypes } = view facts)
    (id : NodeId) (types : Option (List Ty)) :
    KeepsView view (keepArgumentTypes id types : Infer σ _) := by
  cases types with
  | none => exact .read (.pure _)
  | some types => exact fun session => hidden session.facts _

section

variable (hidden : ∀ facts methods, view { facts with methods } = view facts)

include hidden

theorem learnMethod (method : MethodType) (location : Location) :
    KeepsView view (learnMethod method location : Infer σ Ty) := by
  refine .after .getFacts fun facts => ?_
  split
  · exact modifyFacts_bind (fun facts => hidden facts _) (.read (.pure _))
  · exact .fail _

theorem learnEach (location : Location) (methods : List MethodType) :
    KeepsView view (learnEach location methods : Infer σ Unit) := by
  induction methods with
  | nil => exact .read (.pure ())
  | cons method rest ih => exact (learnMethod hidden method location).bind fun _ => ih

theorem learnOverloads (layout : ArgumentLayout) (method : MethodType) (location : Location) :
    KeepsView view (learnOverloads layout method location : Infer σ Unit) := by
  by_cases fits : method.parameters.length
      = layout.positional + (if layout.rest then 1 else 0)
  · rw [Infer.learnOverloads, if_pos fits]
    exact learnEach hidden location _
  · rw [Infer.learnOverloads, if_neg fits]
    exact .fail _

theorem announceGathered
    (id : NodeId) (method : Method NodeId) (gathered : Option Gathered) :
    KeepsView view (announceGathered id method gathered : Infer σ (Option Ty)) := by
  cases gathered with
  | none => exact .read (.pure _)
  | some known =>
      have learns : KeepsView view (learnPublished method known.lexical known.signature
          known.parameters known.bodyType known.location : Infer σ Unit) :=
        .after .getArena fun arena =>
          .after (.ofTree (arena.argumentsOf_blamesTree _)) fun _ => learnOverloads hidden _ _ _
      have announces : KeepsView view (announce id method known.lexical known.signature
          known.parameters known.bodyType known.location : Infer σ Unit) := by
        refine Relates.announce ?_ ?_ learns
        · exact fun _ => rfl
        · exact fun _ _ _ early late => late.trans early
      exact announces.bind fun _ => .read (.pure _)

end

theorem registerDeclared
    (classes : ∀ facts definingClasses, view { facts with definingClasses } = view facts)
    (hidden : ∀ facts methods, view { facts with methods } = view facts)
    (id : NodeId) (method : Method NodeId) (signature : Signature) (location : Location) :
    KeepsView view (registerDeclared setting id method signature location) := by
  unfold Infer.registerDeclared
  split
  · exact .read (.pure ())
  · refine .after .getArena fun arena =>
      .after (.ofTree (arena.argumentsOf_blamesTree _)) fun arguments =>
      .after .getArena fun arena =>
      .after (.ofTree (arena.argumentNames_blamesTree arguments)) fun names => ?_
    split
    · exact .read (.pure ())
    · exact (bindDefiningClass classes id).bind fun _ => learnOverloads hidden _ _ location

section

variable (hidden : Facts.HidesPublishing view)

include hidden

theorem signatureOf (id : NodeId) (method : Method NodeId) :
    KeepsView view (signatureOf setting id method) := by
  refine .after .getFacts fun facts => ?_
  split
  · exact .read (.pure _)
  · refine .after (.locationOf id) fun location =>
      KeepsView.bind (fun _ => rfl) fun session => ?_
    split
    · exact .fail _
    · apply modifyFacts_bind
      · exact fun facts => hidden.signatures facts _
      · exact (registerDeclared hidden.definingClasses hidden.methods id method _ location).bind
          fun _ => .read (.pure _)

theorem declaredType? (argument : NodeId) (name : String) :
    KeepsView view (declaredType? setting argument name) := by
  refine .after .getArena fun arena =>
    .after (.ofTree (arena.owningMethod?_blamesTree argument)) fun owner => ?_
  cases owner with
  | none => exact .read (.pure _)
  | some owner => exact (signatureOf hidden owner.1 owner.2).bind fun _ => .read (.pure _)

/-- Registering the declarations of a tree publishes methods and adds no other facts. -/
theorem registerTypes (typer : Typer σ) : KeepsView view typer.registerTypes := by
  have constructs : ∀ methods, KeepsView view (declareConstructors typer.setting methods) := by
    intro methods session
    obtain ⟨declaredConstructors, ended, _⟩ :=
      run_declareConstructors typer.setting methods session
    rw [ended]
  have resolves : ∀ methods, KeepsView view (declareSignatures typer.setting methods) := by
    intro methods
    induction methods with
    | nil => exact .read (.pure ())
    | cons entry rest ih => exact (signatureOf hidden entry.1 entry.2).bind fun _ => ih
  refine KeepsView.bind (fun session => by rw [run_declareTypes]) fun _ =>
    .after .getArena fun arena => ?_
  exact (constructs arena.methods).bind fun _ => resolves arena.methods

end

end KeepsView

end Infer

/-- A session whose tree and catalogue are the given ones, and in which method definitions are bound
to the classes around them. -/
structure Session.Placed (scriptClass : String) (tree : Arena) (classes : Catalog)
    (session : Session σ) : Prop extends session.Intact tree where
  catalog : session.catalog = classes
  standing : ∀ {id lexical}, session.facts.definingClasses.get? id = some lexical →
    tree.lexicalClass scriptClass id = .ok lexical

namespace Session.Placed

variable {scriptClass : String} {tree : Arena} {classes : Catalog} {session : Session σ}

/-- Neither the tree nor the class of a method changes. -/
theorem keep
    {facts : Facts} (placed : session.Placed scriptClass tree classes)
    (arena : facts.arena = session.facts.arena)
    (expansions : facts.expansions = session.facts.expansions)
    (definingClasses : facts.definingClasses = session.facts.definingClasses) :
    { session with facts : Session σ }.Placed scriptClass tree classes where
  arena := arena.trans placed.arena
  unexpanded := expansions.trans placed.unexpanded
  catalog := placed.catalog
  standing known := placed.standing (definingClasses ▸ known)

theorem learned
    {catalog : Catalog} {facts : Facts} (placed : session.Placed scriptClass tree classes)
    (learned : Facts.Learned scriptClass catalog session.facts facts) :
    { session with facts : Session σ }.Placed scriptClass tree classes := by
  induction learned with
  | refl => exact placed
  | tail _ last ih =>
      have same := last.sameNodes
      cases last with
      | returnType => exact ih.keep same.arena same.expansions rfl
      | adds added =>
          cases added with
          | signature _ _ | «local» _ | method _ | delegateTarget _ _ =>
              exact ih.keep same.arena same.expansions rfl
          | @definingClass id lexical _ stands =>
              refine ⟨⟨ih.arena, ih.unexpanded⟩, ih.catalog, ?_⟩
              intro other known bound
              rcases Table.get?_insert_eq_some bound with ⟨rfl, rfl⟩ | ⟨_, before⟩
              · exact ih.arena ▸ stands
              · exact ih.standing before

/-- What a step does by itself leaves the methods in their classes. -/
theorem own
    {α : Type} {setting : Setting σ} {step : Infer σ α}
    (placed : session.Placed setting.scriptClass tree classes) (own : OwnStep setting step) :
    (step.run session).2.Placed setting.scriptClass tree classes := by
  obtain ⟨facts, learned, ended⟩ := own.learns session
  rw [ended]
  exact placed.learned learned

/-- The class that a method definition is bound to is the one around it. -/
theorem lexicalClass_of_bindDefiningClass
    {setting : Setting σ} {id : NodeId} {lexical : Ty} {after : Session σ}
    (placed : session.Placed setting.scriptClass tree classes)
    (returned : Returns (bindDefiningClass setting id) session lexical after) :
    tree.lexicalClass setting.scriptClass id = .ok lexical := by
  rcases returns_bindDefiningClass returned with ⟨known, _⟩ | ⟨_, stands, _⟩
  · exact placed.standing known
  · exact placed.arena ▸ stands

/-- Registering the declarations once more changes neither the tree nor the catalogue. -/
theorem declare
    (placed : session.Placed scriptClass tree classes) (declared : tree.declare classes = classes)
    (declaredConstructors : List Ty) :
    { session with
      catalog := session.facts.arena.declare session.catalog
      declaredConstructors : Session σ }.Placed scriptClass tree classes where
  toIntact := ⟨placed.arena, placed.unexpanded⟩
  catalog := by
    rw [placed.arena, placed.catalog]
    exact declared
  standing := placed.standing

/-- A fresh session that knows the classes of its tree. -/
theorem start
    (tree : Arena) (catalog : Catalog) (state : σ) (declaredConstructors : List Ty) :
    { Typer.start tree catalog state with
      catalog := tree.declare catalog
      declaredConstructors : Session σ }.Placed scriptClass tree (tree.declare catalog) where
  toIntact := ⟨rfl, rfl⟩
  catalog := rfl
  standing known := by cases known

end Session.Placed

end DeferredTyping
