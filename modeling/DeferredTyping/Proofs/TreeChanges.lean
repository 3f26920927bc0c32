import DeferredTyping.Proofs.Reachable

/-!
# How facts and the tree may change

Rules learn facts and leave the tree alone; it changes when a call is offered to the expander
and when what the expander answers takes the slot of the call.  A relation between facts that
these changes respect holds across every operation, also across those that fail.  Of a
relation that looks at nothing but the tree and the classes of its methods, less is to be
shown.
-/

namespace DeferredTyping

variable {σ : Type}

namespace Infer

/-- The step leads to related facts, whether it ends with a value or not. -/
abbrev RelatesFacts {α : Type} (relation : Facts → Facts → Prop) (step : Infer σ α) : Prop :=
  Relates (fun before after => relation before.facts after.facts) step

/-- A relation between facts that is respected by whatever happens to them. -/
structure TracksFacts (setting : Setting σ) (relation : Facts → Facts → Prop) : Prop where
  trans : ∀ ⦃first second third⦄, relation first second → relation second third →
    relation first third
  learns : ∀ {catalog : Catalog} {before after : Facts},
    Facts.Learns setting.scriptClass catalog before after → relation before after
  /-- What visiting nodes leaves behind. -/
  notes : ∀ (facts : Facts) nodeTypes argumentTypes expansions,
    relation facts { facts with nodeTypes, argumentTypes, expansions }
  /-- A call is offered to the expander. -/
  offers : ∀ {facts : Facts} {call receiver state answer arena later},
    setting.expander.expand facts.arena call receiver state = (answer, arena, later) →
      relation facts { facts with arena }
  /-- What the expander answers takes the slot of the call. -/
  splices : ∀ {facts : Facts} {call receiver state root arena later parent spliced},
    setting.expander.expand facts.arena call receiver state = (some root, arena, later) →
    arena.replaceChild parent call root = .ok spliced →
      relation facts { facts with arena := spliced }

namespace TracksFacts

variable {setting : Setting σ} {relation : Facts → Facts → Prop}
  (tracks : TracksFacts setting relation)

include tracks

theorem refl (facts : Facts) : relation facts facts :=
  tracks.notes facts facts.nodeTypes facts.argumentTypes facts.expansions

theorem learned
    {catalog : Catalog} {before after : Facts}
    (learned : Facts.Learned setting.scriptClass catalog before after) :
    relation before after := by
  induction learned with
  | refl => exact tracks.refl before
  | tail _ last ih => exact tracks.trans ih (tracks.learns last)

theorem traversal :
    Traversal setting fun _ step => RelatesFacts relation step :=
  .ofRelation (fun _ _ _ early late => tracks.trans early late) tracks.learned

theorem keepArgumentTypes (id : NodeId) (types : Option (List Ty)) :
    RelatesFacts relation (keepArgumentTypes id types : Infer σ _) := by
  intro session
  cases types with
  | none => exact tracks.refl _
  | some types => exact tracks.notes session.facts _ _ _

theorem bind_remember {step : Infer σ (Option Ty)}
    (related : RelatesFacts relation step) (id : NodeId) :
    RelatesFacts relation (step >>= remember id) := by
  refine related.bind (fun _ _ _ early late => tracks.trans early late) fun answer session => ?_
  cases answer with
  | none => exact tracks.refl _
  | some ty => exact tracks.notes session.facts _ _ _

section

variable {infer : NodeId → Infer σ (Option Ty)}
  (visits : ∀ id, RelatesFacts relation (infer id))

include visits

/-- An expansion that is offered takes the slot of its call or stays beside the tree. -/
theorem graft (id : NodeId) (receiver : Ty) :
    RelatesFacts relation (graft setting infer id receiver) := by
  intro session
  have grafted := grafted setting infer id receiver session
  generalize (Infer.graft setting infer id receiver).run session = outcome at grafted ⊢
  cases grafted with
  | declined asked | refused asked _ => exact tracks.offers asked
  | @placed root arena state _ spliced asked replaced =>
      have placed : relation session.facts
          (afterSplice (afterOffer session arena state) id root spliced).facts :=
        tracks.trans (tracks.splices asked replaced) (tracks.notes _ _ _ _)
      exact tracks.trans placed (visits root _)

theorem resolveCall (id : NodeId) (receiver : Ty) (name : String) (types : List Ty) :
    RelatesFacts relation (resolveCall setting infer id receiver name types) := by
  have traversal := tracks.traversal
  have trans : ∀ ⦃first second third : Session σ⦄, relation first.facts second.facts →
      relation second.facts third.facts → relation first.facts third.facts :=
    fun _ _ _ early late => tracks.trans early late
  rw [resolveCall_eq]
  apply (traversal.read (.locationOf id)).bind trans
  intro location
  apply (traversal.read (.findMethod receiver name types location)).bind trans
  intro method
  cases method with
  | some method => exact traversal.read (.pure _)
  | none => exact tracks.graft visits id receiver

end

/-- A visit respects the relation, also when it fails. -/
theorem node (fuel : Nat) :
    ∀ id, RelatesFacts relation (node setting fuel id) := by
  refine node_relates (fun session => tracks.refl session.facts) ?_ ?_ fuel
  · intro fuel id expansion session visits _
    exact tracks.bind_remember (visits expansion) id session
  · intro fuel id found session visits _ _
    refine tracks.bind_remember (tracks.traversal.rule ?_ ?_ ?_) id session
    · exact fun receiver name types => tracks.resolveCall visits id receiver name types
    · exact fun _ _ => tracks.traversal.arguments visits (tracks.keepArgumentTypes id)
    · exact fun child _ => visits child

end TracksFacts

/-- Every operation respects a relation that whatever happens to facts respects. -/
theorem TracksFacts.respects
    {typer : Typer σ} {relation : Facts → Facts → Prop}
    (tracks : TracksFacts typer.setting relation) :
    typer.Respects fun before after => relation before.facts after.facts where
  trans _ _ _ := fun early late => tracks.trans early late
  drives _ _ _ _ := tracks.refl _
  registers session := by
    rcases registers : typer.registerTypes.run session with ⟨answer, after⟩
    obtain ⟨catalog, declaredConstructors, facts, added, rfl, _⟩ :=
      typer.registerTypes_added registers
    exact tracks.learned (Facts.Added.learned added)
  visits id session := by
    rw [Typer.run_infer]
    exact tracks.node _ id session
  keeps := tracks.keepArgumentTypes
  adds adds := tracks.traversal.own adds.own

/-- A relation between facts that looks at the tree and the classes of its methods alone, and
that is respected by what happens to them. -/
structure TracksTree (setting : Setting σ) (relation : Facts → Facts → Prop) : Prop where
  trans : ∀ ⦃first second third⦄, relation first second → relation second third →
    relation first third
  calm : ∀ {before after : Facts}, after.arena = before.arena →
    after.definingClasses = before.definingClasses → relation before after
  /-- A method definition is bound to the class around it. -/
  binds : ∀ {facts : Facts} {id lexical}, facts.definingClasses.get? id = none →
    facts.arena.lexicalClass setting.scriptClass id = .ok lexical →
      relation facts { facts with definingClasses := facts.definingClasses.insert id lexical }
  /-- A call is offered to the expander. -/
  offers : ∀ {facts : Facts} {call receiver state answer arena later},
    setting.expander.expand facts.arena call receiver state = (answer, arena, later) →
      relation facts { facts with arena }
  /-- What the expander answers takes the slot of the call. -/
  splices : ∀ {facts : Facts} {call receiver state root arena later parent spliced},
    setting.expander.expand facts.arena call receiver state = (some root, arena, later) →
    arena.replaceChild parent call root = .ok spliced →
      relation facts { facts with arena := spliced }

theorem TracksTree.tracksFacts
    {setting : Setting σ} {relation : Facts → Facts → Prop}
    (tracks : TracksTree setting relation) :
    TracksFacts setting relation where
  trans := tracks.trans
  learns learned := by
    cases learned with
    | returnType => exact tracks.calm rfl rfl
    | adds added =>
        cases added with
        | definingClass free stands => exact tracks.binds free stands
        | signature _ _ | «local» _ | method _ | delegateTarget _ _ => exact tracks.calm rfl rfl
  notes _ _ _ _ := tracks.calm rfl rfl
  offers := tracks.offers
  splices := tracks.splices

/-- Every operation respects a relation that changes of the tree respect. -/
theorem TracksTree.respects
    {typer : Typer σ} {relation : Facts → Facts → Prop}
    (tracks : TracksTree typer.setting relation) :
    typer.Respects fun before after => relation before.facts after.facts :=
  tracks.tracksFacts.respects

end Infer

end DeferredTyping
