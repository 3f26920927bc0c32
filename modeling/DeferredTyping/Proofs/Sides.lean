import DeferredTyping.Proofs.Tracking

/-!
# Every rule stays on its side

A rule asks for nodes on the side of its own node only, and whatever it writes is about
nodes and methods of that side.  What holds of the visits that a rule makes therefore holds
of the rule: it is followed when they are.
-/

namespace DeferredTyping

variable {σ : Type}

open Infer

/-- The types of a call shape are types of parameters. -/
theorem ArgumentLayout.mem_of_mem_callShapes
    {layout : ArgumentLayout} {parameters shape : List Ty}
    (way : shape ∈ layout.callShapes parameters)
    {ty : Ty} (member : ty ∈ shape) : ty ∈ parameters := by
  obtain ⟨given, _, rfl⟩ := List.mem_map.mp way
  rcases List.mem_append.mp member with front | back
  · exact List.mem_of_mem_take front
  · exact List.mem_of_mem_drop back

namespace Division

variable {division : Division} {side : Bool} {id : NodeId}

section Methods

variable {method : Method NodeId} (defines : division.tree.method? id = some method)

include defines

/-- A method definition on the inside writes known names only. -/
theorem spells_of_method? (within : division.inside id = true) :
    ∀ text ∈ method.declared.texts, Catalog.Spells division.known text := by
  obtain ⟨node, present, isMethod⟩ := Option.bind_eq_some_iff.mp defines
  have written := division.spells present within
  rw [Kind.method?_eq_some_iff.mp isMethod] at written
  exact written

/-- What a method definition consists of is on its side. -/
theorem inside_of_method? {child : NodeId}
    (member : child ∈ (Kind.methodDefinition method).dependencies) :
    division.inside child = division.inside id := by
  obtain ⟨node, present, isMethod⟩ := Option.bind_eq_some_iff.mp defines
  exact division.separates.depends
    ⟨node, present, Kind.method?_eq_some_iff.mp isMethod ▸ member⟩

theorem inside_arguments : division.inside method.arguments = division.inside id :=
  inside_of_method? defines (by simp [Kind.dependencies])

end Methods

namespace Tracks

variable {setting : Setting σ}

section Publishing

protected theorem learnEach {methods : List MethodType} {location : Location}
    (defined : ∀ method ∈ methods, method.definingClass.usesOnly division.known = side)
    (fits : side = true → ∀ method ∈ methods, method.UsesOnly division.known) :
    division.Tracks side (fun _ => True) (learnEach location methods : Infer σ Unit)
      (learnEach location methods) := by
  induction methods with
  | nil => exact .pure trivial
  | cons method rest ih =>
      rw [List.forall_mem_cons] at defined
      simp only [List.forall_mem_cons] at fits
      exact (Tracks.learnMethod defined.1 fun inside => (fits inside).1).bind fun _ =>
        ih defined.2 fun inside => (fits inside).2

protected theorem learnOverloads
    {layout : ArgumentLayout} {method : MethodType} {location : Location}
    (defined : method.definingClass.usesOnly division.known = side)
    (fits : side = true → method.UsesOnly division.known) :
    division.Tracks side (fun _ => True) (learnOverloads layout method location : Infer σ Unit)
      (learnOverloads layout method location) := by
  by_cases fitting : method.parameters.length =
      layout.positional + (if layout.rest then 1 else 0)
  · rw [Infer.learnOverloads, if_pos fitting]
    refine Tracks.learnEach ?_ ?_
    · intro overload member
      obtain ⟨shape, way, rfl⟩ := List.mem_map.mp member
      exact defined
    · intro inside overload member
      obtain ⟨shape, way, rfl⟩ := List.mem_map.mp member
      exact ⟨fun ty given => (fits inside).parameters ty
        (ArgumentLayout.mem_of_mem_callShapes way given), (fits inside).returnType⟩
  · rw [Infer.learnOverloads, if_neg fitting]
    exact fun _ _ _ => .fail _

variable (scripted : setting.scriptClass = division.scriptClass)
  (within : division.inside id = side)

include scripted within

protected theorem bindDefiningClass :
    division.Tracks side (fun lexical => lexical.usesOnly division.known = side)
      (bindDefiningClass setting id) (bindDefiningClass setting id) := by
  intro whole part mirrors
  refine .getFacts ?_
  rw [mirrors.seen_definingClass within]
  cases known : whole.facts.definingClasses.get? id with
  | some lexical => exact .pure mirrors (within ▸ mirrors.facts.sides id lexical known)
  | none =>
      dsimp only
      have same : side = true → division.own.lexicalClass setting.scriptClass id =
          division.tree.lexicalClass setting.scriptClass id := fun inside =>
        division.separates.lexicalClass_only division.climbs (within.trans inside) _
      rw [mirrors.facts.arena, mirrors.seen_tree (·.lexicalClass setting.scriptClass id) same]
      refine .ofTree fun lexical found => ?_
      rw [scripted] at found
      have defined := division.usesOnly_of_lexicalClass found
      have bind := mirrors.facts.bindDefiningClass defined
      rw [within] at bind defined
      exact Follows.bind (.modifyFacts mirrors bind trivial)
        fun {_} (_ : True) => Tracks.pure defined

protected theorem registerDeclared
    {method : Method NodeId} {signature : Signature} {location : Location}
    (defines : division.tree.method? id = some method)
    (fits : side = true → signature.UsesOnly division.known) :
    division.Tracks side (fun _ => True)
      (registerDeclared setting id method signature location)
      (registerDeclared setting id method signature location) := by
  intro whole part mirrors
  unfold Infer.registerDeclared
  cases returns : declaredReturn? signature method with
  | none => exact .pure mirrors trivial
  | some returnType =>
      have returnFits : division.Fits side returnType := by
        intro inside
        unfold declaredReturn? at returns
        split at returns
        · cases returns
          rfl
        · exact (fits inside).returnType (Option.filter_eq_some_iff.mp returns).1
      have argumentsSide := (inside_arguments defines).trans within
      refine .ofArena (·.argumentsOf method.arguments) mirrors
        (fun inside => Arena.argumentsOf_only_of_inside (argumentsSide.trans inside))
        fun list given => ?_
      refine .ofArena (·.argumentNames list) mirrors (fun inside =>
        division.separates.argumentNames_only (argumentsSide.trans inside) given)
        fun names named => ?_
      cases typed : names.mapM signature.parameter? with
      | none => exact .pure mirrors trivial
      | some parameters =>
          refine (Tracks.bindDefiningClass scripted within _ _ mirrors).bind fun lexical => ?_
          refine Tracks.learnOverloads ?_ fun inside => ⟨?_, returnFits inside⟩
          · dsimp only
            split
            · exact lexical
            · exact lexical
          · intro ty member
            obtain ⟨name, _, declared⟩ := exists_of_mapM_some typed member
            exact (fits inside).parameters declared

protected theorem signatureOf {method : Method NodeId}
    (defines : division.tree.method? id = some method) :
    division.Tracks side (fun signature => side = true → signature.UsesOnly division.known)
      (signatureOf setting id method) (signatureOf setting id method) := by
  intro whole part mirrors
  refine .getFacts ?_
  rw [mirrors.seen_signature? within]
  cases known : whole.facts.signature? id with
  | some signature =>
      exact .pure mirrors fun inside =>
        mirrors.facts.signatures id signature known (within.trans inside)
  | none =>
      refine (Tracks.locationOf within _ _ mirrors).bind fun {location} _ => ?_
      intro whole part mirrors
      refine .get ?_
      have spells := fun inside => spells_of_method? defines (within.trans inside)
      rw [mirrors.seen_resolveSignature spells]
      cases resolved : whole.catalog.resolveSignature method.declared with
      | error name => exact .fail _
      | ok signature =>
          rw [mirrors.catalog] at resolved
          have fits : side = true → signature.UsesOnly division.known := fun inside =>
            division.agrees.usesOnly_of_resolveSignature (spells inside) resolved
          have inserted := mirrors.facts.insertSignature id fun inside =>
            fits (within.symm.trans inside)
          rw [within] at inserted
          exact Follows.bind (.modifyFacts mirrors inserted trivial) fun {_} (_ : True) =>
            (Tracks.registerDeclared scripted within defines fits).bind fun _ => .pure fits

protected theorem declaredType? {name : String} :
    division.Tracks side (division.FitsAnswer side)
      (declaredType? setting id name) (declaredType? setting id name) := by
  intro whole part mirrors
  refine .ofArena (·.owningMethod? id) mirrors
    (fun inside => division.separates.owningMethod?_only (within.trans inside)) fun owner owns => ?_
  cases owner with
  | none => exact .pure mirrors nofun
  | some owner =>
      obtain ⟨owner, method⟩ := owner
      have ownerSide := (division.separates.owningMethod?_inside owns).trans within
      exact (Tracks.signatureOf scripted ownerSide (Arena.owningMethod?_ok owns).2 _ _ mirrors).bind
        fun fits => .pure fun ty declared inside => (fits inside).parameters declared

end Publishing

/-- A step in the scope of a node is on the side of the node. -/
protected theorem inScope {α : Type} {holds : α → Prop} {next onward : NodeId → Infer σ α}
    (within : division.inside id = side)
    (later : ∀ scope, division.inside scope = side →
      division.Tracks side holds (next scope) (onward scope)) :
    division.Tracks side holds
      (getArena >>= fun arena => ofTree (arena.scopeOf id) >>= next)
      (getArena >>= fun arena => ofTree (arena.scopeOf id) >>= onward) :=
  fun _ _ mirrors => .ofArena (·.scopeOf id) mirrors
    (fun inside => division.separates.scopeOf_only division.climbs (within.trans inside))
    fun scope uses => later scope
      ((division.separates.scopeOf_inside division.keyed uses).trans within) _ _ mirrors

/-- The type that a node has as a receiver fits the side of the node. -/
protected theorem withSelf {α : Type} {holds : α → Prop} {next onward : Ty → Infer σ α}
    (scripted : setting.scriptClass = division.scriptClass)
    (within : division.inside id = side)
    (later : ∀ receiver, division.Fits side receiver →
      division.Tracks side holds (next receiver) (onward receiver)) :
    division.Tracks side holds
      (getArena >>= fun arena => ofTree (arena.selfType setting.scriptClass id) >>= next)
      (getArena >>= fun arena => ofTree (arena.selfType setting.scriptClass id) >>= onward) := by
  intro whole part mirrors
  refine .ofArena (·.selfType setting.scriptClass id) mirrors
    (fun inside => division.separates.selfType_only division.climbs (within.trans inside) _)
    fun receiver stands => ?_
  rw [scripted] at stands
  exact later receiver (fun inside =>
    (division.usesOnly_of_selfType stands).trans (within.trans inside)) _ _ mirrors

/-- A step that has an answer stands for a type that does not depend on it. -/
protected theorem mapTo {α : Type} {holds : Option α → Prop} {step other : Infer σ (Option α)}
    (first : division.Tracks side holds step other) {ty : Ty} (fits : division.Fits side ty) :
    division.Tracks side (division.FitsAnswer side) ((Option.map fun _ => ty) <$> step)
      ((Option.map fun _ => ty) <$> other) := by
  refine first.map fun {answer} _ => ?_
  intro given known
  obtain ⟨_, _, rfl⟩ := Option.map_eq_some_iff.mp known
  exact fits

/-- A local that is bound is the answer. -/
protected theorem answerLocal {scope : NodeId} {name : String} {ty : Ty} {location : Location}
    (within : division.inside scope = side) (fits : division.Fits side ty) :
    division.Tracks side (division.FitsAnswer side)
      (do return some (← learnLocal scope name ty location) : Infer σ (Option Ty))
      (do return some (← learnLocal scope name ty location)) :=
  (Tracks.learnLocal within fits).bind fun boundFits => .pure (by rintro _ ⟨⟩; exact boundFits)

section Rules

variable {infer other : NodeId → Infer σ (Option Ty)}
  (visits : ∀ child, division.inside child = side →
    division.Tracks side (division.FitsAnswer side) (infer child) (other child))

include visits

protected theorem optional
    {child : Option NodeId} (within : ∀ id ∈ child, division.inside id = side) :
    division.Tracks side (division.FitsAnswer side) (optional infer child)
      (optional other child) := by
  cases child with
  | none =>
      refine Tracks.pure ?_
      rintro _ ⟨⟩ _
      rfl
  | some id => exact visits id (within id rfl)

protected theorem all
    {children : List NodeId} (within : ∀ id ∈ children, division.inside id = side) :
    division.Tracks side (division.FitsAnswers side) (all infer children) (all other children) := by
  induction children with
  | nil =>
      refine Tracks.pure ?_
      rintro _ ⟨⟩
      exact nofun
  | cons id rest ih =>
      rw [List.forall_mem_cons] at within
      refine (visits id within.1).bind fun {first} firstFits =>
        (ih within.2).bind fun {others} othersFit => .pure ?_
      intro types known
      obtain ⟨ty, rfl, known⟩ := Option.bind_eq_some_iff.mp known
      obtain ⟨later, rfl, rfl⟩ := Option.map_eq_some_iff.mp known
      exact List.forall_mem_cons.mpr ⟨firstFits ty rfl, othersFit later rfl⟩

protected theorem blockReady
    {child : Option NodeId} (within : ∀ id ∈ child, division.inside id = side) :
    division.Tracks side (fun _ => True) (blockReady infer child) (blockReady other child) := by
  cases child with
  | none => exact .pure trivial
  | some id => exact (visits id (within id rfl)).bind fun _ => .pure trivial

protected theorem body
    {statements : List NodeId} (within : ∀ id ∈ statements, division.inside id = side) :
    division.Tracks side (division.FitsAnswer side) (body infer statements)
      (body other statements) := by
  refine (Tracks.all visits within).bind fun {answer} fits => .pure ?_
  intro ty known
  obtain ⟨types, rfl, rfl⟩ := Option.map_eq_some_iff.mp known
  cases last : types.getLast? with
  | none => exact fun _ => rfl
  | some ty => exact fits types rfl ty (List.mem_of_getLast? last)

protected theorem block {parameters : NodeId} {content : Option NodeId}
    (parametersWithin : division.inside parameters = side)
    (within : ∀ id ∈ content, division.inside id = side) :
    division.Tracks side (division.FitsAnswer side) (block infer parameters content)
      (block other parameters content) := by
  refine (visits parameters parametersWithin).bind fun {parameterType} _ =>
    (Tracks.optional visits within).bind fun {contentType} fits => .pure ?_
  intro ty known
  obtain ⟨_, rfl, known⟩ := Option.bind_eq_some_iff.mp known
  exact fits ty known

protected theorem localAssignment {name : String} {value : NodeId} {location : Location}
    (within : division.inside id = side) (valueWithin : division.inside value = side) :
    division.Tracks side (division.FitsAnswer side) (localAssignment infer id name value location)
      (localAssignment other id name value location) := by
  refine (visits value valueWithin).bind fun {answer} fits => ?_
  cases answer with
  | none => exact .pure nofun
  | some valueType =>
      exact Tracks.inScope within fun scope scopeSide =>
        Tracks.answerLocal scopeSide (fits valueType rfl)

end Rules

protected theorem localRead {name : String} (within : division.inside id = side) :
    division.Tracks side (division.FitsAnswer side) (localRead id name : Infer σ (Option Ty))
      (localRead id name) := by
  refine Tracks.inScope within fun scope scopeSide whole part mirrors => .getFacts ?_
  rw [mirrors.seen_localType? scopeSide]
  exact .pure mirrors fun ty bound => scopeSide ▸ mirrors.facts.fits_localType? bound

section Calls

variable {infer other : NodeId → Infer σ (Option Ty)} (within : division.inside id = side)

include within

protected theorem resolveCall (declines : setting.expander.Declines)
    {receiver : Ty} {name : String} {types : List Ty} (receiverFits : division.Fits side receiver)
    (typesFit : ∀ ty ∈ types, division.Fits side ty) :
    division.Tracks side (division.FitsAnswer side)
      (resolveCall setting infer id receiver name types)
      (resolveCall setting other id receiver name types) := by
  refine (Tracks.locationOf within).bind fun _ =>
    (Tracks.findMethod receiverFits typesFit).bind fun {method?} fits => ?_
  cases method? with
  | some method => exact .pure fits
  | none =>
      rw [offer_eq_of_declines declines]
      simp only [pure_bind]
      exact .pure nofun

protected theorem instantiation {instanceType : Ty} {types : List Ty}
    (classFits : division.Fits side instanceType)
    (typesFit : ∀ ty ∈ types, division.Fits side ty) :
    division.Tracks side (division.FitsAnswer side)
      (instantiation id instanceType types : Infer σ (Option Ty))
      (instantiation id instanceType types) := by
  have made : division.FitsAnswer side (some instanceType) := by
    rintro _ ⟨⟩
    exact classFits
  refine (Tracks.locationOf within).bind fun _ =>
    (Tracks.findConstructor classFits typesFit).bind fun {method?} _ => ?_
  cases method? with
  | some method => exact .pure made
  | none =>
      intro whole part mirrors
      refine .get ?_
      dsimp only
      rw [mirrors.seen_declaredConstructors classFits]
      split
      · exact .pure mirrors made
      · exact .pure mirrors nofun

variable (visits : ∀ child, division.inside child = side →
  division.Tracks side (division.FitsAnswer side) (infer child) (other child))

include visits

protected theorem functionalCall (scripted : setting.scriptClass = division.scriptClass)
    (declines : setting.expander.Declines) {name : String} {parameters : List NodeId}
    {closure : Option NodeId} (parametersWithin : ∀ id ∈ parameters, division.inside id = side)
    (closureWithin : ∀ id ∈ closure, division.inside id = side) :
    division.Tracks side (division.FitsAnswer side)
      (functionalCall setting infer id name parameters closure)
      (functionalCall setting other id name parameters closure) := by
  refine Tracks.withSelf scripted within fun receiver receiverFits =>
    (Tracks.all visits parametersWithin).bind fun {answers} fits =>
      (Tracks.blockReady visits closureWithin).bind fun {ready} _ => ?_
  split
  · rename_i types
    exact Tracks.resolveCall within declines receiverFits (fits types rfl)
  · exact .pure nofun

protected theorem call (declines : setting.expander.Declines) {target : NodeId} {name : String}
    {parameters : List NodeId} {closure : Option NodeId}
    (targetWithin : division.inside target = side)
    (parametersWithin : ∀ id ∈ parameters, division.inside id = side)
    (closureWithin : ∀ id ∈ closure, division.inside id = side) :
    division.Tracks side (division.FitsAnswer side)
      (call setting infer id target name parameters closure)
      (call setting other id target name parameters closure) := by
  refine (visits target targetWithin).bind fun {answer} answerFits =>
    (Tracks.all visits parametersWithin).bind fun {answers} fits =>
      (Tracks.blockReady visits closureWithin).bind fun {ready} _ => ?_
  split
  · rename_i targetType types
    have targetFits := answerFits targetType rfl
    split
    · exact Tracks.instantiation within targetFits (fits types rfl)
    · exact Tracks.resolveCall within declines targetFits (fits types rfl)
  · exact .pure nofun

end Calls

section Choices

variable {infer other : NodeId → Infer σ (Option Ty)}
  (visits : ∀ child, division.inside child = side →
    division.Tracks side (division.FitsAnswer side) (infer child) (other child))

include visits

omit visits in
/-- The last chance is on for both runs or for none. -/
protected theorem onlyOne {known : Ty} (fits : division.FitsAnswer side (some known)) :
    division.Tracks side (division.FitsAnswer side)
      (do return if (← get).lastChance then some known else none : Infer σ (Option Ty))
      (do return if (← get).lastChance then some known else none) := by
  intro whole part mirrors
  refine .get ?_
  rw [mirrors.seen_lastChance]
  refine .pure mirrors ?_
  split
  · exact fits
  · exact nofun

protected theorem ifElse
    {condition : NodeId} {thenBody elseBody : Option NodeId} {location : Location}
    (conditionWithin : division.inside condition = side)
    (thenWithin : ∀ id ∈ thenBody, division.inside id = side)
    (elseWithin : ∀ id ∈ elseBody, division.inside id = side) :
    division.Tracks side (division.FitsAnswer side)
      (ifElse infer condition thenBody elseBody location)
      (ifElse other condition thenBody elseBody location) := by
  refine (visits condition conditionWithin).bind fun {conditionType} _ =>
    (Tracks.optional visits thenWithin).bind fun {thenType} thenFits => ?_
  cases elseBody with
  | none =>
      refine .pure fun ty known => ?_
      obtain ⟨_, rfl, known⟩ := Option.bind_eq_some_iff.mp known
      exact thenFits ty known
  | some elseBody =>
      refine (visits elseBody (elseWithin elseBody rfl)).bind fun {elseType} elseFits => ?_
      split
      · exact .pure nofun
      · intro whole part mirrors
        cases thenType with
        | some thenType =>
            cases elseType with
            | some elseType =>
                have thenFits := thenFits thenType rfl
                have elseFits := elseFits elseType rfl
                refine .get ?_
                rw [mirrors.seen_join? thenFits elseFits]
                cases joins : Assignable.join? whole.catalog.isParent thenType elseType with
                | none => exact .fail _
                | some joined =>
                    refine .pure mirrors ?_
                    rintro _ ⟨⟩
                    rcases Assignable.eq_of_join? joins with rfl | rfl
                    · exact thenFits
                    · exact elseFits
            | none => exact Tracks.onlyOne thenFits _ _ mirrors
        | none =>
            cases elseType with
            | some elseType => exact Tracks.onlyOne elseFits _ _ mirrors
            | none => exact .pure mirrors nofun

end Choices

section Parameters

variable (scripted : setting.scriptClass = division.scriptClass)
  (within : division.inside id = side)

include scripted within

protected theorem requiredArgument {name : String} :
    division.Tracks side (division.FitsAnswer side) (requiredArgument setting id name)
      (requiredArgument setting id name) := by
  refine Tracks.inScope within fun scope scopeSide =>
    (Tracks.declaredType? scripted within).bind fun {declared} fits => ?_
  cases declared with
  | some declared =>
      exact (Tracks.locationOf within).bind fun _ =>
        Tracks.answerLocal scopeSide (fits declared rfl)
  | none =>
      intro whole part mirrors
      refine .getFacts ?_
      rw [mirrors.seen_own? scopeSide]
      exact .pure mirrors fun ty bound => scopeSide ▸ mirrors.facts.locals bound

variable {infer other : NodeId → Infer σ (Option Ty)}
  (visits : ∀ child, division.inside child = side →
    division.Tracks side (division.FitsAnswer side) (infer child) (other child))

include visits

protected theorem optionalArgument {name : String} {value : NodeId}
    (valueWithin : division.inside value = side) :
    division.Tracks side (division.FitsAnswer side) (optionalArgument setting infer id name value)
      (optionalArgument setting other id name value) := by
  refine Tracks.inScope within fun scope scopeSide =>
    (Tracks.locationOf within).bind fun _ =>
      (Tracks.declaredType? scripted within).bind fun {declared} declaredFits =>
        (visits value valueWithin).bind fun {answer} valueFits => ?_
  cases answer with
  | none => exact .pure nofun
  | some valueType =>
      cases declared with
      | none => exact Tracks.answerLocal scopeSide (valueFits valueType rfl)
      | some declared =>
          have fits := declaredFits declared rfl
          refine (Tracks.isParent fits (valueFits valueType rfl)).bind fun {accepted} _ => ?_
          cases accepted with
          | true => exact Tracks.answerLocal scopeSide fits
          | false => exact fun _ _ _ => .fail _

end Parameters

section Lists

variable {infer other : NodeId → Infer σ (Option Ty)}
  (visits : ∀ child, division.inside child = side →
    division.Tracks side (division.FitsAnswer side) (infer child) (other child))
  (within : division.inside id = side)

include visits within

protected theorem arguments :
    division.Tracks side (division.FitsAnswers side) (arguments infer id) (arguments other id) := by
  intro whole part mirrors
  refine .getFacts ?_
  rw [mirrors.seen_argumentTypes? within]
  cases known : whole.facts.argumentTypes? id with
  | some types =>
      refine .pure mirrors ?_
      rintro _ ⟨⟩ ty member
      exact within ▸ mirrors.facts.arguments id types known ty member
  | none =>
      refine .ofArena (·.argumentsOf id) mirrors
        (fun inside => Arena.argumentsOf_only_of_inside (within.trans inside)) fun list given => ?_
      obtain ⟨node, present, kind⟩ := Arena.argumentsOf_ok given
      have typed : ∀ argument ∈ list.typed, division.inside argument = side :=
        fun argument member =>
          (division.separates.depends ⟨node, present, kind ▸ member⟩).trans within
      refine (Tracks.all visits typed _ _ mirrors).bind fun {answer} fits => ?_
      cases answer with
      | none => exact .pure nofun
      | some types =>
          intro whole part mirrors
          have kept := mirrors.facts.setArgumentTypes id (within ▸ fits types rfl)
          rw [within] at kept
          exact Follows.bind (.modifyFacts mirrors kept trivial) fun {_} (_ : True) => .pure fits

protected theorem argumentList :
    division.Tracks side (division.FitsAnswers side) (argumentList infer id)
      (argumentList other id) := by
  refine (visits id within).bind fun {answer} _ => ?_
  cases answer with
  | none => exact .pure nofun
  | some _ =>
      intro whole part mirrors
      refine .getFacts ?_
      rw [mirrors.seen_argumentTypes? within]
      exact .pure mirrors fun types known ty member =>
        within ▸ mirrors.facts.arguments id types known ty member

end Lists

section Definitions

variable {method : Method NodeId} (defines : division.tree.method? id = some method)
  (within : division.inside id = side)

include defines within

protected theorem bindDelegateTarget {lexical : Ty} {location : Location}
    (lexicalFits : division.Fits side lexical) :
    division.Tracks side (fun _ => True)
      (bindDelegateTarget id method lexical location : Infer σ Bool)
      (bindDelegateTarget id method lexical location) := by
  intro whole part mirrors
  unfold Infer.bindDelegateTarget
  cases delegates : method.thisArgs with
  | none => exact .pure mirrors trivial
  | some thisArgs =>
      have argumentsWithin : ∀ argument ∈ thisArgs, division.inside argument = side := by
        intro argument member
        refine (inside_of_method? defines ?_).trans within
        simp [Kind.dependencies, delegates, member]
      have known : thisArgs.mapM (seen side whole part).facts.nodeType? =
          thisArgs.mapM whole.facts.nodeType? :=
        mapM_congr fun argument member => mirrors.seen_nodeType? (argumentsWithin argument member)
      refine .getFacts ?_
      rw [mirrors.seen_delegateTarget within, known]
      split
      · exact .pure mirrors trivial
      · cases typed : thisArgs.mapM whole.facts.nodeType? with
        | none => exact .pure mirrors trivial
        | some types =>
            have typesFit : ∀ ty ∈ types, division.Fits side ty := by
              intro ty member
              obtain ⟨argument, listed, kept⟩ := exists_of_mapM_some typed member
              exact argumentsWithin argument listed ▸ mirrors.facts.nodes argument ty kept
            refine (Tracks.findConstructor lexicalFits typesFit _ _ mirrors).bind
              fun {target} _ => ?_
            cases target with
            | none => exact .pure trivial
            | some target =>
                intro whole part mirrors
                have bound := mirrors.facts.bindDelegateTarget id target
                rw [within] at bound
                exact Follows.bind (.modifyFacts mirrors bound trivial)
                  fun {_} (_ : True) => .pure trivial

protected theorem delegateBound {lexical : Ty} {location : Location}
    (lexicalFits : division.Fits side lexical) :
    division.Tracks side (fun _ => True)
      (delegateBound id method lexical location : Infer σ Bool)
      (delegateBound id method lexical location) := by
  unfold Infer.delegateBound
  split
  · exact Tracks.bindDelegateTarget defines within lexicalFits
  · exact .pure trivial

section Publishing

variable {lexical : Ty} {signature : Signature} {parameters : List Ty} {bodyType : Ty}
  {location : Location} (defined : lexical.usesOnly division.known = side)
  (signatureFits : side = true → signature.UsesOnly division.known)
  (parametersFit : ∀ ty ∈ parameters, division.Fits side ty)
  (bodyFits : division.Fits side bodyType)

include signatureFits bodyFits

omit defines within in
theorem fits_effectiveReturn :
    division.Fits side (effectiveReturn signature.returnType bodyType) := by
  intro inside
  unfold effectiveReturn
  dsimp only
  split
  · rfl
  · cases declared : signature.returnType with
    | none => exact bodyFits inside
    | some ty => exact (signatureFits inside).returnType declared

include defined parametersFit

protected theorem learnPublished :
    division.Tracks side (fun _ => True)
      (learnPublished method lexical signature parameters bodyType location : Infer σ Unit)
      (learnPublished method lexical signature parameters bodyType location) := by
  intro whole part mirrors
  have argumentsSide := (inside_arguments defines).trans within
  refine .ofArena (·.argumentsOf method.arguments) mirrors
    (fun inside => Arena.argumentsOf_only_of_inside (argumentsSide.trans inside)) fun list _ => ?_
  refine Tracks.learnOverloads ?_ (fun inside => ⟨?_, ?_⟩) _ _ mirrors
  · unfold publishedMethod
    dsimp only
    split
    · exact defined
    · exact defined
  · exact fun ty member => parametersFit ty member inside
  · unfold publishedMethod
    dsimp only
    split
    · rfl
    · exact fits_effectiveReturn signatureFits bodyFits inside

protected theorem announce :
    division.Tracks side (fun _ => True)
      (announce id method lexical signature parameters bodyType location : Infer σ Unit)
      (announce id method lexical signature parameters bodyType location) := by
  intro whole part mirrors
  have published : division.Tracks side (fun _ => True)
      (Infer.learnPublished method lexical signature parameters bodyType location : Infer σ Unit)
      (Infer.learnPublished method lexical signature parameters bodyType location) :=
    Tracks.learnPublished defines within defined signatureFits parametersFit bodyFits
  refine .get ?_
  dsimp only
  rw [mirrors.facts.arena, mirrors.seen_tree (·.isAbstract id) fun inside =>
    division.separates.isAbstract_only division.climbs (within.trans inside) division.keyed]
  split
  · refine (Tracks.isParent (fits_effectiveReturn signatureFits bodyFits) bodyFits
      _ _ mirrors).bind fun {accepted} _ => ?_
    cases accepted with
    | false => exact fun _ _ _ => .fail _
    | true => exact published
  · exact published _ _ mirrors

protected theorem publish :
    division.Tracks side (division.Fits side)
      (publish id method lexical signature parameters bodyType location : Infer σ Ty)
      (publish id method lexical signature parameters bodyType location) := by
  have returnFits := fits_effectiveReturn signatureFits bodyFits
  rw [publish_eq]
  refine (Tracks.announce defines within defined signatureFits parametersFit bodyFits).bind
    fun _ => ?_
  intro whole part mirrors
  have filled := mirrors.facts.setReturnType id (within ▸ returnFits)
  rw [within] at filled
  exact Follows.bind (.modifyFacts mirrors filled trivial) fun {_} (_ : True) => .pure returnFits

end Publishing

variable (scripted : setting.scriptClass = division.scriptClass)
  {infer other : NodeId → Infer σ (Option Ty)}
  (visits : ∀ child, division.inside child = side →
    division.Tracks side (division.FitsAnswer side) (infer child) (other child))

include scripted visits

protected theorem methodInClass {lexical : Ty} {location : Location} {ready : Bool}
    (defined : lexical.usesOnly division.known = side) :
    division.Tracks side (division.FitsAnswer side)
      (methodInClass setting infer id method location ready lexical)
      (methodInClass setting other id method location ready lexical) := by
  have contentWithin : ∀ child ∈ method.body, division.inside child = side := by
    intro child member
    refine (inside_of_method? defines ?_).trans within
    simp [Kind.dependencies, Option.mem_def.mp member]
  refine (Tracks.signatureOf scripted within defines).bind fun signatureFits =>
    (Tracks.argumentList visits ((inside_arguments defines).trans within)).bind
      fun {parameters} parametersFit =>
        (Tracks.optional visits contentWithin).bind fun {bodyType} bodyFits => ?_
  split
  · rename_i types ty
    refine (Tracks.delegateBound defines within fun inside => defined.trans inside).bind
      fun {bound} _ => ?_
    cases bound with
    | false => exact .pure nofun
    | true =>
        exact (Tracks.publish defines within defined signatureFits (parametersFit types rfl)
          (bodyFits ty rfl)).bind fun fits => .pure (by rintro _ ⟨⟩; exact fits)
  · exact .pure nofun

omit scripted in
protected theorem delegationReady :
    division.Tracks side (fun _ => True) (delegationReady infer method)
      (delegationReady other method) := by
  have delegatesWithin : ∀ child ∈ method.thisArgs.getD [] ++ method.superArgs.getD [],
      division.inside child = side :=
    fun child member =>
      (inside_of_method? defines (List.mem_append_left _ member)).trans within
  exact (Tracks.all visits delegatesWithin).map fun _ => trivial

protected theorem methodDefinition :
    division.Tracks side (division.FitsAnswer side) (methodDefinition setting infer id method)
      (methodDefinition setting other id method) :=
  (Tracks.locationOf within).bind fun _ =>
    (Tracks.delegationReady defines within visits).bind fun _ =>
      (Tracks.bindDefiningClass scripted within).bind fun defined =>
        Tracks.methodInClass defines within scripted visits defined

end Definitions

/-- The rule of a node is followed when the visits to the nodes on its side are. -/
protected theorem rule (scripted : setting.scriptClass = division.scriptClass)
    (declines : setting.expander.Declines) {infer other : NodeId → Infer σ (Option Ty)}
    {node : Node} (present : division.tree.find? id = some node)
    (within : division.inside id = side)
    (visits : ∀ child, division.inside child = side →
      division.Tracks side (division.FitsAnswer side) (infer child) (other child)) :
    division.Tracks side (division.FitsAnswer side) (rule setting infer id node)
      (rule setting other id node) := by
  have below : ∀ child ∈ node.kind.dependencies, division.inside child = side :=
    fun child member => (division.separates.depends ⟨node, present, member⟩).trans within
  have declares : ∀ {name}, node.declaredName? division.scriptClass = some name →
      division.Fits side (.object name) :=
    fun declared inside => (division.declares present declared).trans (within.trans inside)
  have answers : ∀ {ty : Ty}, ty.usesOnly division.known = true →
      division.Tracks side (division.FitsAnswer side) (pure (some ty) : Infer σ (Option Ty))
        (pure (some ty)) :=
    fun isKnown => .pure (by rintro _ ⟨⟩ _; exact isKnown)
  unfold Infer.rule
  unfold Node.declaredName? at declares
  have spells := division.spells present
  cases kind : node.kind with
  | script _ content =>
      rw [kind] at below
      exact Tracks.optional visits (by simpa [Kind.dependencies, Kind.children] using below)
  | classDefinition name _ _ content =>
      rw [kind] at below declares
      exact (Tracks.optional visits
        (by simpa [Kind.dependencies, Kind.children] using below)).mapTo (declares rfl)
  | interfaceDeclaration name _ content =>
      rw [kind] at below declares
      exact (Tracks.optional visits
        (by simpa [Kind.dependencies, Kind.children] using below)).mapTo (declares rfl)
  | methodDefinition method =>
      refine Tracks.methodDefinition ?_ within scripted visits
      rw [Arena.method?, present]
      exact Kind.method?_eq_some_iff.mpr kind
  | arguments list => exact (Tracks.arguments visits within).mapTo fun _ => rfl
  | requiredArgument name => exact Tracks.requiredArgument scripted within
  | restArgument name => exact Tracks.requiredArgument scripted within
  | optionalArgument name value =>
      rw [kind] at below
      exact Tracks.optionalArgument scripted within visits
        (below value (by simp [Kind.dependencies, Kind.children]))
  | blockArgument name => exact fun _ _ _ => .fail _
  | block parameters content =>
      rw [kind] at below
      obtain ⟨parametersWithin, contentWithin⟩ := List.forall_mem_cons.mp below
      exact Tracks.block visits parametersWithin (by simpa using contentWithin)
  | body statements =>
      rw [kind] at below
      exact Tracks.body visits below
  | noop => exact answers rfl
  | fixnum _ => exact answers rfl
  | float _ => exact answers rfl
  | str _ => exact answers division.agrees.known_stringName
  | boolean _ => exact answers rfl
  | null => exact answers rfl
  | selfRef =>
      exact Tracks.withSelf scripted within fun receiver fits => .pure (by rintro _ ⟨⟩; exact fits)
  | localRead name => exact Tracks.localRead within
  | localAssignment name value =>
      rw [kind] at below
      exact Tracks.localAssignment visits within
        (below value (by simp [Kind.dependencies, Kind.children]))
  | functionalCall name parameters closure =>
      rw [kind] at below
      obtain ⟨parametersWithin, closureWithin⟩ := List.forall_mem_append.mp below
      exact Tracks.functionalCall within visits scripted declines parametersWithin
        (by simpa using closureWithin)
  | call target name parameters closure =>
      rw [kind] at below
      obtain ⟨targetWithin, others⟩ := List.forall_mem_cons.mp below
      obtain ⟨parametersWithin, closureWithin⟩ := List.forall_mem_append.mp others
      exact Tracks.call within visits declines targetWithin parametersWithin
        (by simpa using closureWithin)
  | superCall parameters =>
      rw [kind] at below
      exact (Tracks.all visits below).mapTo fun _ => rfl
  | constant name =>
      rw [kind] at spells
      have written : side = true → Catalog.Spells division.known name := fun inside =>
        spells (within.trans inside) name List.mem_cons_self
      intro whole part mirrors
      refine .get ?_
      rw [mirrors.seen_resolve written]
      refine .pure mirrors fun ty known inside => ?_
      obtain ⟨object, stands, rfl⟩ := Option.map_eq_some_iff.mp known
      rw [mirrors.catalog] at stands
      have isKnown := division.agrees.usesOnly_of_resolve (written inside) stands
      exact isKnown
  | ifElse condition thenBody elseBody =>
      rw [kind] at below
      obtain ⟨conditionWithin, others⟩ := List.forall_mem_cons.mp below
      obtain ⟨thenWithin, elseWithin⟩ := List.forall_mem_append.mp others
      exact Tracks.ifElse visits conditionWithin (by simpa using thenWithin)
        (by simpa using elseWithin)
  | returning value =>
      rw [kind] at below
      exact Tracks.optional visits (by simpa [Kind.dependencies, Kind.children] using below)
  | raise exception =>
      rw [kind] at below
      exact (visits exception (below exception (by simp [Kind.dependencies, Kind.children]))).mapTo
        fun _ => rfl

/-- Visits are followed whatever the bounds on their depth: the part runs out of fuel if its
bound is too small. -/
protected theorem node (scripted : setting.scriptClass = division.scriptClass)
    (declines : setting.expander.Declines) (bound fuel : Nat)
    (within : division.inside id = side) :
    division.Tracks side (division.FitsAnswer side) (node setting bound id)
      (node setting fuel id) := by
  induction bound generalizing fuel id with
  | zero => exact fun _ _ _ _ _ returned => absurd returned (by simp [Returns, Infer.node])
  | succ bound ih =>
      have deeper : ∀ fuel, division.Tracks side (division.FitsAnswer side)
          (node setting (bound + 1) id) (node setting (fuel + 1) id) := by
        intro fuel whole part mirrors
        refine .getFacts ?_
        rw [mirrors.seen_nodeType? within]
        have unexpanded : (seen side whole part).facts.expansionOf? id = none := by
          cases side with
          | false => exact congrArg (·.get? id) mirrors.facts.unexpanded
          | true => exact congrArg (·.get? id) mirrors.facts.ownUnexpanded
        rw [unexpanded, Facts.expansionOf?, mirrors.facts.unexpanded]
        cases known : whole.facts.nodeType? id with
        | some ty =>
            refine .pure mirrors ?_
            rintro _ ⟨⟩
            exact within ▸ mirrors.facts.nodes id ty known
        | none =>
            dsimp only
            rw [mirrors.facts.arena, mirrors.seen_tree (·.require id) fun inside =>
              Arena.require_only_of_inside (within.trans inside)]
            refine .ofTree fun found required => ?_
            exact (Tracks.rule scripted declines (Arena.find?_of_require required) within
              (fun child inside => ih fuel inside) _ _ mirrors).bind fun fits =>
                Tracks.remember within fits
      cases fuel with
      | succ fuel => exact deeper fuel
      | zero =>
          intro whole part mirrors value after returned
          have followed := deeper 0 whole part mirrors value after returned
          cases side with
          | false => exact followed
          | true => exact .inr rfl

end Tracks

end Division

end DeferredTyping
