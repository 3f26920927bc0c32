import DeferredTyping.Proofs.DeclaredParameters
import DeferredTyping.Proofs.Provenance

/-!
# A method does not clash with itself

A method definition may announce its method twice for each way of calling it: with the types that
it declares for its parameters, and with the types that these have in the end.  Both return the
same.  The latter accept the former, and the former are the more specific ones, so where both
compete for a call it is decided.  When no two definitions share a class and a name, and each
definition lists its own parameters, no run finds methods that do not go together.
-/

namespace DeferredTyping

variable {σ : Type}

open Infer

namespace Arena

/-- The method definition is published under this class and name. -/
def PublishesUnder (tree : Arena) (scriptClass : String) (id : NodeId) (definingClass : Ty)
    (name : String) : Prop :=
  ∃ method lexical, tree.method? id = some method ∧
    tree.lexicalClass scriptClass id = .ok lexical ∧
    definingClass = (if method.isStatic then lexical.toMeta else lexical) ∧ name = method.name

/-- No two method definitions are published under the same class and name. -/
def DefinesOnce (tree : Arena) (scriptClass : String) : Prop :=
  ∀ ⦃left right definingClass name⦄, tree.PublishesUnder scriptClass left definingClass name →
    tree.PublishesUnder scriptClass right definingClass name → left = right

/-- Whatever a method definition lists by a name as a parameter that takes a type belongs to it. -/
def ListsOwn (tree : Arena) : Prop :=
  ∀ ⦃owner method list id found name⦄, tree.method? owner = some method →
    tree.argumentsOf method.arguments = .ok list → id ∈ list.typed →
    tree.find? id = some found → found.kind.name? = some name →
      tree.owningMethod? id = .ok (some (owner, method))

/-- It is enough that no two method definitions have the same name. -/
theorem DefinesOnce.of_names
    {tree : Arena} (keyed : tree.Keyed)
    (names : ∀ left ∈ tree.methods, ∀ right ∈ tree.methods, left.2.name = right.2.name →
      left.1 = right.1) (scriptClass : String) :
    tree.DefinesOnce scriptClass := by
  rintro left right _ _ ⟨one, _, defines, _, _, rfl⟩ ⟨other, _, also, _, _, same⟩
  exact names (left, one) (keyed.mem_methods_iff.mpr defines) (right, other)
    (keyed.mem_methods_iff.mpr also) same

theorem name?_of_argumentNames
    {tree : Arena} {list : ArgumentList NodeId} {names : List String}
    (named : tree.argumentNames list = .ok names) :
    List.Forall₂ (fun id name => ∃ found, tree.find? id = some found ∧
      found.kind.name? = some name) list.typed names := by
  unfold argumentNames at named
  generalize list.typed = ids at named
  induction ids generalizing names with
  | nil =>
      cases named
      exact .nil
  | cons id rest ih =>
      rw [List.mapM_cons] at named
      obtain ⟨name, first, others⟩ := exists_of_bind_eq_ok named
      obtain ⟨later, followed, same⟩ := exists_of_bind_eq_ok others
      cases same
      obtain ⟨found, present, written⟩ := exists_of_bind_eq_ok first
      refine .cons ⟨found, find?_of_require present, ?_⟩ (ih followed)
      split at written
      · rename_i known
        cases written
        exact known
      · cases written

end Arena

namespace Header

variable {scriptClass : String} {tree : Arena} {classes : Catalog} {header : Header} {id : NodeId}

theorem Heads.publishesUnder (heads : header.Heads scriptClass tree classes id) :
    tree.PublishesUnder scriptClass id header.definingClass header.method.name :=
  ⟨header.method, header.lexical, heads.defines, heads.stands, rfl, rfl⟩

/-- Definitions that are published under one class and name are one, and so are their headers. -/
theorem Heads.eq_of_published
    {other : Header} {also : NodeId} (once : tree.DefinesOnce scriptClass)
    (heads : header.Heads scriptClass tree classes id)
    (reads : other.Heads scriptClass tree classes also)
    (sameClass : other.definingClass = header.definingClass)
    (sameName : other.method.name = header.method.name) :
    other = header := by
  have published := reads.publishesUnder
  rw [sameClass, sameName] at published
  obtain rfl := once published heads.publishesUnder
  exact reads.unique heads

end Header

theorem Arena.isArgument_of_owningMethod?
    {tree : Arena} {id : NodeId} {found : Node} {owner : Option (NodeId × Method NodeId)}
    (present : tree.find? id = some found) (owns : tree.owningMethod? id = .ok owner) :
    found.kind.isArgument = true := by
  unfold owningMethod? at owns
  rw [require_of_find? present] at owns
  cases isArgument : found.kind.isArgument with
  | true => rfl
  | false =>
      simp only [bind, Except.bind, isArgument] at owns
      cases owns

/-- Parameters accept what is declared for them, and block arguments have no types; the signature
of a method definition has the types that it declares. -/
def acceptingJudgement (tree : Arena) (classes : Catalog) : Judgement σ where
  context session := ∀ ⦃id method declared⦄, tree.method? id = some method →
    classes.resolveSignature method.declared = .ok declared →
      ∃ signature, session.facts.signature? id = some signature ∧
        signature.parameters = declared.parameters
  holds id ty facts := (declaredJudgement classes : Judgement σ).holds id ty facts ∧
    ∀ ⦃found⦄, facts.arena.find? id = some found → found.kind.isBlockArgument = false

theorem acceptingJudgement_established
    {setting : Setting σ} (declines : setting.expander.Declines) (tree : Arena)
    (classes : Catalog) :
    (acceptingJudgement tree classes : Judgement σ).Established setting tree classes where
  context extended _ known := by
    intro id method declared defines resolved
    obtain ⟨signature, signed, same⟩ := known defines resolved
    obtain ⟨later, still, parameters, _⟩ := extended.facts.signatures signed
    exact ⟨later, still, parameters.trans same⟩
  later later holds := by
    refine ⟨(declaredJudgement_established declines tree classes).later later holds.1, ?_⟩
    rw [later.arena]
    exact holds.2
  rule {fuel id found ty before after} regular _ unknown present intact returned := by
    refine ⟨(declaredJudgement_established declines tree classes).rule regular trivial unknown
      present intact returned, ?_⟩
    intro other stored
    obtain rfl := intact.eq_of_noted present stored
    unfold rule at returned
    cases kind : other.kind with
    | blockArgument name =>
        rw [kind] at returned
        exact absurd returned returns_fail
    | _ => rfl

theorem acceptingJudgement_onFacts (tree : Arena) (classes : Catalog) :
    (acceptingJudgement tree classes : Judgement σ).OnFacts := by
  intro before after same known id method declared defines resolved
  rw [same]
  exact known defines resolved

namespace Session.Judged

variable {scriptClass : String} {tree : Arena} {classes : Catalog} {header : Header} {id : NodeId}
  {session : Session σ} (judged : session.Judged tree classes (acceptingJudgement tree classes))
  (heads : header.Heads scriptClass tree classes id)

include judged heads

/-- A parameter that a definition lists accepts the type that is declared for its name. -/
theorem isParent_of_listed
    (own : tree.ListsOwn) {child : NodeId} (listed : child ∈ header.list.typed) {ty : Ty}
    (typed : session.facts.nodeType? child = some ty) {found : Node} {name : String}
    (present : tree.find? child = some found) (named : found.kind.name? = some name)
    {declared : Ty} (declares : header.signature.parameter? name = some declared) :
    classes.isParent ty declared = true := by
  have owns := own heads.defines heads.lists listed present named
  have isArgument := Arena.isArgument_of_owningMethod? present owns
  obtain ⟨accepts, structural⟩ := judged.holds typed
  rw [← judged.arena] at present owns
  have parameter : found.kind.parameter? = some name := by
    have other := structural present
    cases kind : found.kind with
    | requiredArgument _ | optionalArgument _ _ | restArgument _ =>
        rw [kind] at named
        exact named
    | blockArgument _ =>
        rw [kind] at other
        cases other
    | _ =>
        rw [kind] at isArgument
        cases isArgument
  obtain ⟨signature, stored, accepted⟩ := accepts present parameter owns
  obtain ⟨also, known, same⟩ := judged.context heads.defines heads.resolves
  obtain rfl := Option.some.inj (stored.symm.trans known)
  apply accepted
  rw [Signature.parameter?, same]
  exact declares

/-- The types that parameters have accept the declared ones, one for one. -/
theorem takesEach_declared
    (own : tree.ListsOwn) {names : List String} {declared inferred : List Ty}
    (named : session.facts.arena.argumentNames header.list = .ok names)
    (declares : names.mapM header.signature.parameter? = some declared)
    (known : session.facts.argumentTypes? header.method.arguments = some inferred) :
    Assignable.TakesEach classes.isParent inferred declared := by
  have types := judged.types_of_argumentTypes? known (judged.arena ▸ heads.lists)
  rw [judged.arena] at named
  have accepts : ∀ child ∈ header.list.typed, ∀ ty, session.facts.nodeType? child = some ty →
      ∀ found name, tree.find? child = some found → found.kind.name? = some name →
      ∀ expected, header.signature.parameter? name = some expected →
        classes.isParent ty expected = true :=
    fun _ listed _ typed _ _ present written _ => judged.isParent_of_listed heads own listed typed
      present written
  have called := Arena.name?_of_argumentNames named
  clear named known
  generalize header.list.typed = ids at accepts called types
  induction called generalizing declared inferred with
  | nil =>
      cases types
      cases declares
      exact .nil
  | @cons child name children names written _ ih =>
      rw [List.mapM_cons] at types declares
      obtain ⟨ty, typed, later⟩ := Option.bind_eq_some_iff.mp types
      obtain ⟨others, listed, same⟩ := Option.bind_eq_some_iff.mp later
      cases same
      obtain ⟨expected, given, rest⟩ := Option.bind_eq_some_iff.mp declares
      obtain ⟨declared, followed, same⟩ := Option.bind_eq_some_iff.mp rest
      cases same
      obtain ⟨found, present, written⟩ := written
      refine .cons ?_ (ih followed (fun child member =>
        accepts child (List.mem_cons_of_mem _ member)) listed)
      exact accepts child List.mem_cons_self ty typed found name present written expected given

theorem length_of_mayTake
    {types : List Ty} (takes : session.facts.MayTake header types) :
    types.length = header.list.typed.length := by
  cases takes with
  | declared named declares =>
      exact (length_of_mapM_some declares).trans (length_of_mapM_ok named)
  | inferred known =>
      exact length_of_mapM_some
        (judged.types_of_argumentTypes? known (judged.arena ▸ heads.lists))

end Session.Judged

/-- When types take others one for one, so do their parts for calls with equally many arguments. -/
theorem ArgumentLayout.takesEach_of_callShapes
    {isParent : Assignable} {list : ArgumentList NodeId} {wide narrow one other : List Ty}
    (takes : isParent.TakesEach wide narrow) (counted : wide.length = list.typed.length)
    (left : one ∈ (ArgumentLayout.ofArguments list).callShapes wide)
    (right : other ∈ (ArgumentLayout.ofArguments list).callShapes narrow)
    (same : one.length = other.length) :
    isParent.TakesEach one other := by
  obtain ⟨given, _, bound, rfl⟩ := mem_callShapes_iff.mp left
  obtain ⟨also, _, limit, rfl⟩ := mem_callShapes_iff.mp right
  have length : wide.length = narrow.length := takes.length_eq
  have enough : list.required.length + list.optional.length ≤ wide.length := by
    rw [counted, ArgumentLayout.length_typed]
    exact Nat.le_add_right _ _
  have equal : given = also := by
    simp only [List.length_append, List.length_take, List.length_drop] at same
    omega
  subst equal
  exact List.rel_append (List.forall₂_take given takes) (List.forall₂_drop _ takes)

section

variable {scriptClass : String} {tree : Arena} {classes : Catalog} {session : Session σ}
  (once : tree.DefinesOnce scriptClass) (sourced : session.Sourced scriptClass tree classes)

include once sourced

/-- What is announced under one class and name is announced by one definition. -/
theorem Header.Heads.announces
    {header : Header} {id : NodeId} (heads : header.Heads scriptClass tree classes id)
    {entry : MethodType} (member : entry ∈ session.facts.methods.entries)
    (sameClass : entry.definingClass = header.definingClass)
    (sameName : entry.name = header.method.name) :
    session.facts.Announces header entry := by
  obtain ⟨also, other, reads, published⟩ := sourced.sourced member
  have same := heads.eq_of_published once reads (published.definingClass.symm.trans sameClass)
    (published.name.symm.trans sameName)
  exact same ▸ published

/-- A definition announces no other return type than before. -/
theorem Header.Heads.learn_ne_error
    {header : Header} {id : NodeId} (heads : header.Heads scriptClass tree classes id)
    {method : MethodType} (announces : session.facts.Announces header method)
    (existing : MethodType) :
    session.facts.methods.learn method ≠ .error existing := by
  intro refused
  have ended := session.facts.methods.learning method
  rw [refused] at ended
  cases ended with
  | refused found otherReturn =>
      obtain ⟨member, sameClass, sameName, _⟩ := MethodTable.sameKey_of_findExact? found
      have published := heads.announces once sourced member
        (sameClass.trans announces.definingClass) (sameName.trans announces.name)
      exact otherReturn (published.returns.unique announces.returns)

/-- Among competitors that one definition announces, one with declared types wins, and else they
all have the types that the parameters have in the end. -/
theorem Session.Judged.not_ambiguous
    (judged : session.Judged tree classes (acceptingJudgement tree classes))
    (own : tree.ListsOwn) {definingClass : Ty} {name : String} {arguments : List Ty} :
    ¬ Overloads.Means session.catalog.isParent
      (session.facts.methods.overloads definingClass name) arguments .ambiguous := by
  intro ambiguous
  obtain ⟨⟨first, competes⟩, unbeaten⟩ := Overloads.means_ambiguous_iff.mp ambiguous
  obtain ⟨member, firstClass, firstName⟩ := MethodTable.mem_overloads_iff.mp competes.1
  obtain ⟨id, header, heads, published⟩ := sourced.sourced member
  have announced : ∀ method, Overloads.Competes session.catalog.isParent
      (session.facts.methods.overloads definingClass name) arguments method →
        session.facts.Announces header method := by
    intro method competing
    obtain ⟨listed, sameClass, sameName⟩ := MethodTable.mem_overloads_iff.mp competing.1
    exact heads.announces once sourced listed
      (sameClass.trans (firstClass.symm.trans published.definingClass))
      (sameName.trans (firstName.symm.trans published.name))
  by_cases declared : ∃ winner names types, Overloads.Competes session.catalog.isParent
      (session.facts.methods.overloads definingClass name) arguments winner ∧
      session.facts.arena.argumentNames header.list = .ok names ∧
      names.mapM header.signature.parameter? = some types ∧
      winner.parameters ∈ (ArgumentLayout.ofArguments header.list).callShapes types
  · obtain ⟨winner, names, types, competing, named, declares, way⟩ := declared
    refine unbeaten winner ⟨competing, fun other rival => ?_⟩
    obtain ⟨others, takes, shape⟩ := (announced other rival).parameters
    refine ArgumentLayout.takesEach_of_callShapes ?_ (judged.length_of_mayTake heads takes) shape
      way (rival.length_eq competing)
    cases takes with
    | declared also likewise =>
        cases named.symm.trans also
        cases declares.symm.trans likewise
        exact .refl session.catalog.isParent_refl _
    | inferred known =>
        rw [judged.catalog]
        exact judged.takesEach_declared heads own named declares known
  · push Not at declared
    refine unbeaten first ⟨competes, fun other rival => ?_⟩
    obtain ⟨types, takes, way⟩ := published.parameters
    obtain ⟨others, given, shape⟩ := (announced other rival).parameters
    refine ArgumentLayout.takesEach_of_callShapes ?_ (judged.length_of_mayTake heads given) shape
      way (rival.length_eq competes)
    cases takes with
    | declared named declares => exact absurd way (declared first _ _ competes named declares)
    | inferred known =>
        cases given with
        | declared named declares => exact absurd shape (declared other _ _ rival named declares)
        | inferred also =>
            cases known.symm.trans also
            exact .refl session.catalog.isParent_refl _

end

/-- Definitions that are published once and list their own parameters cause no clash. -/
theorem Tolerates.ofCalm
    {scriptClass : String} {tree : Arena} (once : tree.DefinesOnce scriptClass)
    (own : tree.ListsOwn) (classes : Catalog) :
    Tolerates scriptClass tree classes (acceptingJudgement tree classes : Judgement σ)
      fun stop => stop.isClash = false where
  calm calm := calm
  conflicting sourced heads announces refused :=
    absurd refused (heads.learn_ne_error once sourced announces _)
  ambiguous judged sourced means := absurd means (judged.not_ambiguous once sourced own)

namespace Typer

variable {typer : Typer σ} {arena : Arena}

/-- Without macros, when no two method definitions are published under the same class and name and
each lists its own parameters, the run of a fresh typer over all trees does not end for a method
with two return types, nor for a call that is ambiguous. -/
theorem methods_do_not_clash_with_themselves
    (declines : typer.expander.Declines) (keyed : arena.Keyed)
    (once : arena.DefinesOnce typer.config.scriptClass) (own : arena.ListsOwn)
    (catalog : Catalog) (state : σ) :
    (∀ definingClass name existing found location,
      (typer.inferTypes.run (start arena catalog state)).1 ≠
        .error (.failed (.conflictingMethod definingClass name existing found location))) ∧
    ∀ definingClass name arguments location,
      (typer.inferTypes.run (start arena catalog state)).1 ≠
        .error (.failed (.ambiguousMethod definingClass name arguments location)) := by
  have context : ∀ {registered : Session σ}, registered.Regular arena (arena.declare catalog) →
      (∀ id, registered.facts.nodeType? id = none) →
        (acceptingJudgement arena (arena.declare catalog)).context registered := by
    intro registered regular untyped id method declared defines resolved
    obtain ⟨other, signature, resolves, signed, unfilled⟩ := regular.signed defines
    cases resolved.symm.trans resolves
    exact ⟨signature, signed, congrArg Signature.parameters (unfilled (untyped id))⟩
  have calm : UpholdsFrom (start arena catalog state)
      (Session.Sourced typer.setting.scriptClass arena (arena.declare catalog))
      (fun stop => stop.isClash = false) typer.inferTypes :=
    inferTypes_sourced (.ofCalm once own _) (acceptingJudgement_established declines arena _)
      (acceptingJudgement_onFacts arena _) context keyed declines
  constructor
  · intro definingClass name existing found location stopped
    cases calm.2 stopped
  · intro definingClass name arguments location stopped
    cases calm.2 stopped

/-- A method whose second parameter is declared as one kind of number and assigned another one in
the default value of the first, and a call that both may take. -/
def narrowerThanAssigned : Arena where
  nodes := ⟨[
    (1, { id := 1, parent := none, location := {}, kind := .script "" (some 2) }),
    (2, { id := 2, parent := some 1, location := {}, kind := .body [3, 11] }),
    (3, { id := 3, parent := some 2, location := {},
          kind := .methodDefinition {
            name := "f", arguments := 4, body := some 10
            declared := { parameters := [("a", "double"), ("x", "int")]
                          returns := some "int" } } }),
    (4, { id := 4, parent := some 3, location := {},
          kind := .arguments { optional := [5, 8] } }),
    (5, { id := 5, parent := some 4, location := {}, kind := .optionalArgument "a" 6 }),
    (6, { id := 6, parent := some 5, location := {}, kind := .localAssignment "x" 7 }),
    (7, { id := 7, parent := some 6, location := {}, kind := .float ⟨15, 1⟩ }),
    (8, { id := 8, parent := some 4, location := {}, kind := .optionalArgument "x" 9 }),
    (9, { id := 9, parent := some 8, location := {}, kind := .fixnum 1 }),
    (10, { id := 10, parent := some 3, location := {}, kind := .fixnum 1 }),
    (11, { id := 11, parent := some 2, location := {},
           kind := .functionalCall "f" [12, 13] none }),
    (12, { id := 12, parent := some 11, location := {}, kind := .fixnum 1 }),
    (13, { id := 13, parent := some 11, location := {}, kind := .fixnum 1 })]⟩
  nextId := 14

theorem methods_do_not_clash_with_themselves_of_narrowerThanAssigned :
    plain.expander.Declines ∧ narrowerThanAssigned.Keyed ∧
      narrowerThanAssigned.DefinesOnce plain.config.scriptClass ∧ narrowerThanAssigned.ListsOwn ∧
      (plain.inferTypes.run (start narrowerThanAssigned .builtin ())).2.facts.methods.entries.map
        MethodType.parameters =
          [[], [.primitive .double], [.primitive .double, .int],
            [.primitive .double, .primitive .double]] ∧
      ∀ definingClass name arguments location,
        (plain.inferTypes.run (start narrowerThanAssigned .builtin ())).1 ≠
          .error (.failed (.ambiguousMethod definingClass name arguments location)) := by
  have keyed : narrowerThanAssigned.Keyed := ⟨by decide, by decide⟩
  have once : narrowerThanAssigned.DefinesOnce plain.config.scriptClass :=
    .of_names keyed (by decide) _
  have own : narrowerThanAssigned.ListsOwn := by
    intro owner method list id found name defines lists listed _ _
    have member : (owner, method) ∈ narrowerThanAssigned.methods :=
      keyed.mem_methods_iff.mpr defines
    obtain ⟨rfl, rfl⟩ := Prod.mk.inj (List.mem_singleton.mp member)
    cases lists
    rcases List.mem_cons.mp listed with rfl | last
    · decide
    · obtain rfl := List.mem_singleton.mp last
      decide
  obtain ⟨_, unambiguous⟩ :=
    methods_do_not_clash_with_themselves plain_declines keyed once own .builtin ()
  exact ⟨plain_declines, keyed, once, own, by decide +kernel, unambiguous⟩

/-- Two methods that list the same parameters, for which they declare different types, and a call
of the second one. -/
def sharedParameters : Arena where
  nodes := ⟨[
    (1, { id := 1, parent := none, location := {}, kind := .script "" (some 2) }),
    (2, { id := 2, parent := some 1, location := {}, kind := .body [3, 8, 10] }),
    (3, { id := 3, parent := some 2, location := {},
          kind := .methodDefinition {
            name := "f", arguments := 4, body := some 7
            declared := { parameters := [("a", "String"), ("b", "Object")]
                          returns := some "int" } } }),
    (4, { id := 4, parent := some 3, location := {}, kind := .arguments { required := [5, 6] } }),
    (5, { id := 5, parent := some 4, location := {}, kind := .requiredArgument "a" }),
    (6, { id := 6, parent := some 4, location := {}, kind := .requiredArgument "b" }),
    (7, { id := 7, parent := some 3, location := {}, kind := .fixnum 1 }),
    (8, { id := 8, parent := some 2, location := {},
          kind := .methodDefinition {
            name := "g", arguments := 4, body := some 9
            declared := { parameters := [("a", "Object"), ("b", "String")]
                          returns := some "int" } } }),
    (9, { id := 9, parent := some 8, location := {}, kind := .fixnum 2 }),
    (10, { id := 10, parent := some 2, location := {},
           kind := .functionalCall "g" [11, 12] none }),
    (11, { id := 11, parent := some 10, location := {}, kind := .str "a" }),
    (12, { id := 12, parent := some 10, location := {}, kind := .str "b" })]⟩
  nextId := 13

/-- The call of the second method is ambiguous, though no two definitions share a name. -/
theorem methods_with_shared_parameters_may_clash :
    plain.expander.Declines ∧ sharedParameters.Keyed ∧
      sharedParameters.DefinesOnce plain.config.scriptClass ∧
      (∀ parent ∈ Catalog.builtin.parentNames objectName, parent = objectName) ∧
      (plain.inferTypes.run (start sharedParameters .builtin ())).1 =
        .error (.failed (.ambiguousMethod (Ty.object "Script").toMeta "g"
          [.object stringName, .object stringName] {})) := by
  have keyed : sharedParameters.Keyed := ⟨by decide, by decide⟩
  exact ⟨plain_declines, keyed, .of_names keyed (by decide) _, by decide +kernel,
    by decide +kernel⟩

end Typer

end DeferredTyping
