import DeferredTyping.Proofs.Namespaces

/-!
# A session and its part

A division splits a tree in two sides without a link between them, such that the names
declared outside mean nothing inside.  Typing the whole tree is compared with typing the
inside alone: the facts of the part mirror those of the whole when they say the same of the
nodes inside and keep the methods of the classes that are known there.  Every write to the
facts of the whole keeps the mirror, when the part makes the same write on the inside and
none on the outside.
-/

namespace DeferredTyping

variable {σ : Type}

/-- The tables keep the same for the ids inside. -/
def Table.AgreesOn {ν : Type} (inside : NodeId → Bool) (whole part : Table NodeId ν) : Prop :=
  ∀ id, inside id = true → part.get? id = whole.get? id

namespace Table.AgreesOn

variable {ν : Type} {inside : NodeId → Bool} {whole part : Table NodeId ν}

theorem refl (table : Table NodeId ν) : table.AgreesOn inside table :=
  fun _ _ => rfl

theorem insert (agrees : whole.AgreesOn inside part) (id : NodeId) (value : ν) :
    (whole.insert id value).AgreesOn inside (part.insert id value) := by
  intro other within
  by_cases same : other = id
  · rw [same, get?_insert_self, get?_insert_self]
  · rw [get?_insert_of_ne _ same, get?_insert_of_ne _ same, agrees other within]

theorem insert_outside (agrees : whole.AgreesOn inside part) {id : NodeId}
    (outside : ¬ inside id = true) (value : ν) :
    (whole.insert id value).AgreesOn inside part := by
  intro other within
  have different : other ≠ id := by
    rintro rfl
    exact outside within
  rw [get?_insert_of_ne _ different, agrees other within]

theorem insertIfNew (agrees : whole.AgreesOn inside part) {id : NodeId}
    (within : inside id = true) (value : ν) :
    (whole.insertIfNew id value).AgreesOn inside (part.insertIfNew id value) := by
  rw [Table.insertIfNew, Table.insertIfNew, contains, contains, agrees id within]
  split
  · exact agrees
  · exact agrees.insert id value

theorem insertIfNew_outside (agrees : whole.AgreesOn inside part) {id : NodeId}
    (outside : ¬ inside id = true) (value : ν) :
    (whole.insertIfNew id value).AgreesOn inside part := by
  rw [Table.insertIfNew]
  split
  · exact agrees
  · exact agrees.insert_outside outside value

end Table.AgreesOn

/-- Every entry of a table has the property. -/
def Table.Satisfies {κ ν : Type} [DecidableEq κ] (table : Table κ ν) (property : κ → ν → Prop) :
    Prop :=
  ∀ key value, table.get? key = some value → property key value

namespace Table.Satisfies

variable {κ ν : Type} [DecidableEq κ] [LT κ] [DecidableLT κ] {table : Table κ ν}
  {property : κ → ν → Prop} (satisfies : table.Satisfies property) {key : κ} {value : ν}
  (holds : property key value)

include satisfies holds

theorem insert : (table.insert key value).Satisfies property := by
  intro other found present
  rcases get?_insert_eq_some present with ⟨rfl, rfl⟩ | ⟨_, before⟩
  · exact holds
  · exact satisfies other found before

theorem insertIfNew : (table.insertIfNew key value).Satisfies property := by
  unfold Table.insertIfNew
  split
  · exact satisfies
  · exact satisfies.insert holds

end Table.Satisfies

/-- The names of types that a node writes. -/
def Kind.texts {α : Type} : Kind α → List String
  | .classDefinition _ superclass interfaces _ => superclass.toList ++ interfaces
  | .interfaceDeclaration _ interfaces _ => interfaces
  | .methodDefinition method => method.declared.texts
  | .constant name => [name]
  | _ => []

/-- The name of the script, class or interface that a node declares. -/
def Node.declaredName? (scriptClass : String) (node : Node) : Option String :=
  match node.kind with
  | .script name _ => some (if name.isEmpty then scriptClass else name)
  | .classDefinition name _ _ _ => some name
  | .interfaceDeclaration name _ _ => some name
  | _ => none

/-- The type of `self` is the class that a node of the lineage declares. -/
theorem declaredName?_of_selfTypeFrom?
    {scriptClass : String} {isStatic : Bool} {nodes : List Node} {ty : Ty}
    (found : selfTypeFrom? scriptClass isStatic nodes = some ty) :
    ∃ node ∈ nodes, ∃ name, node.declaredName? scriptClass = some name ∧
      ty.shape = .object name := by
  induction nodes generalizing isStatic with
  | nil => cases found
  | cons node outer ih =>
      have further : ∀ {flag}, selfTypeFrom? scriptClass flag outer = some ty →
          ∃ node' ∈ node :: outer, ∃ name, node'.declaredName? scriptClass = some name ∧
            ty.shape = .object name := by
        intro flag later
        obtain ⟨above, member, declares⟩ := ih later
        exact ⟨above, List.mem_cons_of_mem node member, declares⟩
      rw [selfTypeFrom?] at found
      split at found
      · exact further found
      · rename_i name _ _ _ kind
        cases found
        refine ⟨node, List.mem_cons_self, name, by rw [Node.declaredName?, kind], ?_⟩
        split <;> rfl
      · rename_i name _ _ kind
        cases found
        refine ⟨node, List.mem_cons_self, name, by rw [Node.declaredName?, kind], ?_⟩
        split <;> rfl
      · rename_i name _ kind
        cases found
        exact ⟨node, List.mem_cons_self, _, by rw [Node.declaredName?, kind], rfl⟩
      · exact further found

/-- A tree with two sides.  No link leads from one to the other, and names that are
declared outside are not known inside, where the catalogue of the whole tree and the one
of the inside alone agree. -/
structure Division where
  scriptClass : String
  tree : Arena
  inside : NodeId → Bool
  known : String → Bool
  classes : Catalog
  ownClasses : Catalog
  keyed : tree.Keyed
  climbs : tree.Climbs
  separates : tree.Separates inside
  declares : ∀ {id node name}, tree.find? id = some node →
    node.declaredName? scriptClass = some name → known name = inside id
  spells : ∀ {id node}, tree.find? id = some node → inside id = true →
    ∀ text ∈ node.kind.texts, Catalog.Spells known text
  agrees : Catalog.Agrees known classes ownClasses
  knows : classes.KnowsBuiltins
  ownKnows : ownClasses.KnowsBuiltins

namespace Division

variable (division : Division)

/-- The tree of the part. -/
def own : Arena := division.tree.only division.inside

/-- A type that is found on the inside is over known names. -/
def Fits (side : Bool) (ty : Ty) : Prop :=
  side = true → ty.usesOnly division.known = true

/-- The class that encloses a node is known exactly on the inside. -/
theorem usesOnly_of_selfType
    {id : NodeId} {ty : Ty} (found : division.tree.selfType division.scriptClass id = .ok ty) :
    ty.usesOnly division.known = division.inside id := by
  unfold Arena.selfType at found
  cases required : division.tree.require id with
  | error cause =>
      rw [required] at found
      cases found
  | ok _ =>
      cases decides : selfTypeFrom? division.scriptClass false (division.tree.lineage id) with
      | none =>
          rw [required, decides] at found
          cases found
      | some self =>
          rw [required, decides] at found
          cases found
          obtain ⟨node, member, name, declared, shape⟩ := declaredName?_of_selfTypeFrom? decides
          obtain ⟨side, present⟩ := division.separates.mem_lineage division.keyed member
          rw [Ty.usesOnly_of_shape shape, division.declares present declared, side]

theorem usesOnly_of_lexicalClass
    {id : NodeId} {ty : Ty}
    (found : division.tree.lexicalClass division.scriptClass id = .ok ty) :
    ty.usesOnly division.known = division.inside id := by
  unfold Arena.lexicalClass at found
  split at found
  · rename_i parent above
    rw [division.usesOnly_of_selfType found, division.separates.parent above]
  · cases found

/-- What is known of the whole tree: on the inside, all types are over known names. -/
structure Sound (facts : Facts) : Prop where
  arena : facts.arena = division.tree
  unexpanded : facts.expansions = {}
  nodes : facts.nodeTypes.Satisfies fun id ty => division.Fits (division.inside id) ty
  arguments : facts.argumentTypes.Satisfies fun id types =>
    ∀ ty ∈ types, division.Fits (division.inside id) ty
  locals : ∀ {scope name ty}, facts.scopes.own? scope name = some ty →
    division.Fits (division.inside scope) ty
  signatures : facts.signatures.signatures.Satisfies fun id signature =>
    division.inside id = true → signature.UsesOnly division.known
  /-- The class of a method definition tells its side. -/
  sides : facts.definingClasses.Satisfies fun id lexical =>
    lexical.usesOnly division.known = division.inside id
  methods : ∀ method ∈ facts.methods.entries,
    method.definingClass.usesOnly division.known = true → method.UsesOnly division.known

/-- The facts of the part are those of the whole about the inside. -/
structure FactsMirror (whole part : Facts) : Prop extends division.Sound whole where
  ownArena : part.arena = division.own
  ownUnexpanded : part.expansions = {}
  nodeTypes : whole.nodeTypes.AgreesOn division.inside part.nodeTypes
  argumentTypes : whole.argumentTypes.AgreesOn division.inside part.argumentTypes
  bindings : whole.scopes.bindings.AgreesOn division.inside part.scopes.bindings
  signatureTables :
    whole.signatures.signatures.AgreesOn division.inside part.signatures.signatures
  definingClasses : whole.definingClasses.AgreesOn division.inside part.definingClasses
  delegateTargets : whole.delegateTargets.AgreesOn division.inside part.delegateTargets
  methodTables : MethodTable.Only division.known whole.methods part.methods

namespace FactsMirror

variable {division : Division} {whole part : Facts} (mirror : division.FactsMirror whole part)
  {id : NodeId}

include mirror

theorem setNodeType {ty : Ty} (fits : division.Fits (division.inside id) ty) :
    division.FactsMirror (whole.setNodeType id ty)
      (if division.inside id then part.setNodeType id ty else part) := by
  have nodes := mirror.nodes.insertIfNew fits
  split
  · rename_i within
    exact { mirror with nodes, nodeTypes := mirror.nodeTypes.insertIfNew within ty }
  · rename_i outside
    exact { mirror with nodes, nodeTypes := mirror.nodeTypes.insertIfNew_outside outside ty }

variable (id) in
theorem setArgumentTypes {types : List Ty}
    (fits : ∀ ty ∈ types, division.Fits (division.inside id) ty) :
    division.FactsMirror (whole.setArgumentTypes id types)
      (if division.inside id then part.setArgumentTypes id types else part) := by
  have arguments := mirror.arguments.insertIfNew fits
  split
  · rename_i within
    exact { mirror with
      arguments, argumentTypes := mirror.argumentTypes.insertIfNew within types }
  · rename_i outside
    exact { mirror with
      arguments, argumentTypes := mirror.argumentTypes.insertIfNew_outside outside types }

theorem bindDefiningClass {lexical : Ty}
    (side : lexical.usesOnly division.known = division.inside id) :
    division.FactsMirror
      { whole with definingClasses := whole.definingClasses.insert id lexical }
      (if division.inside id
        then { part with definingClasses := part.definingClasses.insert id lexical }
        else part) := by
  have sides := mirror.sides.insert side
  split
  · exact { mirror with sides, definingClasses := mirror.definingClasses.insert id lexical }
  · rename_i outside
    exact { mirror with
      sides, definingClasses := mirror.definingClasses.insert_outside outside lexical }

variable (id) in
theorem insertSignature {signature : Signature}
    (fits : division.inside id = true → signature.UsesOnly division.known) :
    division.FactsMirror
      { whole with signatures := whole.signatures.insert id signature }
      (if division.inside id
        then { part with signatures := part.signatures.insert id signature }
        else part) := by
  have signatures := mirror.signatures.insert fits
  split
  · exact { mirror with
      signatures, signatureTables := mirror.signatureTables.insert id signature }
  · rename_i outside
    exact { mirror with
      signatures, signatureTables := mirror.signatureTables.insert_outside outside signature }

variable (id) in
theorem bindDelegateTarget (target : MethodType) :
    division.FactsMirror
      { whole with delegateTargets := whole.delegateTargets.insert id target }
      (if division.inside id
        then { part with delegateTargets := part.delegateTargets.insert id target }
        else part) := by
  split
  · exact { mirror with delegateTargets := mirror.delegateTargets.insert id target }
  · rename_i outside
    exact { mirror with
      delegateTargets := mirror.delegateTargets.insert_outside outside target }

theorem own?_eq (within : division.inside id = true) (name : String) :
    part.scopes.own? id name = whole.scopes.own? id name := by
  rw [Scopes.own?, Scopes.own?, mirror.bindings id within]

theorem bindLocal (name : String) {ty : Ty} (fits : division.Fits (division.inside id) ty) :
    division.FactsMirror
      { whole with scopes := whole.scopes.bind id name ty }
      (if division.inside id
        then { part with scopes := part.scopes.bind id name ty }
        else part) := by
  have locals : ∀ {scope other found}, (whole.scopes.bind id name ty).own? scope other =
      some found → division.Fits (division.inside scope) found := by
    intro scope other found bound
    by_cases sameScope : scope = id
    · subst sameScope
      by_cases sameName : other = name
      · subst sameName
        rw [Scopes.own?_bind_self] at bound
        cases bound
        exact fits
      · rw [Scopes.own?_bind_of_name_ne _ _ sameName] at bound
        exact mirror.locals bound
    · rw [Scopes.own?_bind_of_scope_ne _ sameScope] at bound
      exact mirror.locals bound
  split
  · rename_i within
    have bindings := mirror.bindings.insert id
      (((whole.scopes.bindings.get? id).getD {}).insert name ty)
    refine { mirror with locals, bindings := ?_ }
    rw [Scopes.bind, Scopes.bind, mirror.bindings id within]
    exact bindings
  · rename_i outside
    exact { mirror with locals, bindings := mirror.bindings.insert_outside outside _ }

variable (id) in
theorem setReturnType {returnType : Ty} (fits : division.Fits (division.inside id) returnType) :
    division.FactsMirror
      { whole with signatures := whole.signatures.setReturnType id returnType }
      (if division.inside id
        then { part with signatures := part.signatures.setReturnType id returnType }
        else part) := by
  have filled : division.inside id = true →
      { (whole.signatures.get? id).getD {} with returnType := some returnType : Signature
        }.UsesOnly division.known := by
    intro within
    refine ⟨fun {name ty} found => ?_, by rintro _ ⟨⟩; exact fits within⟩
    cases known : whole.signatures.get? id with
    | none =>
        rw [known] at found
        cases found
    | some signature =>
        rw [known] at found
        exact (mirror.signatures id signature known within).parameters found
  have inserted := mirror.insertSignature id filled
  split
  · rename_i within
    rw [if_pos within] at inserted
    have same : part.signatures.get? id = whole.signatures.get? id :=
      mirror.signatureTables id within
    rw [SignatureTable.setReturnType, SignatureTable.setReturnType, same]
    exact inserted
  · rename_i outside
    rw [if_neg outside] at inserted
    exact inserted

theorem learnMethod {method : MethodType} {learned : MethodTable}
    (fits : method.definingClass.usesOnly division.known = true →
      method.UsesOnly division.known)
    (success : whole.methods.learn method = .ok learned) :
    if method.definingClass.usesOnly division.known = true then
      ∃ kept, part.methods.learn method = .ok kept ∧
        division.FactsMirror { whole with methods := learned } { part with methods := kept }
    else division.FactsMirror { whole with methods := learned } part := by
  have methods : ∀ entry ∈ learned.entries,
      entry.definingClass.usesOnly division.known = true → entry.UsesOnly division.known := by
    intro entry member
    rcases MethodTable.mem_entries_of_learn success member with earlier | rfl
    · exact mirror.methods entry earlier
    · exact fits
  split
  · rename_i isKnown
    obtain ⟨kept, matched, methodTables⟩ := mirror.methodTables.learn isKnown success
    exact ⟨kept, matched, { mirror with methods, methodTables }⟩
  · rename_i unknown
    exact { mirror with
      methods, methodTables := mirror.methodTables.learn_outside (by simpa using unknown) success }

theorem visibleScopes_eq (within : division.inside id = true) :
    part.arena.visibleScopes id = whole.arena.visibleScopes id := by
  rw [mirror.ownArena, mirror.arena]
  exact division.separates.visibleScopes_only division.climbs within

theorem visibleScopes_inside {scope : NodeId} (visible : scope ∈ whole.arena.visibleScopes id) :
    division.inside scope = division.inside id := by
  rw [mirror.arena] at visible
  exact division.separates.visibleScopes_inside division.keyed visible

/-- A scope on the inside has the same owner for a name. -/
theorem owner_eq (within : division.inside id = true) (name : String) :
    part.scopes.owner part.arena id name = whole.scopes.owner whole.arena id name := by
  rw [Scopes.owner, Scopes.owner, mirror.visibleScopes_eq within]
  apply congrArg (Option.getD · id)
  apply List.find?_congr
  intro scope visible
  rw [mirror.own?_eq ((mirror.visibleScopes_inside visible).trans within)]

variable (id) in
theorem inside_owner (name : String) :
    division.inside (whole.scopes.owner whole.arena id name) = division.inside id := by
  unfold Scopes.owner
  cases found : (whole.arena.visibleScopes id).find? fun scope =>
      (whole.scopes.own? scope name).isSome with
  | none => rfl
  | some owner => exact mirror.visibleScopes_inside (List.mem_of_find?_eq_some found)

/-- A local is seen from the inside as it is in the whole tree. -/
theorem localType?_eq (within : division.inside id = true) (name : String) :
    part.localType? id name = whole.localType? id name := by
  rw [Facts.localType?, Facts.localType?, Scopes.lookup?, Scopes.lookup?,
    mirror.visibleScopes_eq within, ← List.head?_filterMap, ← List.head?_filterMap]
  apply congrArg List.head?
  apply List.filterMap_congr
  intro scope visible
  exact mirror.own?_eq ((mirror.visibleScopes_inside visible).trans within) name

theorem fits_localType? {name : String} {ty : Ty} (bound : whole.localType? id name = some ty) :
    division.Fits (division.inside id) ty := by
  obtain ⟨scope, visible, own⟩ := List.exists_of_findSome?_eq_some bound
  rw [← mirror.visibleScopes_inside visible]
  exact mirror.locals own

end FactsMirror

end Division

end DeferredTyping
