import DeferredTyping.Proofs.Branches
import DeferredTyping.Proofs.Termination
import DeferredTyping.Proofs.TwoRuns

/-!
# Independent trees do not interfere

When no link leads from one side of an arena to the other and the names that are declared
outside mean nothing inside, the inside can be typed alone: if typing the whole arena
succeeds, then so does typing the inside, with the same types, the same local bindings and
the same methods of its own classes.
-/

namespace DeferredTyping

variable {σ : Type}

open Infer

/-- What a catalogue keeps mentions accepted names only. -/
structure Catalog.MentionsOnly (known : String → Bool) (catalog : Catalog) : Prop where
  classes : ∀ entry ∈ catalog.classes.entries, known entry.1 = true
  parents : ∀ entry ∈ catalog.classes.entries, ∀ parent ∈ entry.2.parents, Spells known parent
  methods : ∀ method ∈ catalog.library, method.owner.usesOnly known = true ∧
    (∀ ty ∈ method.parameters, ty.usesOnly known = true) ∧
    method.returnType.usesOnly known = true

section Declarations

variable {node : Node} {declaration : TypeDeclaration}
  (declares : declarationOf? node = some declaration)

include declares

theorem mem_texts_of_declarationOf? {parent : String}
    (named : parent ∈ declaration.superclass.toList ++ declaration.interfaces) :
    parent ∈ node.kind.texts := by
  unfold declarationOf? at declares
  split at declares
  · rename_i kind
    cases declares
    rw [kind]
    exact named
  · rename_i kind
    cases declares
    rw [kind]
    exact named
  · cases declares

theorem declaredName?_of_declarationOf? (scriptClass : String) :
    node.declaredName? scriptClass = some declaration.name := by
  unfold declarationOf? at declares
  rw [Node.declaredName?]
  split at declares
  · rename_i kind
    cases declares
    rw [kind]
  · rename_i kind
    cases declares
    rw [kind]
  · cases declares

end Declarations

namespace Catalog

variable {known : String → Bool} {whole part catalog : Catalog}

theorem MentionsOnly.agrees
    (mentions : catalog.MentionsOnly known) (knows : catalog.KnowsBuiltins) :
    Agrees known catalog catalog where
  classes _ := rfl
  parents _ stored := mentions.parents _ (Table.mem_entries_of_get?_eq_some stored)
  builtin short member := by
    obtain ⟨entry, stored⟩ := Table.contains_eq_true_iff.mp (knows.contains_of_shortName member)
    exact mentions.classes _ (Table.mem_entries_of_get?_eq_some stored)
  library := rfl
  methods := mentions.methods

namespace Agrees

variable (agrees : Agrees known whole part) {declaration : TypeDeclaration}

include agrees

theorem define
    (spells : ∀ parent ∈ declaration.superclass.toList ++ declaration.interfaces,
      Spells known parent) :
    Agrees known (whole.define declaration) (part.define declaration) := by
  refine { agrees with classes := ?_, parents := ?_ }
  · intro name isKnown
    by_cases same : name = declaration.name
    · subst same
      exact (Table.get?_insert_self _ _ _).trans (Table.get?_insert_self _ _ _).symm
    · exact (Table.get?_insert_of_ne _ same _).trans
        ((agrees.classes isKnown).trans (Table.get?_insert_of_ne _ same _).symm)
  · intro name entry isKnown stored parent named
    rcases Table.get?_insert_eq_some stored with ⟨rfl, rfl⟩ | ⟨_, before⟩
    · rcases List.mem_append.mp named with extended | implemented
      · cases declared : declaration.superclass with
        | some superclass =>
            rw [declared] at extended spells
            exact spells parent (List.mem_append_left _ extended)
        | none =>
            rw [declared] at extended
            dsimp only at extended
            split at extended
            · cases extended
            · obtain rfl : parent = objectName := by simpa using extended
              refine ⟨agrees.known_objectName, ?_⟩
              rw [show elementName objectName = objectName by decide]
              exact agrees.known_objectName
      · exact spells parent (List.mem_append_right _ implemented)
    · exact agrees.parents isKnown before parent named

theorem define_outside (unknown : known declaration.name = false) :
    Agrees known (whole.define declaration) part := by
  have different : ∀ {name}, known name = true → name ≠ declaration.name := by
    rintro _ isKnown rfl
    rw [unknown] at isKnown
    cases isKnown
  refine { agrees with classes := ?_, parents := ?_ }
  · intro name isKnown
    exact (agrees.classes isKnown).trans
      (Table.get?_insert_of_ne _ (different isKnown) _).symm
  · intro name entry isKnown stored
    exact agrees.parents isKnown
      ((Table.get?_insert_of_ne _ (different isKnown) _).symm.trans stored)

/-- Declaring nodes of both sides on the one hand and those inside on the other. -/
theorem declare {nodes : List Node} {inside : NodeId → Bool}
    (spells : ∀ node ∈ nodes, inside node.id = true → ∀ text ∈ node.kind.texts,
      Spells known text)
    (unknown : ∀ node ∈ nodes, inside node.id = false → ∀ declaration,
      declarationOf? node = some declaration → known declaration.name = false) :
    Agrees known ((nodes.filterMap declarationOf?).foldl Catalog.define whole)
      (((nodes.filter fun node => inside node.id).filterMap declarationOf?).foldl
        Catalog.define part) := by
  induction nodes generalizing whole part with
  | nil => exact agrees
  | cons node rest ih =>
      rw [List.forall_mem_cons] at spells unknown
      cases within : inside node.id with
      | true =>
          rw [List.filter_cons, if_pos within]
          cases declares : declarationOf? node with
          | none =>
              rw [List.filterMap_cons_none declares, List.filterMap_cons_none declares]
              exact ih agrees spells.2 unknown.2
          | some declaration =>
              rw [List.filterMap_cons_some declares, List.filterMap_cons_some declares]
              refine ih (agrees.define fun parent named => ?_) spells.2 unknown.2
              exact spells.1 within parent (mem_texts_of_declarationOf? declares named)
      | false =>
          rw [List.filter_cons, if_neg (by simp [within])]
          cases declares : declarationOf? node with
          | none =>
              rw [List.filterMap_cons_none declares]
              exact ih agrees spells.2 unknown.2
          | some declaration =>
              rw [List.filterMap_cons_some declares]
              exact ih (agrees.define_outside (unknown.1 within declaration declares)) spells.2
                unknown.2

end Agrees

end Catalog

namespace Arena

/-- No node outside declares the name. -/
def notDeclaredOutside (arena : Arena) (scriptClass : String) (inside : NodeId → Bool)
    (name : String) : Bool :=
  arena.nodes.values.all fun node =>
    inside node.id || node.declaredName? scriptClass != some name

/-- No link leads from one side to the other, and the names that are declared outside are
neither declared nor written inside nor mentioned by the catalogue. -/
structure Independent (arena : Arena) (scriptClass : String) (catalog : Catalog)
    (inside : NodeId → Bool) : Prop where
  separates : arena.Separates inside
  declares : ∀ node ∈ arena.nodes.values, inside node.id = true →
    ∀ name ∈ node.declaredName? scriptClass,
      arena.notDeclaredOutside scriptClass inside name = true
  spells : ∀ node ∈ arena.nodes.values, inside node.id = true →
    ∀ text ∈ node.kind.texts,
      Catalog.Spells (arena.notDeclaredOutside scriptClass inside) text
  mentions : catalog.MentionsOnly (arena.notDeclaredOutside scriptClass inside)

variable {arena : Arena} {scriptClass : String} {catalog : Catalog} {inside : NodeId → Bool}

theorem notDeclaredOutside_eq_false
    {node : Node} {name : String} (stored : node ∈ arena.nodes.values)
    (outside : inside node.id = false) (declares : node.declaredName? scriptClass = some name) :
    arena.notDeclaredOutside scriptClass inside name = false := by
  rw [notDeclaredOutside, List.all_eq_false]
  exact ⟨node, stored, by simp [outside, declares]⟩

namespace Independent

variable (independent : arena.Independent scriptClass catalog inside)

include independent

theorem agrees (keyed : arena.Keyed) (knows : catalog.KnowsBuiltins) :
    Catalog.Agrees (arena.notDeclaredOutside scriptClass inside) (arena.declare catalog)
      ((arena.only inside).declare catalog) := by
  rw [declare, declare, values_only keyed]
  refine (independent.mentions.agrees knows).declare independent.spells ?_
  intro node stored outside declaration declares
  exact notDeclaredOutside_eq_false stored outside
    (declaredName?_of_declarationOf? declares scriptClass)

end Independent

/-- The division of an arena by an independent part, for the catalogues that the types of
each side are declared in. -/
def Independent.division
    (independent : arena.Independent scriptClass catalog inside)
    (keyed : arena.Keyed) (climbs : arena.Climbs) (built : catalog.Built) : Division where
  scriptClass
  tree := arena
  inside
  known := arena.notDeclaredOutside scriptClass inside
  classes := arena.declare catalog
  ownClasses := (arena.only inside).declare catalog
  keyed
  climbs
  separates := independent.separates
  declares {id node name} present declared := by
    have stored := mem_values_of_find? present
    have same := keyed.id_eq present
    cases within : inside id with
    | true => exact independent.declares node stored (same ▸ within) name declared
    | false => exact notDeclaredOutside_eq_false stored (same ▸ within) declared
  spells {id node} present within :=
    independent.spells node (mem_values_of_find? present) (keyed.id_eq present ▸ within)
  agrees := independent.agrees keyed built.knowsBuiltins
  knows := (built.declare arena).knowsBuiltins
  ownKnows := (built.declare (arena.only inside)).knowsBuiltins

end Arena

namespace Infer

/-- Records the class that declares a constructor. -/
def declareConstructor (setting : Setting σ) (id : NodeId) : Infer σ Unit := do
  let lexical ← ofTree ((← getArena).lexicalClass setting.scriptClass id)
  modify fun session =>
    { session with declaredConstructors := session.declaredConstructors.insert lexical }

theorem declareConstructors_cons
    (setting : Setting σ) (id : NodeId) (method : Method NodeId)
    (rest : List (NodeId × Method NodeId)) :
    declareConstructors setting ((id, method) :: rest) =
      ((if method.isConstructor then declareConstructor setting id else pure ()) >>= fun _ =>
        declareConstructors setting rest) := by
  rw [declareConstructors, declareConstructor]
  split
  · simp only [bind_assoc]
  · rw [pure_bind]

end Infer

namespace Division

variable {division : Division}

theorem Mirrors.declareConstructor
    {whole part : Session σ} (mirrors : division.Mirrors whole part) {lexical : Ty} {side : Bool}
    (isKnown : lexical.usesOnly division.known = side) :
    division.Mirrors
      { whole with declaredConstructors := whole.declaredConstructors.insert lexical }
      (if side
        then { part with declaredConstructors := part.declaredConstructors.insert lexical }
        else part) := by
  subst isKnown
  have same : ∀ ty, ty.usesOnly division.known = true →
      (ty ∈ part.declaredConstructors ↔ ty ∈ whole.declaredConstructors) := by
    intro ty known
    simpa using mirrors.constructors ty known
  split
  · refine { mirrors with constructors := fun ty known => ?_ }
    simp [same ty known]
  · rename_i unknown
    refine { mirrors with constructors := fun ty known => ?_ }
    have different : ty ≠ lexical := by
      rintro rfl
      exact unknown known
    simp [same ty known, different]

theorem mirrors_start (state : σ) :
    division.Mirrors (Typer.start division.tree division.classes state)
      (Typer.start division.own division.ownClasses state) where
  facts :=
    { arena := rfl
      unexpanded := rfl
      nodes := nofun
      arguments := nofun
      locals := nofun
      signatures := nofun
      sides := nofun
      methods := nofun
      ownArena := rfl
      ownUnexpanded := rfl
      nodeTypes := .refl _
      argumentTypes := .refl _
      bindings := .refl _
      signatureTables := .refl _
      definingClasses := .refl _
      delegateTargets := .refl _
      methodTables := rfl }
  catalog := rfl
  ownCatalog := rfl
  constructors _ _ := rfl
  lastChance := rfl
  queue := rfl
  consistent _ := Iff.rfl
  ownConsistent _ := Iff.rfl

section Registering

variable {typer : Typer σ} (scripted : typer.config.scriptClass = division.scriptClass)

include scripted

protected theorem Tracks.declareConstructor {side : Bool} {id : NodeId} {method : Method NodeId}
    (within : division.inside id = side) :
    division.Tracks side (fun _ => True)
      (if method.isConstructor then declareConstructor typer.setting id else pure ())
      (if method.isConstructor then declareConstructor typer.setting id else pure ()) := by
  split
  · intro whole part mirrors
    refine .ofArena (·.lexicalClass typer.setting.scriptClass id) mirrors ?_ ?_
    · intro inside
      exact division.separates.lexicalClass_only division.climbs (within.trans inside) _
    · intro lexical encloses value after returned
      obtain rfl := returns_modify.mp returned
      rw [show typer.setting.scriptClass = division.scriptClass from scripted] at encloses
      have isKnown := (division.usesOnly_of_lexicalClass encloses).trans within
      have recorded := mirrors.declareConstructor isKnown
      cases side with
      | true => exact .inl ⟨_, returns_modify.mpr rfl, recorded, trivial⟩
      | false => exact ⟨recorded, trivial⟩
  · exact .pure trivial

/-- Each class that declares a constructor is recorded on its side. -/
protected theorem Tracks.declareConstructors (methods : List (NodeId × Method NodeId)) :
    division.Tracks true (fun _ => True) (declareConstructors typer.setting methods)
      (declareConstructors typer.setting
        (methods.filter fun entry => division.inside entry.1)) := by
  induction methods with
  | nil => exact .pure trivial
  | cons entry rest ih =>
      obtain ⟨id, method⟩ := entry
      cases within : division.inside id with
      | true =>
          rw [List.filter_cons, if_pos within, declareConstructors_cons,
            declareConstructors_cons]
          exact (Tracks.declareConstructor scripted within).bind fun _ => ih
      | false =>
          rw [List.filter_cons, if_neg (by simp [within]), declareConstructors_cons]
          exact (Tracks.declareConstructor scripted within).passOver fun _ => ih

/-- Signatures are resolved for both sides; the part resolves those inside. -/
protected theorem Tracks.declareSignatures (methods : List (NodeId × Method NodeId))
    (defines : ∀ {id method}, (id, method) ∈ methods → division.tree.method? id = some method) :
    division.Tracks true (fun _ => True) (declareSignatures typer.setting methods)
      (declareSignatures typer.setting
        (methods.filter fun entry => division.inside entry.1)) := by
  induction methods with
  | nil => exact .pure trivial
  | cons entry rest ih =>
      obtain ⟨id, method⟩ := entry
      have further := ih fun later => defines (List.mem_cons_of_mem _ later)
      cases within : division.inside id with
      | true =>
          rw [List.filter_cons, if_pos within]
          exact (Tracks.signatureOf scripted within (defines List.mem_cons_self)).bind
            fun _ => further
      | false =>
          rw [List.filter_cons, if_neg (by simp [within])]
          exact (Tracks.signatureOf scripted within (defines List.mem_cons_self)).passOver
            fun _ => further

/-- Registering the declarations of the tree is registering those of the part. -/
theorem registerTypes_followed {catalog : Catalog} {state : σ} {registered : Session σ}
    (declared : division.tree.declare catalog = division.classes)
    (ownDeclared : division.own.declare catalog = division.ownClasses)
    (registers : Returns typer.registerTypes (Typer.start division.tree catalog state) ()
      registered) :
    ∃ own, Returns typer.registerTypes (Typer.start division.own catalog state) () own ∧
      division.Mirrors registered own := by
  rw [Returns, Typer.registerTypes, run_registerTypes_declared] at registers
  have begun : division.Mirrors
      { Typer.start division.tree catalog state with catalog := division.classes }
      { Typer.start division.own catalog state with catalog := division.ownClasses } :=
    mirrors_start state
  have tracks := (Tracks.declareConstructors scripted division.tree.methods).bind fun _ =>
    Tracks.declareSignatures scripted division.tree.methods fun member =>
      division.keyed.mem_methods_iff.mp member
  rw [← Arena.methods_only division.keyed] at tracks
  rcases tracks _ _ begun _ _ (declared ▸ registers) with ⟨own, matched, mirrors, _⟩ | exhausted
  · refine ⟨own, ?_, mirrors⟩
    rw [Returns, Typer.registerTypes, run_registerTypes_declared]
    exact ownDeclared ▸ matched
  · -- Registering types no node, so it needs no fuel.
    obtain ⟨_, _, _, _, _, faults⟩ :=
      run_registerTypes typer.setting (Typer.start division.own catalog state)
    rw [run_registerTypes_declared] at faults
    cases faults .exhausted (ownDeclared ▸ exhausted)

end Registering

/-- When typing the tree succeeds, so does typing the part, which knows the same of the inside
then. -/
theorem inferTypes_followed
    {typer : Typer σ} (scripted : typer.config.scriptClass = division.scriptClass)
    (declines : typer.expander.Declines) (unlimited : typer.config.maxPasses = none)
    (acyclic : division.own.Acyclic)
    {catalog : Catalog} {state : σ} {after : Session σ}
    (declared : division.tree.declare catalog = division.classes)
    (ownDeclared : division.own.declare catalog = division.ownClasses)
    (success : Returns typer.inferTypes (Typer.start division.tree catalog state) () after) :
    ∃ alone, Returns typer.inferTypes (Typer.start division.own catalog state) () alone ∧
      division.FactsMirror after.facts alone.facts := by
  obtain ⟨registered, visited, registers, roots, resolves⟩ := typer.returns_inferTypes.mp success
  obtain ⟨own, ownRegisters, mirrors⟩ :=
    registerTypes_followed scripted declared ownDeclared registers
  obtain ⟨later, ownRoots, mirrored⟩ := each_followed scripted declines acyclic mirrors roots
  have sameRoots : (registered.facts.arena.roots.map Node.id).filter division.inside =
      own.facts.arena.roots.map Node.id := by
    rw [mirrors.facts.arena, mirrors.facts.ownArena, Division.own,
      Arena.roots_only division.keyed, List.filter_map]
    rfl
  rw [sameRoots] at ownRoots
  have ownKeyed : division.own.Keyed := division.keyed.only division.inside
  obtain ⟨ready, _⟩ := Typer.roots_ready declines ownKeyed ownRegisters ownRoots
  obtain ⟨lined, without⟩ := Typer.roots_lined declines ownRegisters ownRoots
  have paired : division.Paired typer visited later :=
    .together mirrored fun chance => by
      rw [without] at chance
      cases chance
  rw [Returns, Typer.run_resolve] at resolves
  rcases resolveWithin_followed scripted declines acyclic unlimited _
    (3 * (typer.nodeBound later + 1) + 2) ready lined paired resolves with
    ⟨last, resolved, mirror⟩ | exhausted
  · refine ⟨last, typer.returns_inferTypes.mpr ⟨own, later, ownRegisters, ownRoots, ?_⟩, mirror⟩
    rwa [Returns, Typer.run_resolve]
  · rw [← Typer.run_resolve] at exhausted
    exact absurd exhausted (Typer.resolve_bounded declines acyclic ready.toIntact).1

end Division

namespace Typer

variable {typer : Typer σ}

/-- When typing an arena succeeds, typing an independent part of it alone succeeds too: the
nodes have the same types, the same argument types and the same local bindings, and the
classes that the part declares have the same methods. -/
theorem types_independently
    (declines : typer.expander.Declines)
    (unlimited : typer.config.maxPasses = none)
    {arena : Arena} (keyed : arena.Keyed) (acyclic : arena.Acyclic) (climbs : arena.Climbs)
    {catalog : Catalog} (built : catalog.Built)
    {inside : NodeId → Bool}
    (independent : arena.Independent typer.config.scriptClass catalog inside)
    {state : σ} {after : Session σ}
    (success : Returns typer.inferTypes (start arena catalog state) () after) :
    ∃ alone, Returns typer.inferTypes (start (arena.only inside) catalog state) () alone ∧
      (∀ id, inside id = true →
        alone.facts.nodeType? id = after.facts.nodeType? id ∧
        alone.facts.argumentTypes? id = after.facts.argumentTypes? id ∧
        alone.facts.scopes.bindings.get? id = after.facts.scopes.bindings.get? id) ∧
      ∀ node ∈ arena.nodes.values, inside node.id = true →
        ∀ declared ∈ node.declaredName? typer.config.scriptClass, ∀ isMeta name,
          alone.facts.methods.overloads ⟨.object declared, isMeta⟩ name =
            after.facts.methods.overloads ⟨.object declared, isMeta⟩ name := by
  let division := independent.division keyed climbs built
  obtain ⟨alone, typed, mirror⟩ :=
    division.inferTypes_followed rfl declines unlimited (acyclic.only inside) rfl rfl success
  refine ⟨alone, typed, fun id within => ?_, ?_⟩
  · exact ⟨mirror.nodeTypes id within, mirror.argumentTypes id within, mirror.bindings id within⟩
  · intro node stored within declared declares isMeta name
    have isKnown : Ty.usesOnly division.known ⟨.object declared, isMeta⟩ = true :=
      independent.declares node stored within declared declares
    exact mirror.methodTables.overloads_eq isKnown name

/-- Beside a choice that needs a last chance stands a script that takes more than one pass. -/
def besideMutualChoice : Arena where
  nodes := ⟨mutualChoice.nodes.entries ++ [
    (14, { id := 14, parent := none, location := {}, kind := .script "Other" (some 15) }),
    (15, { id := 15, parent := some 14, location := {}, kind := .body [16, 17, 20] }),
    (16, { id := 16, parent := some 15, location := {}, kind := .functionalCall "f" [] none }),
    (17, { id := 17, parent := some 15, location := {},
           kind := .methodDefinition { name := "f", arguments := 18, body := some 19 } }),
    (18, { id := 18, parent := some 17, location := {}, kind := .arguments {} }),
    (19, { id := 19, parent := some 17, location := {}, kind := .functionalCall "g" [] none }),
    (20, { id := 20, parent := some 15, location := {},
           kind := .methodDefinition { name := "g", arguments := 21, body := some 22 } }),
    (21, { id := 21, parent := some 20, location := {}, kind := .arguments {} }),
    (22, { id := 22, parent := some 20, location := {}, kind := .boolean true })]⟩
  nextId := 23

/-- The other script is productive twice before the choice takes its last chance, which it
takes at once when it stands alone. -/
theorem types_independently_of_besideMutualChoice :
    plain.expander.Declines ∧ plain.config.maxPasses = none ∧ besideMutualChoice.Keyed ∧
      besideMutualChoice.Acyclic ∧ besideMutualChoice.Climbs ∧ Catalog.builtin.Built ∧
      besideMutualChoice.Independent "Script" .builtin (fun id => decide (id < 14)) ∧
      ∃ after alone,
        Returns plain.inferTypes (start besideMutualChoice .builtin ()) () after ∧
        Returns plain.inferTypes
          (start (besideMutualChoice.only fun id => decide (id < 14)) .builtin ()) () alone ∧
        alone.facts.nodeType? 5 = some .int ∧
        alone.facts.methods.overloads ⟨.object "Script", true⟩ "f" =
          [{ definingClass := ⟨.object "Script", true⟩, name := "f", parameters := [],
             returnType := .int }] := by
  have keyed : besideMutualChoice.Keyed := ⟨by decide, by decide⟩
  have acyclic : besideMutualChoice.Acyclic := Arena.acyclic_of_ascending (by decide)
  have climbs : besideMutualChoice.Climbs := Arena.climbs_of_descending (by decide)
  have independent :
      besideMutualChoice.Independent "Script" .builtin (fun id => decide (id < 14)) :=
    { separates := Arena.separates_of_entries (by decide) (by decide)
      declares := by decide +kernel
      spells := by decide +kernel
      mentions := ⟨by decide +kernel, by decide +kernel, by decide +kernel⟩ }
  have success : Returns plain.inferTypes (start besideMutualChoice .builtin ()) ()
      (plain.inferTypes.run (start besideMutualChoice .builtin ())).2 :=
    returns_of_isOk (by decide +kernel)
  obtain ⟨alone, typed, facts, methods⟩ :=
    types_independently plain_declines rfl keyed acyclic climbs .builtin independent success
  refine ⟨plain_declines, rfl, keyed, acyclic, climbs, .builtin, independent, _, alone, success,
    typed, ?_, ?_⟩
  · rw [(facts 5 (by decide)).1]
    decide +kernel
  · have script : { id := 1, parent := none, location := {}, kind := .script "" (some 2) } ∈
        besideMutualChoice.nodes.values := by decide
    rw [methods _ script (by decide) "Script" (by decide)]
    decide +kernel

end Typer

end DeferredTyping
