import DeferredTyping.Proofs.Registration

/-!
# Registering the declarations again

Registering leaves three marks in a session: the catalogue holds what the tree declares, the
class of every constructor is recorded, and every method definition has a signature.  Where
all three are present there is nothing left to register, and nothing that a typer can be
asked for takes one of them away.
-/

namespace DeferredTyping

variable {σ : Type}

/-- The declarations of the tree are registered, and no call was expanded. -/
structure Session.Registered (scriptClass : String) (tree : Arena) (session : Session σ) :
    Prop extends session.Intact tree where
  declared : tree.declare session.catalog = session.catalog
  constructors : ∀ {id method}, (id, method) ∈ tree.methods → method.isConstructor = true →
    ∃ lexical ∈ session.declaredConstructors, tree.lexicalClass scriptClass id = .ok lexical
  signatures : ∀ {id method}, (id, method) ∈ tree.methods →
    ∃ signature, session.facts.signature? id = some signature

/-- A session that knows more about the same tree is registered as well. -/
theorem Session.Registered.of_extends
    {scriptClass : String} {tree : Arena} {before after : Session σ}
    (registered : before.Registered scriptClass tree)
    (extended : before.Extends after)
    (intact : after.Intact tree) :
    after.Registered scriptClass tree where
  toIntact := intact
  declared := by
    rw [extended.catalog]
    exact registered.declared
  constructors member constructor := by
    rw [extended.declaredConstructors]
    exact registered.constructors member constructor
  signatures member := by
    obtain ⟨signature, known⟩ := registered.signatures member
    obtain ⟨later, still, _⟩ := extended.facts.signatures known
    exact ⟨later, still⟩

namespace Infer

variable {setting : Setting σ} {methods : List (NodeId × Method NodeId)}
  {session before after : Session σ}

theorem run_signatureOf_of_known {id : NodeId} {signature : Signature}
    (known : session.facts.signature? id = some signature) (method : Method NodeId) :
    (signatureOf setting id method).run session = (.ok signature, session) := by
  simp [signatureOf, run_bind, known]

/-- Where the class of every constructor is recorded, recording them changes nothing. -/
theorem run_declareConstructors_of_recorded
    (recorded : ∀ {id method}, (id, method) ∈ methods → method.isConstructor = true →
      ∃ lexical ∈ session.declaredConstructors,
        session.facts.arena.lexicalClass setting.scriptClass id = .ok lexical) :
    (declareConstructors setting methods).run session = (.ok (), session) := by
  induction methods with
  | nil => rfl
  | cons entry rest ih =>
      obtain ⟨id, method⟩ := entry
      have others := ih fun member => recorded (List.mem_cons_of_mem _ member)
      cases constructor : method.isConstructor with
      | false => simpa [declareConstructors, constructor] using others
      | true =>
          obtain ⟨lexical, listed, stands⟩ := recorded List.mem_cons_self constructor
          have same : session.declaredConstructors.insert lexical =
              session.declaredConstructors := List.insert_of_mem listed
          simpa [declareConstructors, constructor, run_bind, stands, same] using others

/-- Where every method has a signature, resolving the signatures changes nothing. -/
theorem run_declareSignatures_of_known
    (known : ∀ {id method}, (id, method) ∈ methods →
      ∃ signature, session.facts.signature? id = some signature) :
    (declareSignatures setting methods).run session = (.ok (), session) := by
  induction methods with
  | nil => rfl
  | cons entry rest ih =>
      obtain ⟨id, method⟩ := entry
      obtain ⟨signature, here⟩ := known List.mem_cons_self
      rw [declareSignatures, run_bind, run_signatureOf_of_known here]
      exact ih fun member => known (List.mem_cons_of_mem _ member)

/-- Recording the constructors keeps the classes that are recorded and records those of all
methods that it is given. -/
theorem returns_declareConstructors
    (returned : Returns (declareConstructors setting methods) before () after) :
    ∃ declaredConstructors, after = { before with declaredConstructors } ∧
      (∀ lexical ∈ before.declaredConstructors, lexical ∈ declaredConstructors) ∧
      ∀ {id method}, (id, method) ∈ methods → method.isConstructor = true →
        ∃ lexical ∈ declaredConstructors,
          before.facts.arena.lexicalClass setting.scriptClass id = .ok lexical := by
  induction methods generalizing before with
  | nil =>
      cases returned
      exact ⟨_, rfl, fun _ member => member, fun member => (List.not_mem_nil member).elim⟩
  | cons entry rest ih =>
      obtain ⟨id, method⟩ := entry
      unfold declareConstructors at returned
      split at returned
      · obtain ⟨tree, _, read, stood⟩ := returns_bind.mp returned
        obtain ⟨rfl, rfl⟩ := returns_getArena.mp read
        obtain ⟨lexical, _, stands, records⟩ := returns_bind.mp stood
        obtain ⟨here, rfl⟩ := returns_ofTree.mp stands
        obtain ⟨_, _, stored, others⟩ := returns_bind.mp records
        obtain rfl := returns_modify.mp stored
        obtain ⟨declaredConstructors, rfl, kept, recorded⟩ := ih others
        refine ⟨declaredConstructors, rfl, ?_, ?_⟩
        · exact fun earlier member => kept _ (List.mem_insert_of_mem member)
        · intro other found member constructor
          rcases List.mem_cons.mp member with first | later
          · cases first
            exact ⟨lexical, kept _ List.mem_insert_self, here⟩
          · exact recorded later constructor
      · rename_i ordinary
        obtain ⟨declaredConstructors, rfl, kept, recorded⟩ := ih returned
        refine ⟨declaredConstructors, rfl, kept, ?_⟩
        intro other found member constructor
        rcases List.mem_cons.mp member with first | later
        · cases first
          exact absurd constructor ordinary
        · exact recorded later constructor

end Infer

open Infer

namespace Typer

variable {typer : Typer σ} {tree : Arena}

/-- Registering once leaves all three marks. -/
theorem registered_of_registerTypes
    {before registered : Session σ} (kept : before.Intact tree)
    (registers : Returns typer.registerTypes before () registered) :
    registered.Registered typer.config.scriptClass tree := by
  have intact : registered.Intact tree := by
    have keeps : (typer.registerTypes.run before).2.Intact tree :=
      registerTypes_keepsTree before kept
    rwa [registers] at keeps
  rw [Returns, registerTypes, run_registerTypes_declared, kept.arena] at registers
  obtain ⟨_, constructed, constructors, resolves⟩ := returns_bind.mp registers
  obtain ⟨declaredConstructors, rfl, _, recorded⟩ := returns_declareConstructors constructors
  obtain ⟨added, ended⟩ := (declareSignatures_adds tree.methods).added resolves
  have catalog : registered.catalog = tree.declare before.catalog := by rw [ended]
  have classes : registered.declaredConstructors = declaredConstructors := by rw [ended]
  refine ⟨intact, ?_, ?_, ?_⟩
  · rw [catalog]
    exact tree.declare_declare before.catalog
  · intro id method member constructor
    rw [classes, ← kept.arena]
    exact recorded member constructor
  · intro id method member
    exact signature?_of_declareSignatures resolves member

/-- Where all three marks are present, there is nothing left to register. -/
theorem run_registerTypes_of_registered
    {session : Session σ} (registered : session.Registered typer.config.scriptClass tree) :
    typer.registerTypes.run session = (.ok (), session) := by
  have declared : session.facts.arena.declare session.catalog = session.catalog := by
    rw [registered.arena]
    exact registered.declared
  have constructors : Returns
      (declareConstructors typer.setting session.facts.arena.methods) session () session :=
    run_declareConstructors_of_recorded (registered.arena ▸ registered.constructors)
  rw [registerTypes, run_registerTypes_declared, declared, run_bind_of_returns constructors]
  exact run_declareSignatures_of_known (registered.arena ▸ registered.signatures)

/-- No operation takes one of the marks away. -/
theorem respects_registered (declines : typer.expander.Declines) :
    typer.Respects fun before after => before.Registered typer.config.scriptClass tree →
      after.Registered typer.config.scriptClass tree where
  trans _ _ _ early late registered := late (early registered)
  drives _ _ _ _ registered := ⟨⟨registered.arena, registered.unexpanded⟩,
    registered.declared, registered.constructors, registered.signatures⟩
  registers session registered := by
    rw [run_registerTypes_of_registered registered]
    exact registered
  visits id session registered := registered.of_extends (typer.infer_extends id session)
    ((respects_intact declines).visits id session registered.toIntact)
  keeps id types session registered :=
    registered.of_extends (keepArgumentTypes_extends types session)
      ((respects_intact declines).keeps id types session registered.toIntact)
  adds adds session registered :=
    registered.of_extends ((traversal_extends typer.setting).own adds.own session)
      ((respects_intact declines).adds adds session registered.toIntact)

/-- Once the declarations of a tree are registered, registering them again succeeds and
changes nothing, whatever the typer was asked for in between; and a run over all trees does
the same whether they were registered by hand before or not. -/
theorem registering_again_changes_nothing
    (declines : typer.expander.Declines)
    {catalog : Catalog} {state : σ} {before registered : Session σ}
    (reached : typer.Reachable tree catalog state before)
    (registers : Returns typer.registerTypes before () registered) :
    (∀ session, typer.Continues registered session →
      typer.registerTypes.run session = (.ok (), session)) ∧
    typer.inferTypes.run registered = typer.inferTypes.run before := by
  have marked := registered_of_registerTypes (reached.intact declines) registers
  constructor
  · intro session continues
    exact run_registerTypes_of_registered
      ((respects_registered declines).continues continues marked)
  · have again : Returns typer.registerTypes registered () registered :=
      run_registerTypes_of_registered marked
    rw [inferTypes, run_bind_of_returns again, run_bind_of_returns registers]

/-- A class that is defined twice, the second time with a constructor and a method that
declares all its types. -/
def definedTwice : Arena where
  nodes := ⟨[
    (1, { id := 1, parent := none, location := {}, kind := .script "" (some 2) }),
    (2, { id := 2, parent := some 1, location := {}, kind := .body [3, 4] }),
    (3, { id := 3, parent := some 2, location := {},
          kind := .classDefinition "Shape" (some "Figure") [] none }),
    (4, { id := 4, parent := some 2, location := {},
          kind := .classDefinition "Shape" none [] (some 5) }),
    (5, { id := 5, parent := some 4, location := {}, kind := .body [6, 8] }),
    (6, { id := 6, parent := some 5, location := {},
          kind := .methodDefinition {
            kind := .constructor, name := "initialize", arguments := 7 } }),
    (7, { id := 7, parent := some 6, location := {}, kind := .arguments {} }),
    (8, { id := 8, parent := some 5, location := {},
          kind := .methodDefinition {
            name := "area", arguments := 9, body := some 10
            declared := { returns := some "int" } } }),
    (9, { id := 9, parent := some 8, location := {}, kind := .arguments {} }),
    (10, { id := 10, parent := some 8, location := {}, kind := .fixnum 1 })]⟩
  nextId := 11

theorem registering_again_changes_nothing_of_definedTwice :
    plain.expander.Declines ∧
      ∃ registered, Returns plain.registerTypes (start definedTwice {} ()) () registered ∧
        registered.declaredConstructors = [.object "Shape"] ∧
        (plain.perform registered .inferTypes).facts.nodeType? 8 = some .int ∧
        plain.registerTypes.run (plain.perform registered .inferTypes) =
          (.ok (), plain.perform registered .inferTypes) ∧
        plain.inferTypes.run registered = plain.inferTypes.run (start definedTwice {} ()) := by
  have registers : Returns plain.registerTypes (start definedTwice {} ()) ()
      (plain.registerTypes.run (start definedTwice {} ())).2 := returns_of_isOk (by decide)
  obtain ⟨again, same⟩ := registering_again_changes_nothing plain_declines .start registers
  exact ⟨plain_declines, _, registers, by decide, by decide,
    again _ (.step .refl .inferTypes), same⟩

end Typer

end DeferredTyping
