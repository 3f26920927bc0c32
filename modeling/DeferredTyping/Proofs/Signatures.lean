import DeferredTyping.Proofs.Registration

/-!
# The signature of a method definition

A signature is resolved when it is first asked for, from the catalogue of that moment, and
stored before its method is published.  It is therefore known afterwards whenever every
written name stands for a type, also when publishing fails; and a name that stands for none
leaves no trace.
-/

namespace DeferredTyping

variable {σ : Type}

namespace Infer

variable {setting : Setting σ} {session : Session σ} {id : NodeId} {node : Node}

theorem run_locationOf (present : session.facts.arena.find? id = some node) :
    (locationOf id).run session = (.ok node.location, session) := by
  simp [locationOf, run_bind, run_map, Arena.require_of_find? present]

section

variable {method : Method NodeId}
  (present : session.facts.arena.find? id = some node)
  (unsigned : session.facts.signature? id = none)

include present unsigned

theorem run_signatureOf_of_unknown {text : String}
    (unknown : session.catalog.resolveSignature method.declared = .error text) :
    (signatureOf setting id method).run session =
      (.error (.failed (.unknownType text node.location)), session) := by
  simp [signatureOf, run_bind, unsigned, run_locationOf present, unknown]

/-- The signature is stored before its method is published. -/
theorem run_signatureOf_of_resolved {signature : Signature}
    (resolved : session.catalog.resolveSignature method.declared = .ok signature) :
    (signatureOf setting id method).run session =
      (registerDeclared setting id method signature node.location >>=
        fun _ => pure signature).run { session with facts := { session.facts with
          signatures := session.facts.signatures.insert id signature } } := by
  simp [signatureOf, run_bind, unsigned, run_locationOf present, resolved]

/-- Whatever comes of publishing the method, its signature is known then. -/
theorem signature?_of_run_signatureOf {signature : Signature}
    (resolved : session.catalog.resolveSignature method.declared = .ok signature) :
    ((signatureOf setting id method).run session).2.facts.signature? id = some signature ∧
      ∀ answer, ((signatureOf setting id method).run session).1 = .ok answer →
        answer = signature := by
  have publishes : KeepsView Facts.signatures
      (registerDeclared setting id method signature node.location >>= fun _ => pure signature) :=
    (registerDeclared_keepsSignatures setting id method signature node.location).bind
      fun _ => .read (.pure _)
  rw [run_signatureOf_of_resolved present unsigned resolved]
  constructor
  · rw [Facts.signature?, publishes]
    exact Table.get?_insert_self _ _ _
  · intro answer answered
    obtain ⟨_, _, _, same⟩ := returns_bind.mp (run_eq_of_answer answered)
    exact (returns_pure.mp same).1.symm

end

/-- The signature of a method definition is what the definition declares, a parameter that is
declared twice having its last type.  The first written name that stands for no type is an
error that leaves everything as it was; without one the signature is stored, also when the
method cannot be published then. -/
theorem signatures_are_what_is_declared
    (setting : Setting σ) {session : Session σ} {id : NodeId} {node : Node}
    (method : Method NodeId)
    (present : session.facts.arena.find? id = some node)
    (unsigned : session.facts.signature? id = none) :
    (∀ text, session.catalog.firstUnknown? method.declared.texts = some text →
      (signatureOf setting id method).run session =
        (.error (.failed (.unknownType text node.location)), session)) ∧
    (session.catalog.firstUnknown? method.declared.texts = none →
      ∃ signature : Signature, signature.Matches session.catalog method.declared ∧
        (∀ {name ty}, method.declared.DeclaresOnce name →
          (signature.parameter? name = some ty ↔
            ∃ text, method.declared.parameter? name = some text ∧
              session.catalog.resolve text = some ty)) ∧
        ((signatureOf setting id method).run session).2.facts.signature? id =
          some signature ∧
        ∀ answer, ((signatureOf setting id method).run session).1 = .ok answer →
          answer = signature) := by
  have resolves := session.catalog.resolves_resolveSignature method.declared
  constructor
  · intro text unknown
    exact run_signatureOf_of_unknown present unsigned (resolves.eq_error unknown)
  · intro known
    obtain ⟨signature, resolved, agrees⟩ := resolves.exists_ok known
    obtain ⟨stored, answers⟩ := signature?_of_run_signatureOf present unsigned resolved
    refine ⟨signature, agrees, ?_, stored, answers⟩
    intro name ty once
    rw [agrees.parameters, DeclaredSignature.lastParameter?_eq_parameter? once]

end Infer

namespace Typer

open Infer

/-- A method that declares the parameter `x` twice. -/
def declaresTwice : Method NodeId where
  name := "f"
  arguments := 4
  body := some 6
  declared := {
    parameters := [("x", "int"), ("y", "String"), ("x", "double")]
    throws := ["int[]"] }

/-- A method whose return type and thrown type are unknown. -/
def declaresUnknown : Method NodeId where
  name := "g"
  arguments := 8
  declared := { returns := some "Shape", throws := ["Crash"] }

def twiceAndUnknown : Arena where
  nodes := ⟨[
    (1, { id := 1, parent := none, location := {}, kind := .script "" (some 2) }),
    (2, { id := 2, parent := some 1, location := {}, kind := .body [3, 7] }),
    (3, { id := 3, parent := some 2, location := {},
          kind := .methodDefinition declaresTwice }),
    (4, { id := 4, parent := some 3, location := {}, kind := .arguments { required := [5] } }),
    (5, { id := 5, parent := some 4, location := {}, kind := .requiredArgument "x" }),
    (6, { id := 6, parent := some 3, location := {}, kind := .fixnum 1 }),
    (7, { id := 7, parent := some 2, location := { line := 2 },
          kind := .methodDefinition declaresUnknown }),
    (8, { id := 8, parent := some 7, location := {}, kind := .arguments {} })]⟩
  nextId := 9

theorem signatures_are_what_is_declared_of_twiceAndUnknown :
    (∃ signature : Signature,
      ((signatureOf plain.setting 3 declaresTwice).run
        (start twiceAndUnknown {} ())).2.facts.signature? 3 = some signature ∧
      signature.parameter? "y" = some (.object "java.lang.String") ∧
      signature.parameter? "x" = some (.primitive .double) ∧
      signature.returnType = none ∧ signature.throws.map some = [some (.array .int)]) ∧
    (signatureOf plain.setting 7 declaresUnknown).run (start twiceAndUnknown {} ()) =
      (.error (.failed (.unknownType "Shape" { line := 2 })),
        start twiceAndUnknown {} ()) := by
  obtain ⟨first, presentFirst⟩ :
      ∃ node, (start twiceAndUnknown {} ()).facts.arena.find? 3 = some node := ⟨_, rfl⟩
  obtain ⟨second, presentSecond, place⟩ :
      ∃ node, (start twiceAndUnknown {} ()).facts.arena.find? 7 = some node ∧
        node.location = { line := 2 } := ⟨_, rfl, rfl⟩
  obtain ⟨_, stores⟩ :=
    signatures_are_what_is_declared plain.setting declaresTwice presentFirst rfl
  obtain ⟨fails, _⟩ :=
    signatures_are_what_is_declared plain.setting declaresUnknown presentSecond rfl
  constructor
  · obtain ⟨signature, agrees, once, stored, _⟩ := stores (by decide)
    have single : declaresTwice.declared.DeclaresOnce "y" := by
      simp [DeclaredSignature.DeclaresOnce, declaresTwice]
    exact ⟨signature, stored, (once single).mpr ⟨"String", by decide, by decide⟩,
      agrees.parameters.mpr ⟨"double", by decide, by decide⟩,
      Option.map_eq_none_iff.mp agrees.returns, agrees.throws.trans (by decide)⟩
  · rw [fails "Shape" (by decide), place]

/-- Searched from the front, a parameter that is declared twice has another type than in the
signature. -/
theorem parameter_declared_twice_has_its_last_type :
    declaresTwice.declared.parameter? "x" = some "int" ∧
      Catalog.resolve {} "int" = some .int ∧
      (((signatureOf plain.setting 3 declaresTwice).run
        (start twiceAndUnknown {} ())).2.facts.signature? 3).bind
          (fun signature => signature.parameter? "x") = some (.primitive .double) := by
  decide

end Typer

end DeferredTyping
