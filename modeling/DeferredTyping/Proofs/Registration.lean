import Mathlib.Data.String.Basic
import DeferredTyping.Proofs.Assignability
import DeferredTyping.Proofs.Frames
import DeferredTyping.Proofs.Judgement

/-!
# Registering the declarations of a tree

Registering declares the classes of the tree and resolves the signature of every
method.  Declaring the same classes once more changes nothing, so a session stays
regular, with the same catalogue, under everything that can be asked of the typer,
registering again included.
-/

namespace DeferredTyping

variable {σ : Type}

open Infer

namespace Table

variable {ν : Type} {key other : String}

/-- Storing at the same key twice keeps the later value alone. -/
theorem insert_insert_self (table : Table String ν) (old value : ν) :
    (table.insert key old).insert key value = table.insert key value := by
  obtain ⟨entries⟩ := table
  simp only [insert, mk.injEq]
  induction entries with
  | nil => simp [place]
  | cons entry rest ih =>
      obtain ⟨candidate, stored⟩ := entry
      by_cases same : candidate = key
      · simp [place, same]
      · by_cases smaller : key < candidate
        · simp [place, same, smaller]
        · simp only [place, same, smaller, if_false]
          rw [ih]

private theorem place_place_of_lt (smaller : key < other) (value given : ν)
    (entries : List (String × ν)) :
    place key value (place other given entries) =
      place other given (place key value entries) := by
  have different := smaller.ne
  have larger : ¬ other < key := smaller.asymm
  induction entries with
  | nil => simp [place, smaller, different, larger, different.symm]
  | cons entry rest ih =>
      obtain ⟨candidate, stored⟩ := entry
      by_cases here : candidate = key
      · subst here
        simp [place, different, larger]
      · by_cases front : key < candidate
        · -- The smaller key goes in front of whatever becomes of the other one.
          by_cases same : candidate = other
          · simp [place, same, smaller, different, different.symm, larger]
          · by_cases between : other < candidate
            · simp [place, here, front, same, between, smaller, different,
                different.symm, larger]
            · simp [place, here, front, same, between, different, larger]
        · have behind : candidate < key := lt_of_le_of_ne (not_lt.mp front) here
          have below := behind.trans smaller
          simp [place, here, front, below.ne, below.asymm, ih]

/-- Storing at different keys can be done in either order. -/
theorem insert_insert_comm (table : Table String ν) (different : key ≠ other)
    (value given : ν) :
    (table.insert other given).insert key value =
      (table.insert key value).insert other given := by
  rcases lt_or_gt_of_ne different with smaller | larger
  · exact congrArg mk (place_place_of_lt smaller value given table.entries)
  · exact congrArg mk (place_place_of_lt larger given value table.entries).symm

end Table

namespace Catalog

theorem define_define_of_name_eq (catalog : Catalog) {earlier later : TypeDeclaration}
    (same : earlier.name = later.name) :
    (catalog.define earlier).define later = catalog.define later := by
  simp only [define, same, Table.insert_insert_self]

theorem define_define_comm (catalog : Catalog) {left right : TypeDeclaration}
    (different : left.name ≠ right.name) :
    (catalog.define left).define right = (catalog.define right).define left := by
  simp only [define, Table.insert_insert_comm _ different.symm]

/-- Whatever is declared in between, only the later of two declarations of a name
counts. -/
theorem define_foldl_define (catalog : Catalog) (declaration : TypeDeclaration)
    (between : List TypeDeclaration) :
    (between.foldl define (catalog.define declaration)).define declaration =
      (between.foldl define catalog).define declaration := by
  induction between generalizing catalog with
  | nil => exact define_define_of_name_eq catalog rfl
  | cons first rest ih =>
      simp only [List.foldl_cons]
      by_cases same : declaration.name = first.name
      · rw [define_define_of_name_eq catalog same]
      · rw [define_define_comm catalog same, ih]

/-- Declarations that are made again later need not be made now. -/
theorem foldl_define_again (catalog : Catalog)
    (between declarations : List TypeDeclaration) :
    (between ++ declarations).foldl define (declarations.foldl define catalog) =
      (between ++ declarations).foldl define catalog := by
  induction declarations generalizing between catalog with
  | nil => rfl
  | cons first rest ih =>
      have again := ih (catalog.define first) (between ++ [first])
      have last := define_foldl_define catalog first between
      simp only [List.append_assoc, List.cons_append, List.nil_append, List.foldl_append,
        List.foldl_cons] at again ⊢
      rw [again, last]

end Catalog

/-- Declaring the same classes once more changes nothing. -/
theorem Arena.declare_declare (tree : Arena) (catalog : Catalog) :
    tree.declare (tree.declare catalog) = tree.declare catalog :=
  Catalog.foldl_define_again catalog [] (tree.nodes.values.filterMap declarationOf?)

/-- What a tree declares is built on top of a catalogue. -/
theorem Catalog.Built.declare
    {catalog : Catalog} (built : catalog.Built) (tree : Arena) :
    (tree.declare catalog).Built := by
  unfold Arena.declare
  induction tree.nodes.values.filterMap declarationOf? generalizing catalog with
  | nil => exact built
  | cons declaration _ ih => exact ih (built.define declaration)

namespace Infer

variable {setting : Setting σ} {id : NodeId} {before after : Session σ}

/-- Publishing a declared method resolves no signature, also when it fails. -/
theorem registerDeclared_keepsSignatures
    (setting : Setting σ) (id : NodeId) (method : Method NodeId) (signature : Signature)
    (location : Location) :
    KeepsView Facts.signatures (registerDeclared setting id method signature location) :=
  .registerDeclared (fun _ _ => rfl) (fun _ _ => rfl) id method signature location

theorem registerDeclared_signatures
    {method : Method NodeId} {signature : Signature} {location : Location}
    (returned : Returns (registerDeclared setting id method signature location)
      before () after) :
    after.facts.signatures = before.facts.signatures := by
  have kept := registerDeclared_keepsSignatures setting id method signature location before
  rwa [returned] at kept

/-- The signature of a method is known once it was asked for. -/
theorem signature?_of_signatureOf
    {method : Method NodeId} {signature : Signature}
    (returned : Returns (signatureOf setting id method) before signature after) :
    after.facts.signature? id = some signature := by
  rcases returns_signatureOf returned with ⟨known, rfl⟩ | ⟨_, _, location, registers⟩
  · exact known
  · rw [Facts.signature?, registerDeclared_signatures registers]
    exact Table.get?_insert_self _ _ _

/-- After the signatures are resolved, every method has one. -/
theorem signature?_of_declareSignatures
    {methods : List (NodeId × Method NodeId)} {method : Method NodeId}
    (returned : Returns (declareSignatures setting methods) before () after)
    (member : (id, method) ∈ methods) :
    ∃ signature, after.facts.signature? id = some signature := by
  induction methods generalizing before with
  | nil => exact (List.not_mem_nil member).elim
  | cons entry rest ih =>
      obtain ⟨signature, middle, resolves, others⟩ := returns_bind.mp returned
      rcases List.mem_cons.mp member with rfl | later
      · have here := signature?_of_signatureOf resolves
        obtain ⟨added, _⟩ := AddStep.added (declareSignatures_adds rest) others
        obtain ⟨still, present, _⟩ := (Facts.Added.extends added).signatures here
        exact ⟨still, present⟩
      · exact ih others later

/-- Every signature was resolved from what its method declares. -/
def Signed (tree : Arena) (classes : Catalog) (facts : Facts) : Prop :=
  ∀ {id signature}, facts.signature? id = some signature →
    ∃ method, tree.method? id = some method ∧
      classes.resolveSignature method.declared = .ok signature

theorem signatureOf_signed
    {tree : Arena} {method : Method NodeId} {signature : Signature}
    (defines : tree.method? id = some method)
    (signed : Signed tree before.catalog before.facts)
    (returned : Returns (signatureOf setting id method) before signature after) :
    Signed tree after.catalog after.facts := by
  have here := signature?_of_signatureOf returned
  rcases returns_signatureOf returned with
    ⟨known, rfl⟩ | ⟨_, resolved, location, registers⟩
  · exact @signed
  · obtain ⟨_, same⟩ := AddStep.added (.registerDeclared id method signature location)
      registers
    have stored := registerDeclared_signatures registers
    intro other found known
    rw [same]
    by_cases equal : other = id
    · subst equal
      rw [here] at known
      cases known
      exact ⟨method, defines, resolved⟩
    · apply signed
      rw [← known, Facts.signature?, Facts.signature?, stored]
      exact (Table.get?_insert_of_ne _ equal signature).symm

theorem declareSignatures_signed
    {tree : Arena} {methods : List (NodeId × Method NodeId)}
    (defines : ∀ {id method}, (id, method) ∈ methods → tree.method? id = some method)
    (returned : Returns (declareSignatures setting methods) before () after)
    (signed : Signed tree before.catalog before.facts) :
    Signed tree after.catalog after.facts := by
  induction methods generalizing before with
  | nil =>
      cases returned
      exact @signed
  | cons entry rest ih =>
      obtain ⟨signature, middle, resolves, others⟩ := returns_bind.mp returned
      exact ih (fun member => defines (List.mem_cons_of_mem _ member)) others
        (signatureOf_signed (defines List.mem_cons_self) signed resolves)

end Infer

/-- What the judgement asks of a session concerns its facts alone. -/
def Judgement.OnFacts (judgement : Judgement σ) : Prop :=
  ∀ before after : Session σ, after.facts = before.facts →
    judgement.context before → judgement.context after

namespace Typer

variable {typer : Typer σ} {tree : Arena} {catalog : Catalog} {state : σ}

/-- Once a fresh typer has registered the declarations of its tree, the session is
regular and no node has a type. -/
theorem registered_regular
    (keyed : tree.Keyed) {registered : Session σ}
    (registers : Returns typer.registerTypes (start tree catalog state) () registered) :
    registered.Regular tree (tree.declare catalog) ∧
      ∀ id, registered.facts.nodeType? id = none := by
  obtain ⟨_, resolves⟩ := returns_registerTypes registers
  have adds : AddStep typer.setting (declareSignatures typer.setting tree.methods) :=
    declareSignatures_adds tree.methods
  obtain ⟨added, ended⟩ := adds.added resolves
  have sameCatalog : registered.catalog = tree.declare catalog := by
    rw [ended]
    rfl
  have same := Facts.Learned.sameNodes (Facts.Added.learned added)
  have fresh : Signed tree (tree.declare catalog) (start tree catalog state).facts :=
    fun known => nomatch known
  have signed : Signed tree (tree.declare catalog) registered.facts := by
    rw [← sameCatalog]
    exact declareSignatures_signed keyed.mem_methods_iff.mp resolves fresh
  refine ⟨⟨⟨same.arena, same.expansions⟩, sameCatalog, ?_, ?_, ?_⟩, ?_⟩
  · intro id types known
    rw [Facts.argumentTypes?, same.argumentTypes] at known
    cases known
  · intro id method defines
    obtain ⟨signature, known⟩ :=
      signature?_of_declareSignatures resolves (keyed.mem_methods_iff.mpr defines)
    obtain ⟨other, found, resolved⟩ := signed known
    rw [defines] at found
    cases found
    exact ⟨signature, signature, resolved, known, fun _ => rfl⟩
  · exact Facts.Added.distinct added List.Pairwise.nil
  · intro id
    rw [Facts.nodeType?, same.nodeTypes]
    rfl

/-- A regular session stays regular when the declarations are registered again, and
a judgement that asks for facts alone stays true. -/
theorem registerTypes_judged
    {classes : Catalog} {judgement : Judgement σ}
    (established : judgement.Established typer.setting tree classes)
    (onFacts : judgement.OnFacts)
    (keyed : tree.Keyed)
    (declared : tree.declare classes = classes) :
    Upholds (Session.Judged tree classes judgement) (fun stop => stop.isProper = true)
      typer.registerTypes := by
  intro session judged
  have same : session.facts.arena.declare session.catalog = session.catalog := by
    rw [judged.arena, judged.catalog, declared]
  refine registerTypes_upholds (judged.arena ▸ keyed) ?_
    (fun ordinary _ => Stop.isProper_of_isOrdinary ordinary)
    fun _ => (judged_building established keyed).add (.signatureOf _ _)
  intro declaredConstructors
  rw [same]
  have regular : { session with declaredConstructors : Session σ }.Regular tree classes :=
    ⟨⟨judged.arena, judged.unexpanded⟩, judged.catalog, judged.lists, judged.signed,
      judged.distinct⟩
  exact ⟨regular, onFacts session _ rfl judged.context, judged.holds⟩

theorem infer_faithful
    (keeps : typer.expander.KeepsNodes) : Faithful typer.infer where
  adds := typer.infer_extends
  answers {id before answer after} returned := by
    rw [Returns, run_infer] at returned
    exact node_answers keeps returned

theorem infer_judged
    {classes : Catalog} {judgement : Judgement σ}
    (established : judgement.Established typer.setting tree classes)
    (keyed : tree.Keyed)
    (declines : typer.expander.Declines)
    (id : NodeId) :
    Upholds (Session.Judged tree classes judgement) (fun stop => stop.isProper = true)
      (typer.infer id) := by
  intro session judged
  rw [run_infer]
  exact node_judged established keyed declines _ id judged

theorem preserves_judged
    {classes : Catalog} {judgement : Judgement σ}
    (established : judgement.Established typer.setting tree classes)
    (onFacts : judgement.OnFacts)
    (keyed : tree.Keyed)
    (declines : typer.expander.Declines)
    (declared : tree.declare classes = classes) :
    typer.Preserves (Session.Judged tree classes judgement)
      fun stop => stop.isProper = true where
  drives {session} worklist lastChance passes _ judged :=
    { toRegular := judged.toRegular.drive worklist lastChance passes
      context := onFacts session _ rfl judged.context
      holds := judged.holds }
  givesUp := Stop.isProper_of_not_isFault
  registers := registerTypes_judged established onFacts keyed declared
  visits id := infer_judged established keyed declines id
  lists id := arguments_judged established keyed (infer_faithful declines.keepsNodes)
    (infer_judged established keyed declines) id
  adds := (judged_building established keyed).add

/-- Whatever is asked of a typer after it has registered the declarations of its
tree, a judgement that rules establish holds of every node with a type. -/
theorem judged_of_continues
    {judgement : Judgement σ}
    (established : judgement.Established typer.setting tree (tree.declare catalog))
    (onFacts : judgement.OnFacts)
    (keyed : tree.Keyed)
    (declines : typer.expander.Declines)
    {registered session : Session σ}
    (registers : Returns typer.registerTypes (start tree catalog state) () registered)
    (context : judgement.context registered)
    (continues : typer.Continues registered session) :
    session.Judged tree (tree.declare catalog) judgement := by
  obtain ⟨regular, untyped⟩ := registered_regular keyed registers
  have judged : registered.Judged tree (tree.declare catalog) judgement := by
    refine ⟨regular, context, ?_⟩
    intro id ty known
    rw [untyped] at known
    cases known
  exact (preserves_judged established onFacts keyed declines
    (tree.declare_declare catalog)).continues judged continues

/-- Once the declarations are registered, the same holds of a run over all trees, whatever it
answers. -/
theorem inferTypes_judged
    {judgement : Judgement σ}
    (established : judgement.Established typer.setting tree (tree.declare catalog))
    (onFacts : judgement.OnFacts)
    (keyed : tree.Keyed)
    (declines : typer.expander.Declines)
    {registered : Session σ}
    (registers : Returns typer.registerTypes (start tree catalog state) () registered)
    (context : judgement.context registered) :
    (typer.inferTypes.run (start tree catalog state)).2.Judged tree (tree.declare catalog)
      judgement := by
  have judged := judged_of_continues established onFacts keyed declines registers context .refl
  have preserves := preserves_judged established onFacts keyed declines
    (tree.declare_declare catalog)
  exact (preserves.toSustains.inferTypes registers judged).1

/-- The same holds when the inference of all trees succeeds. -/
theorem judged_of_inferTypes
    {judgement : Judgement σ}
    (established : judgement.Established typer.setting tree (tree.declare catalog))
    (onFacts : judgement.OnFacts)
    (keyed : tree.Keyed)
    (declines : typer.expander.Declines)
    (context : ∀ session, judgement.context session)
    {session : Session σ}
    (success : Returns typer.inferTypes (start tree catalog state) () session) :
    session.Judged tree (tree.declare catalog) judgement := by
  obtain ⟨registered, _, registers, _, _⟩ := typer.returns_inferTypes.mp success
  have judged := inferTypes_judged established onFacts keyed declines registers
    (context registered)
  rwa [success] at judged

end Typer

end DeferredTyping
