import DeferredTyping.Proofs.Edits
import DeferredTyping.Proofs.Extraction

/-!
# Where a node stands

The nearest class, interface or script at or above a node decides what `self` is there, and
a static method in between makes it the class object.  A lineage is read up to the number
of nodes; the nodes on the way to the one that decides are all different, so the bound is
never what ends the search.  Edits change neither the parent of a node nor what it says
about `self`, so what was decided once stays decided.
-/

namespace DeferredTyping

/-- What a node says about `self` at the nodes below it. -/
inductive SelfRole where
  | script (name : String)
  /-- A class or an interface. -/
  | type (name : String)
  | method (isStatic : Bool)
  | inner

namespace SelfRole

/-- The type that is decided here; the flag tells whether a static method was passed on the
way up. -/
def decides? (scriptClass : String) (isStatic : Bool) : SelfRole → Option Ty
  | .script name => some (scriptType scriptClass name).toMeta
  | .type name => some (if isStatic then (Ty.object name).toMeta else .object name)
  | .method _ | .inner => none

def isStatic : SelfRole → Bool
  | .method isStatic => isStatic
  | _ => false

/-- A static method on the way changes the type that is decided, not where. -/
theorem decides?_true (scriptClass : String) (flag : Bool) (role : SelfRole) :
    role.decides? scriptClass true =
      (role.decides? scriptClass flag).map Ty.toMeta := by
  cases role <;> cases flag <;> rfl

end SelfRole

def Kind.selfRole {α : Type} : Kind α → SelfRole
  | .script name _ => .script name
  | .classDefinition name _ _ _ => .type name
  | .interfaceDeclaration name _ _ => .type name
  | .methodDefinition method => .method method.isStatic
  | _ => .inner

/-- Neither a script, a class, an interface nor a static method. -/
def Kind.keepsSelf {α : Type} : Kind α → Bool
  | .script .. | .classDefinition .. | .interfaceDeclaration .. => false
  | .methodDefinition method => !method.isStatic
  | _ => true

theorem Kind.selfRole_of_keepsSelf {α : Type} {kind : Kind α} (keeps : kind.keepsSelf = true)
    (scriptClass : String) (flag : Bool) :
    kind.selfRole.decides? scriptClass flag = none ∧ kind.selfRole.isStatic = false := by
  cases kind with
  | script _ _ | classDefinition _ _ _ _ | interfaceDeclaration _ _ _ => cases keeps
  | methodDefinition method =>
      rw [keepsSelf, Bool.not_eq_true'] at keeps
      exact ⟨rfl, keeps⟩
  | _ => exact ⟨rfl, rfl⟩

theorem Kind.selfRole_mapChildrenM {m : Type → Type} [Monad m] [LawfulMonad m] {α : Type}
    (visit : α → m α) (kind : Kind α) :
    selfRole <$> kind.mapChildrenM visit =
      (fun _ => kind.selfRole) <$> kind.mapChildrenM visit := by
  cases kind <;> simp [mapChildrenM, selfRole, Method.isStatic]

theorem Kind.selfRole_of_replaceFirst? {kind replaced : Kind NodeId} {old new : NodeId}
    (found : kind.replaceFirst? old new = some replaced) :
    replaced.selfRole = kind.selfRole := by
  unfold replaceFirst? at found
  split at found
  · rename_i met
    cases found
    have same := congrArg (fun step => (StateT.run step false).1)
      (kind.selfRole_mapChildrenM (swapFirst old new))
    simp only [StateT.run_map, met] at same
    exact same
  · cases found

theorem selfTypeFrom?_cons
    (scriptClass : String) (flag : Bool) (node : Node) (outer : List Node) :
    selfTypeFrom? scriptClass flag (node :: outer) =
      (node.kind.selfRole.decides? scriptClass flag).or
        (selfTypeFrom? scriptClass (flag || node.kind.selfRole.isStatic) outer) := by
  obtain ⟨_, _, _, kind⟩ := node
  cases kind <;> simp [selfTypeFrom?, Kind.selfRole, SelfRole.decides?, SelfRole.isStatic]

namespace Arena

variable {arena before after : Arena} {scriptClass : String} {flag : Bool} {depth : Nat}
  {id parent : NodeId} {ty : Ty}

/-- So many parent links above the node, a class, interface or script decides that `self`
has this type; the flag tells whether a static method was passed on the way to the node. -/
inductive Stands (arena : Arena) (scriptClass : String) :
    Nat → Bool → NodeId → Ty → Prop where
  | here {flag id node ty} (present : arena.find? id = some node)
      (decides : node.kind.selfRole.decides? scriptClass flag = some ty) :
      Stands arena scriptClass 0 flag id ty
  | above {depth flag id node parent ty} (present : arena.find? id = some node)
      (passes : node.kind.selfRole.decides? scriptClass flag = none)
      (link : node.parent = some parent)
      (outer : Stands arena scriptClass depth (flag || node.kind.selfRole.isStatic) parent ty) :
      Stands arena scriptClass (depth + 1) flag id ty

namespace Stands

/-- Below a static method `self` is the class object. -/
theorem toMeta (stands : arena.Stands scriptClass depth flag id ty) :
    arena.Stands scriptClass depth true id ty.toMeta := by
  induction stands with
  | @here flag _ node _ present decides =>
      exact .here present (by rw [SelfRole.decides?_true _ flag, decides]; rfl)
  | @above _ flag _ node _ _ present passes link _ ih =>
      exact .above present (by rw [SelfRole.decides?_true _ flag, passes]; rfl) link ih

/-- Where the type of `self` is decided does not depend on static methods. -/
theorem depth_unique {other : Nat} {flag' : Bool} {ty' : Ty}
    (one : arena.Stands scriptClass depth flag id ty)
    (two : arena.Stands scriptClass other flag' id ty') : depth = other := by
  have elsewhere : ∀ {node : Node} {flag flag' : Bool} {ty : Ty},
      node.kind.selfRole.decides? scriptClass flag = none →
      node.kind.selfRole.decides? scriptClass flag' ≠ some ty := by
    intro node flag flag' ty passes decides
    have decided := node.kind.selfRole.decides?_true scriptClass flag
    rw [node.kind.selfRole.decides?_true scriptClass flag', passes, decides] at decided
    cases decided
  induction one generalizing other flag' ty' with
  | here present decides =>
      cases two with
      | here _ _ => rfl
      | above found passes _ _ =>
          cases present.symm.trans found
          exact absurd decides (elsewhere passes)
  | above present passes link _ ih =>
      cases two with
      | here found decides =>
          cases present.symm.trans found
          exact absurd decides (elsewhere passes)
      | above found _ also outer =>
          cases present.symm.trans found
          cases link.symm.trans also
          rw [ih outer]

/-- The nodes on the way up are different from each other, for each decides at a depth of its
own. -/
theorem depth_lt_size (stands : arena.Stands scriptClass depth flag id ty) :
    depth < arena.size := by
  have path : ∃ path : List NodeId, path.length = depth + 1 ∧ path.Nodup ∧
      ∀ below ∈ path, below ∈ arena.nodes.keys ∧
        ∃ steps flag ty, steps ≤ depth ∧ arena.Stands scriptClass steps flag below ty := by
    induction stands with
    | @here flag id _ ty present decides =>
        refine ⟨[id], rfl, List.nodup_singleton id, ?_⟩
        intro below only
        rw [List.mem_singleton.mp only]
        exact ⟨Table.mem_keys_of_get?_eq_some present, 0, flag, ty, Nat.le_refl 0,
          .here present decides⟩
    | @above depth flag id _ _ ty present passes link outer ih =>
        obtain ⟨path, length, distinct, inside⟩ := ih
        have whole : arena.Stands scriptClass (depth + 1) flag id ty :=
          .above present passes link outer
        have fresh : id ∉ path := by
          intro again
          obtain ⟨_, steps, _, _, short, stands⟩ := inside id again
          have same := whole.depth_unique stands
          omega
        refine ⟨id :: path, congrArg (· + 1) length, List.nodup_cons.mpr ⟨fresh, distinct⟩, ?_⟩
        intro below member
        rcases List.mem_cons.mp member with rfl | later
        · exact ⟨Table.mem_keys_of_get?_eq_some present, _, _, _, Nat.le_refl _, whole⟩
        · obtain ⟨key, steps, flag, ty, short, stands⟩ := inside below later
          exact ⟨key, steps, flag, ty, by omega, stands⟩
  obtain ⟨path, length, distinct, inside⟩ := path
  have fits := length_le_of_stored distinct fun below member => (inside below member).1
  omega

theorem find? (stands : arena.Stands scriptClass depth flag id ty) :
    ∃ node, arena.find? id = some node := by
  cases stands with
  | here present _ => exact ⟨_, present⟩
  | above present _ _ _ => exact ⟨_, present⟩

/-- A lineage that is long enough decides. -/
theorem selfTypeFrom?_lineageWithin
    (stands : arena.Stands scriptClass depth flag id ty) {steps : Nat} (enough : depth < steps) :
    selfTypeFrom? scriptClass flag (arena.lineageWithin steps (some id)) = some ty := by
  induction stands generalizing steps with
  | here present decides =>
      obtain ⟨steps, rfl⟩ := Nat.exists_eq_add_of_lt enough
      rw [lineageWithin, present]
      dsimp only
      rw [selfTypeFrom?_cons, decides, Option.some_or]
  | above present passes link _ ih =>
      obtain ⟨steps, rfl⟩ : ∃ rest, steps = rest + 1 := ⟨steps - 1, by omega⟩
      rw [lineageWithin, present]
      dsimp only
      rw [selfTypeFrom?_cons, passes, link, Option.none_or]
      exact ih (by omega)

end Stands

/-- What a lineage decides is decided at some depth. -/
theorem stands_of_selfTypeFrom? {steps : Nat}
    (decided : selfTypeFrom? scriptClass flag (arena.lineageWithin steps (some id)) = some ty) :
    ∃ depth, arena.Stands scriptClass depth flag id ty := by
  induction steps generalizing flag id with
  | zero => cases decided
  | succ steps ih =>
      rw [lineageWithin] at decided
      cases present : arena.find? id with
      | none =>
          rw [present] at decided
          cases decided
      | some node =>
          rw [present] at decided
          dsimp only at decided
          rw [selfTypeFrom?_cons] at decided
          cases here : node.kind.selfRole.decides? scriptClass flag with
          | some other =>
              rw [here, Option.some_or] at decided
              cases decided
              exact ⟨0, .here present here⟩
          | none =>
              rw [here, Option.none_or] at decided
              cases link : node.parent with
              | none =>
                  rw [link] at decided
                  cases steps <;> cases decided
              | some parent =>
                  rw [link] at decided
                  obtain ⟨depth, outer⟩ := ih decided
                  exact ⟨depth + 1, .above present here link outer⟩

/-- The type of `self` is what is decided above the node, however far above. -/
theorem selfType_eq_ok_iff :
    arena.selfType scriptClass id = .ok ty ↔
      ∃ depth, arena.Stands scriptClass depth false id ty := by
  constructor
  · intro known
    obtain ⟨node, present, decides⟩ := exists_of_bind_eq_ok known
    split at decides
    · rename_i decided
      cases decides
      exact stands_of_selfTypeFrom? decided
    · cases decides
  · rintro ⟨depth, stands⟩
    obtain ⟨node, present⟩ := stands.find?
    have decided := stands.selfTypeFrom?_lineageWithin stands.depth_lt_size
    simp only [selfType, require_of_find? present, lineage, decided, bind, Except.bind]
    rfl

/-- The node above a node whose kind keeps `self`. -/
def KeepsSelf (arena : Arena) (id parent : NodeId) : Prop :=
  ∃ node, arena.find? id = some node ∧ node.kind.keepsSelf = true ∧ node.parent = some parent

/-- `self` is the same at such a node and at its parent. -/
theorem KeepsSelf.selfType
    (keeps : arena.KeepsSelf id parent) (known : arena.selfType scriptClass parent = .ok ty) :
    arena.selfType scriptClass id = .ok ty := by
  obtain ⟨node, present, kept, link⟩ := keeps
  obtain ⟨depth, outer⟩ := selfType_eq_ok_iff.mp known
  obtain ⟨passes, noStatic⟩ := Kind.selfRole_of_keepsSelf kept scriptClass false
  refine selfType_eq_ok_iff.mpr ⟨depth + 1, .above present passes link ?_⟩
  rw [noStatic]
  exact outer

/-- At a method definition `self` has the type of the class around it, that of the class
object at a static one. -/
theorem selfType_of_lexicalClass {method : Method NodeId} {lexical : Ty}
    (defines : arena.method? id = some method)
    (around : arena.lexicalClass scriptClass id = .ok lexical) :
    arena.selfType scriptClass id =
      .ok (if method.isStatic then lexical.toMeta else lexical) := by
  obtain ⟨node, present, isMethod⟩ := Option.bind_eq_some_iff.mp defines
  have kind := Kind.method?_eq_some_iff.mp isMethod
  have role : node.kind.selfRole = .method method.isStatic := by rw [kind]; rfl
  unfold lexicalClass at around
  split at around
  · rename_i parent link
    rw [parent?, present] at link
    obtain ⟨depth, outer⟩ := selfType_eq_ok_iff.mp around
    refine selfType_eq_ok_iff.mpr ⟨depth + 1, .above present (by rw [role]; rfl) link ?_⟩
    rw [role]
    cases isStatic : method.isStatic with
    | true => exact outer.toMeta
    | false => exact outer
  · cases around

/-- Nodes stay below their parents and say about `self` what they said. -/
def KeepsStanding : Arena → Arena → Prop :=
  Keeps fun node => (node.parent, node.kind.selfRole)

namespace KeepsStanding

theorem refl (arena : Arena) : arena.KeepsStanding arena :=
  Keeps.refl _ arena

theorem trans {first second third : Arena}
    (early : first.KeepsStanding second) (late : second.KeepsStanding third) :
    first.KeepsStanding third :=
  Keeps.trans early late

theorem find? (keeps : before.KeepsStanding after) {node : Node}
    (present : before.find? id = some node) :
    ∃ later, after.find? id = some later ∧ later.parent = node.parent ∧
      later.kind.selfRole = node.kind.selfRole := by
  obtain ⟨later, still, same⟩ := keeps present
  exact ⟨later, still, congrArg Prod.fst same, congrArg Prod.snd same⟩

theorem setKind {node : Node} {kind : Kind NodeId} (present : arena.find? id = some node)
    (same : kind.selfRole = node.kind.selfRole) :
    arena.KeepsStanding (arena.setKind id kind) := by
  refine Keeps.setKind fun {other} stored => ?_
  cases present.symm.trans stored
  exact congrArg (Prod.mk node.parent) same

theorem replaceChild {old new : NodeId}
    (replaced : before.replaceChild parent old new = .ok after) :
    before.KeepsStanding after := by
  obtain ⟨_, node, kind, _, _, held, refilled, rfl⟩ := replaceChild_replaces replaced
  exact setKind held (Kind.selfRole_of_replaceFirst? refilled)

/-- A constructor that gives up its delegation stays the method definition that it was. -/
theorem recordCall (arena : Arena) (id : NodeId) (call : Delegation) :
    arena.KeepsStanding (arena.recordCall id call) := by
  unfold Arena.recordCall
  split
  · rename_i method defines
    obtain ⟨node, present, isMethod⟩ := Option.bind_eq_some_iff.mp defines
    refine setKind present ?_
    rw [Kind.method?_eq_some_iff.mp isMethod]
    cases call <;> rfl
  · exact refl arena

theorem extractDelegation
    (extracted : before.extractDelegation id = .ok after) : before.KeepsStanding after := by
  rw [extractDelegation_eq] at extracted
  obtain ⟨opening, _, split⟩ := exists_of_bind_eq_ok extracted
  cases opening with
  | none =>
      cases split
      exact refl before
  | some opening =>
      have reserved : before.KeepsStanding before.reserve.2 := refl before
      dsimp only at split
      rw [detach_eq] at split
      obtain ⟨grown, added, replaced⟩ := exists_of_bind_eq_ok split
      obtain ⟨edited, swapped, recorded⟩ := exists_of_bind_eq_ok replaced
      cases recorded
      exact ((reserved.trans (Keeps.add _ added)).trans (replaceChild swapped)).trans
        (recordCall _ _ _)

/-- What is decided about `self` stays decided. -/
theorem stands (keeps : before.KeepsStanding after)
    (stands : before.Stands scriptClass depth flag id ty) :
    after.Stands scriptClass depth flag id ty := by
  induction stands with
  | here present decides =>
      obtain ⟨later, still, _, standing⟩ := keeps.find? present
      exact .here still (standing ▸ decides)
  | above present passes link _ ih =>
      obtain ⟨later, still, parent, standing⟩ := keeps.find? present
      exact .above still (standing ▸ passes) (parent.trans link) (standing ▸ ih)

theorem selfType (keeps : before.KeepsStanding after)
    (known : before.selfType scriptClass id = .ok ty) :
    after.selfType scriptClass id = .ok ty := by
  obtain ⟨depth, stands⟩ := selfType_eq_ok_iff.mp known
  exact selfType_eq_ok_iff.mpr ⟨depth, keeps.stands stands⟩

theorem lexicalClass (keeps : before.KeepsStanding after)
    (known : before.lexicalClass scriptClass id = .ok ty) :
    after.lexicalClass scriptClass id = .ok ty := by
  unfold Arena.lexicalClass at known
  split at known
  · rename_i parent link
    obtain ⟨node, present, under⟩ := Option.bind_eq_some_iff.mp link
    obtain ⟨later, still, same, _⟩ := keeps.find? present
    have above : after.parent? id = some parent := by
      rw [parent?, still]
      exact same.trans under
    rw [Arena.lexicalClass, above]
    exact keeps.selfType known
  · cases known

end KeepsStanding

theorem Edit.keepsStanding (edit : before.Edit after) : before.KeepsStanding after := by
  cases edit with
  | reserve => exact .refl before
  | add added => exact Keeps.add _ added
  | replaceChild replaced => exact .replaceChild replaced
  | extractDelegation extracted => exact .extractDelegation extracted

theorem Edited.keepsStanding (edited : before.Edited after) : before.KeepsStanding after := by
  induction edited with
  | refl => exact .refl before
  | tail _ last ih => exact ih.trans last.keepsStanding

end Arena

end DeferredTyping
