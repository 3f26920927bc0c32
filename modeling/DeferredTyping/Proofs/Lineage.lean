import Mathlib.Data.List.Chain
import DeferredTyping.Proofs.Assignability
import DeferredTyping.Proofs.SuperclassChains

/-!
# The way up from a type

The chain of superclasses of a type is walked until it ends or comes back to a type it went
through, however the declared classes hang together.  Class objects stay among class objects.
Where classes extend classes alone, each type on the way up is a parent of the first one.
-/

namespace DeferredTyping.Catalog

variable {catalog : Catalog}

/-- The list goes from the type to its superclass, and so on, through each type once, until a
type has no superclass or one that is already in the list. -/
structure GoesUp (catalog : Catalog) (ty : Ty) (chain : List Ty) : Prop where
  first : chain.head? = some ty
  follows : chain.IsChain fun lower upper => catalog.superclass? lower = some upper
  once : chain.Nodup
  ends : ∀ last ∈ chain.getLast?, ∀ upper ∈ catalog.superclass? last, upper ∈ chain

section Walk

/-- The walk up from a type, given the types that were visited before. -/
inductive WalksUp (catalog : Catalog) : (visited : List Ty) → Ty → List Ty → Prop where
  | again {visited : List Ty} {ty : Ty} (seen : ty ∈ visited) :
      WalksUp catalog visited ty []
  | last {visited : List Ty} {ty : Ty} (fresh : ty ∉ visited)
      (top : catalog.superclass? ty = none) :
      WalksUp catalog visited ty [ty]
  | step {visited chain : List Ty} {ty parent : Ty} (fresh : ty ∉ visited)
      (above : catalog.superclass? ty = some parent)
      (onward : WalksUp catalog (ty :: visited) parent chain) :
      WalksUp catalog visited ty (ty :: chain)

theorem chainFrom_of_not_mem
    (steps : Nat) {visited : List Ty} {ty : Ty} (fresh : ty ∉ visited) :
    catalog.chainFrom (steps + 1) visited ty =
      ty :: (catalog.superclass? ty).elim [] (catalog.chainFrom steps (ty :: visited)) := by
  rw [chainFrom, if_neg (by simpa using fresh)]
  cases catalog.superclass? ty with
  | none => rfl
  | some parent => rfl

/-- A walk that one more step would not make longer has come to its end. -/
theorem walksUp_of_chainFrom
    {steps : Nat} {visited : List Ty} {ty : Ty}
    (settled : catalog.chainFrom (steps + 1) visited ty = catalog.chainFrom steps visited ty) :
    catalog.WalksUp visited ty (catalog.chainFrom steps visited ty) := by
  induction steps generalizing visited ty with
  | zero =>
      by_cases fresh : ty ∉ visited
      · rw [chainFrom_of_not_mem 0 fresh] at settled
        cases settled
      · exact .again (not_not.mp fresh)
  | succ steps ih =>
      by_cases fresh : ty ∉ visited
      · rw [chainFrom_of_not_mem _ fresh, chainFrom_of_not_mem _ fresh] at settled
        rw [chainFrom_of_not_mem _ fresh]
        cases above : catalog.superclass? ty with
        | none => exact .last fresh above
        | some parent =>
            rw [above] at settled
            exact .step fresh above (ih (List.cons.inj settled).2)
      · have seen : ty ∈ visited := not_not.mp fresh
        rw [chainFrom_of_contains _ (by simpa using seen)]
        exact .again seen

namespace WalksUp

variable {visited chain : List Ty} {ty : Ty}

theorem head?_eq (walks : catalog.WalksUp visited ty chain) (fresh : ty ∉ visited) :
    chain.head? = some ty := by
  cases walks with
  | again seen => exact absurd seen fresh
  | last => rfl
  | step => rfl

theorem not_mem (walks : catalog.WalksUp visited ty chain) :
    ∀ other ∈ chain, other ∉ visited := by
  induction walks with
  | again => nofun
  | last fresh => exact fun other only => List.mem_singleton.mp only ▸ fresh
  | step fresh _ _ ih =>
      intro other member
      rcases List.mem_cons.mp member with rfl | later
      · exact fresh
      · exact fun seen => ih other later (List.mem_cons_of_mem _ seen)

theorem nodup (walks : catalog.WalksUp visited ty chain) : chain.Nodup := by
  induction walks with
  | again => exact List.nodup_nil
  | last => exact List.nodup_cons.mpr ⟨List.not_mem_nil, List.nodup_nil⟩
  | step _ _ onward ih =>
      exact List.nodup_cons.mpr ⟨fun again => onward.not_mem _ again List.mem_cons_self, ih⟩

theorem isChain (walks : catalog.WalksUp visited ty chain) :
    chain.IsChain fun lower upper => catalog.superclass? lower = some upper := by
  induction walks with
  | again => exact .nil
  | last => exact .singleton _
  | @step visited chain ty parent _ above onward ih =>
      refine ih.cons fun next isNext => ?_
      cases onward with
      | again => cases isNext
      | last => cases isNext; exact above
      | step => cases isNext; exact above

theorem ends (walks : catalog.WalksUp visited ty chain) :
    ∀ last ∈ chain.getLast?, ∀ upper ∈ catalog.superclass? last,
      upper ∈ visited ∨ upper ∈ chain := by
  induction walks with
  | again => nofun
  | last _ top =>
      rintro last ⟨⟩ upper isUpper
      cases top.symm.trans isUpper
  | @step visited chain ty parent _ above onward ih =>
      intro last isLast upper isUpper
      cases chain with
      | nil =>
          -- The walk breaks off here, so the superclass was visited.
          cases isLast
          cases above.symm.trans isUpper
          cases onward with
          | again seen =>
              rcases List.mem_cons.mp seen with rfl | earlier
              · exact .inr List.mem_cons_self
              · exact .inl earlier
      | cons next rest =>
          rcases ih last isLast upper isUpper with seen | later
          · rcases List.mem_cons.mp seen with rfl | earlier
            · exact .inr List.mem_cons_self
            · exact .inl earlier
          · exact .inr (List.mem_cons_of_mem _ later)

end WalksUp

/-- However the classes hang together, the chain of superclasses goes all the way up. -/
theorem goesUp_superclassChain (knows : catalog.KnowsBuiltins) (ty : Ty) :
    catalog.GoesUp ty (catalog.superclassChain ty) := by
  have walks : catalog.WalksUp [] ty (catalog.superclassChain ty) :=
    walksUp_of_chainFrom (chainFrom_eq_superclassChain knows (Nat.le_succ _) ty)
  refine ⟨walks.head?_eq List.not_mem_nil, walks.isChain, walks.nodup, ?_⟩
  intro last isLast upper isUpper
  exact (walks.ends last isLast upper isUpper).resolve_left List.not_mem_nil

end Walk

/-- What holds of a type and is handed on to superclasses holds on the whole way up. -/
theorem GoesUp.forall_mem
    {ty : Ty} {chain : List Ty} (goesUp : catalog.GoesUp ty chain) {holds : Ty → Prop}
    (first : holds ty)
    (carries : ∀ ⦃lower upper⦄, catalog.superclass? lower = some upper → holds lower →
      holds upper) :
    ∀ upper ∈ chain, holds upper := by
  obtain ⟨rest, rfl⟩ := List.head?_eq_some_iff.mp goesUp.first
  exact goesUp.follows.induction holds _ carries fun _ => first

theorem GoesUp.isMeta_eq
    {ty : Ty} {chain : List Ty} (goesUp : catalog.GoesUp ty chain) :
    ∀ upper ∈ chain, upper.isMeta = ty.isMeta :=
  goesUp.forall_mem rfl fun _ _ above same => (directSuperclass_of_superclass? above).2.trans same

section Parents

/-- No class names a primitive type, `void` or an array as its superclass. -/
def ExtendsClasses (catalog : Catalog) : Prop :=
  ∀ entry ∈ catalog.classes.values, ∀ text ∈ entry.superclass, ∀ ty ∈ catalog.resolve text,
    ty.className?.isSome = true

instance (catalog : Catalog) : Decidable catalog.ExtendsClasses :=
  inferInstanceAs (Decidable (∀ entry ∈ catalog.classes.values, _))

theorem stripBrackets_of_fst_eq_zero {name : List Char} (flat : (stripBrackets name).1 = 0) :
    (stripBrackets name).2 = name := by
  unfold stripBrackets at flat ⊢
  split
  · simp at flat
  · rfl

/-- A written name that means a class is a name of the class. -/
theorem canonical?_of_resolve
    {text : String} {ty : Ty} (resolved : catalog.resolve text = some ty)
    (isClass : ty.className?.isSome = true) :
    ∃ full, ty = .object full ∧ catalog.canonical? text = some full := by
  rw [resolve_eq] at resolved
  obtain ⟨element, found, rfl⟩ := Option.map_eq_some_iff.mp resolved
  cases depth : (stripBrackets text.toList.reverse).1 with
  | succ deeper =>
      rw [depth] at isClass
      cases isClass
  | zero =>
      have same : elementName text = text := by
        rw [elementName, stripBrackets_of_fst_eq_zero depth, List.reverse_reverse,
          String.ofList_toList]
      rw [depth] at isClass
      rw [same] at found
      cases standsFor_of_resolveElement found with
      | void => cases isClass
      | primitive _ => cases isClass
      | object stands => exact ⟨_, rfl, stands⟩

/-- The superclass of a type is a parent of it. -/
theorem isParent_of_superclass?
    (knows : catalog.KnowsBuiltins) (extendsClasses : catalog.ExtendsClasses) {ty parent : Ty}
    (above : catalog.superclass? ty = some parent) :
    catalog.isParent parent ty = true := by
  obtain ⟨direct, flag⟩ := directSuperclass_of_superclass? above
  have accepts : parent.shape.Accepts catalog ty.shape := by
    generalize ty.shape = lower, parent.shape = upper at direct
    cases direct with
    | @declared name text entry written known declares resolved =>
        obtain ⟨found, stands, stored⟩ := Option.bind_eq_some_iff.mp known
        have listed : entry ∈ catalog.classes.values :=
          List.mem_map.mpr ⟨_, Table.mem_entries_of_get?_eq_some stored, rfl⟩
        obtain ⟨full, rfl, names⟩ := canonical?_of_resolve resolved
          (extendsClasses entry listed text declares written resolved)
        refine .inherits (.single ?_)
        have given : text ∈ entry.parents := by simp [ClassEntry.parents, declares]
        rw [canonical_of_canonical? (knows.canonical?_canonical names), NamesParent, parentNames,
          known, ← canonical_of_canonical? names]
        exact List.mem_map_of_mem given
    | interface _ => exact .root _ (canonical_of_canonical? knows.canonical?_objectName)
    | array => exact .objectArray _ _ knows.canonical?_objectName
  simp only [isParent, Bool.or_eq_true, Bool.and_eq_true, beq_iff_eq, shapeAccepts_iff]
  exact .inr ⟨flag, accepts⟩

/-- Where classes extend classes alone and the root class has no parent but itself, every type
on the way up is a parent of the first one. -/
theorem GoesUp.isParent
    {ty : Ty} {chain : List Ty} (goesUp : catalog.GoesUp ty chain)
    (rooted : catalog.Rooted) (extendsClasses : catalog.ExtendsClasses) :
    ∀ upper ∈ chain, catalog.isParent upper ty = true :=
  goesUp.forall_mem (catalog.isParent_refl ty) fun _ _ above lower =>
    rooted.isParent_trans (isParent_of_superclass? rooted.knows extendsClasses above) lower

end Parents

end DeferredTyping.Catalog
