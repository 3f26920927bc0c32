import DeferredTyping.Method.Lookup

/-!
# What a method table holds

The table has one entry at most for each class, name and parameter list.  A
method that was learned is offered from then on: the table only grows at its
end.
-/

namespace DeferredTyping

/-- The two methods have the same class, name and parameters. -/
def MethodType.SameKey (left right : MethodType) : Prop :=
  left.definingClass = right.definingClass ∧ left.name = right.name ∧
    left.parameters = right.parameters

namespace MethodTable

/-- No two entries have the same class, name and parameters. -/
def Distinct (table : MethodTable) : Prop :=
  table.entries.Pairwise fun left right => ¬ left.SameKey right

/-- The table has an entry like this method. -/
def Offers (table : MethodTable) (method : MethodType) : Prop :=
  ∃ entry ∈ table.entries, entry.SameKey method ∧ entry.returnType = method.returnType

theorem Offers.mono
    {table later : MethodTable} {method : MethodType}
    (offers : table.Offers method)
    (grown : table.entries <+: later.entries) :
    later.Offers method := by
  obtain ⟨entry, member, same⟩ := offers
  exact ⟨entry, grown.subset member, same⟩

theorem mem_overloads_iff
    {table : MethodTable} {definingClass : Ty} {name : String} {entry : MethodType} :
    entry ∈ table.overloads definingClass name ↔
      entry ∈ table.entries ∧ entry.definingClass = definingClass ∧ entry.name = name := by
  simp [overloads]

theorem sameKey_of_findExact?
    {table : MethodTable} {method known : MethodType}
    (found : table.findExact? method.definingClass method.name method.parameters =
      some known) :
    known ∈ table.entries ∧ known.SameKey method := by
  obtain ⟨member, sameClass, sameName⟩ :=
    mem_overloads_iff.mp (List.mem_of_find?_eq_some found)
  have sameParameters := List.find?_some found
  exact ⟨member, sameClass, sameName, by simpa using sameParameters⟩

/-- The ways in which a call to learn a method ends. -/
inductive Learning (table : MethodTable) (method : MethodType) :
    Except MethodType MethodTable → Prop where
  /-- The method was learned before. -/
  | confirmed {known : MethodType} :
      table.findExact? method.definingClass method.name method.parameters = some known →
      known.returnType = method.returnType → Learning table method (.ok table)
  | added :
      table.findExact? method.definingClass method.name method.parameters = none →
      Learning table method (.ok ⟨table.entries ++ [method]⟩)
  | refused {known : MethodType} :
      table.findExact? method.definingClass method.name method.parameters = some known →
      known.returnType ≠ method.returnType → Learning table method (.error known)

theorem learning (table : MethodTable) (method : MethodType) :
    table.Learning method (table.learn method) := by
  unfold learn
  split
  · rename_i known found
    split
    · rename_i sameReturn
      exact .confirmed found sameReturn
    · rename_i otherReturn
      exact .refused found otherReturn
  · rename_i missing
    exact .added missing

section Learned

variable {table learned : MethodTable} {method : MethodType}
  (success : table.learn method = .ok learned)

include success

theorem offers_of_learn : learned.Offers method := by
  have ended := table.learning method
  rw [success] at ended
  cases ended with
  | confirmed found sameReturn =>
      obtain ⟨member, sameKey⟩ := sameKey_of_findExact? found
      exact ⟨_, member, sameKey, sameReturn⟩
  | added _ => exact ⟨method, List.mem_append_right _ List.mem_cons_self, ⟨rfl, rfl, rfl⟩, rfl⟩

/-- Learning a method adds nothing but that method. -/
theorem mem_entries_of_learn {entry : MethodType} (member : entry ∈ learned.entries) :
    entry ∈ table.entries ∨ entry = method := by
  have ended := table.learning method
  rw [success] at ended
  cases ended with
  | confirmed _ _ => exact .inl member
  | added _ => simpa using member

theorem Distinct.learn (distinct : table.Distinct) : learned.Distinct := by
  have ended := table.learning method
  rw [success] at ended
  cases ended with
  | confirmed _ _ => exact distinct
  | added missing =>
      refine List.pairwise_append.mpr ⟨distinct, List.pairwise_singleton _ _, ?_⟩
      intro entry member other only
      rw [List.mem_singleton] at only
      subst only
      rintro ⟨sameClass, sameName, sameParameters⟩
      have passed := List.find?_eq_none.mp missing entry
        (mem_overloads_iff.mpr ⟨member, sameClass, sameName⟩)
      exact passed (by simpa using sameParameters)

end Learned

theorem Distinct.nodup_parameters
    {table : MethodTable} (distinct : table.Distinct) (definingClass : Ty) (name : String) :
    ((table.overloads definingClass name).map MethodType.parameters).Nodup := by
  refine List.pairwise_map.mpr ((distinct.filter _).imp_of_mem ?_)
  intro left right leftListed rightListed apart same
  obtain ⟨_, leftClass, leftName⟩ := mem_overloads_iff.mp leftListed
  obtain ⟨_, rightClass, rightName⟩ := mem_overloads_iff.mp rightListed
  exact apart ⟨leftClass.trans rightClass.symm, leftName.trans rightName.symm, same⟩

/-- In a table without repetitions, an offered method is the only entry of its
key. -/
theorem Distinct.unique
    {table : MethodTable} {method : MethodType}
    (distinct : table.Distinct)
    (offers : table.Offers method) :
    ∃ entry, entry.returnType = method.returnType ∧
      (table.overloads method.definingClass method.name).filter
        (fun other => other.parameters == method.parameters) = [entry] := by
  obtain ⟨entry, member, ⟨sameClass, sameName, sameParameters⟩, sameReturn⟩ := offers
  have listed : entry ∈ (table.overloads method.definingClass method.name).filter
      (fun other => other.parameters == method.parameters) :=
    List.mem_filter.mpr ⟨mem_overloads_iff.mpr ⟨member, sameClass, sameName⟩,
      by simpa using sameParameters⟩
  have keyed : ∀ other ∈ (table.overloads method.definingClass method.name).filter
      (fun other => other.parameters == method.parameters), other.SameKey method := by
    intro other held
    obtain ⟨overload, same⟩ := List.mem_filter.mp held
    obtain ⟨_, otherClass, otherName⟩ := mem_overloads_iff.mp overload
    exact ⟨otherClass, otherName, by simpa using same⟩
  have apart : ((table.overloads method.definingClass method.name).filter
      (fun other => other.parameters == method.parameters)).Pairwise
        fun left right => ¬ left.SameKey right :=
    (distinct.filter _).filter _
  refine ⟨entry, sameReturn, ?_⟩
  generalize (table.overloads method.definingClass method.name).filter
    (fun other => other.parameters == method.parameters) = found at listed keyed apart
  match found with
  | [] => cases listed
  | [only] => rw [List.mem_singleton.mp listed]
  | first :: second :: rest =>
      have one := keyed first List.mem_cons_self
      have two := keyed second (List.mem_cons_of_mem _ List.mem_cons_self)
      exact absurd ⟨one.1.trans two.1.symm, one.2.1.trans two.2.1.symm,
        one.2.2.trans two.2.2.symm⟩ (List.rel_of_pairwise_cons apart List.mem_cons_self)

end MethodTable

end DeferredTyping
