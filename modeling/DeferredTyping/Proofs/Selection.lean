import DeferredTyping.Proofs.MostSpecific
import DeferredTyping.Proofs.Overloads

/-!
# What decides a call

A call looks at the overloads of its name along the superclasses of its receiver.
Overloads that do not take the arguments decide nothing, so an answer lasts until
an overload is learned that takes them.
-/

namespace DeferredTyping

/-- The method takes the arguments, one for one or spread into its rest array. -/
def MethodType.takes (isParent : Assignable) (arguments : List Ty) (method : MethodType) :
    Bool :=
  method.accepts isParent arguments || method.acceptsSpread isParent arguments

namespace Overloads

variable {isParent : Assignable} {arguments : List Ty} {early late : List MethodType}

theorem filter_append_of_idle
    {test : MethodType → Bool} (idle : ∀ method ∈ late, test method = false) :
    (early ++ late).filter test = early.filter test := by
  have none : late.filter test = [] :=
    List.filter_eq_nil_iff.mpr fun method member => by simp [idle method member]
  rw [List.filter_append, none, List.append_nil]

/-- Overloads that do not take the arguments leave the choice as it was. -/
theorem select_append
    (refl : ∀ ty, isParent ty ty = true)
    (idle : ∀ method ∈ late, method.takes isParent arguments = false) :
    select isParent (early ++ late) arguments = select isParent early arguments := by
  have accepting : ∀ method ∈ late, method.accepts isParent arguments = false := by
    intro method member
    have refused := idle method member
    simp only [MethodType.takes, Bool.or_eq_false_iff] at refused
    exact refused.1
  have spreading : ∀ method ∈ late, method.acceptsSpread isParent arguments = false := by
    intro method member
    have refused := idle method member
    simp only [MethodType.takes, Bool.or_eq_false_iff] at refused
    exact refused.2
  have exact : late.find? (fun method => method.parameters == arguments) = none := by
    refine List.find?_eq_none.mpr ?_
    intro method member same
    have accepted : method.accepts isParent arguments = true := by
      rw [MethodType.accepts, eq_of_beq same]
      exact Assignable.accepts_iff.mpr (.refl refl arguments)
    rw [accepting method member] at accepted
    cases accepted
  unfold select applicable
  rw [List.find?_append, exact, Option.or_none, filter_append_of_idle accepting,
    filter_append_of_idle spreading]

end Overloads

namespace Members

theorem firstOffer_congr
    {offer other : Ty → LookupResult} {chain : List Ty}
    (same : ∀ candidate ∈ chain, offer candidate = other candidate) :
    firstOffer offer chain = firstOffer other chain := by
  induction chain with
  | nil => rfl
  | cons candidate rest ih =>
      rw [firstOffer, firstOffer, same candidate List.mem_cons_self,
        ih fun later member => same later (List.mem_cons_of_mem candidate member)]

/-- A call that means a method goes on to mean it until, on the way up from its
receiver, an overload is learned that takes its arguments. -/
theorem find_of_prefix
    (catalog : Catalog) {early late : MethodTable} (grown : early.entries <+: late.entries)
    {receiver : Ty} {name : String} {arguments : List Ty}
    (idle : ∀ method ∈ late.entries.drop early.entries.length,
      method.definingClass ∈ catalog.superclassChain receiver → method.name = name →
        method.takes catalog.isParent arguments = false) :
    Members.find { catalog, methods := late } receiver name arguments =
      Members.find { catalog, methods := early } receiver name arguments := by
  obtain ⟨learned, split⟩ := grown
  have rest : late.entries.drop early.entries.length = learned := by
    rw [← split, List.drop_left]
  rw [rest] at idle
  apply firstOffer_congr
  intro candidate onChain
  have same : Overloads.select catalog.isParent (late.overloads candidate name) arguments =
      Overloads.select catalog.isParent (early.overloads candidate name) arguments := by
    rw [MethodTable.overloads, ← split, List.filter_append]
    apply Overloads.select_append catalog.isParent_refl
    intro method member
    obtain ⟨fresh, key⟩ := List.mem_filter.mp member
    simp only [Bool.and_eq_true, beq_iff_eq] at key
    exact idle method fresh (key.1 ▸ onChain) key.2
  unfold declared
  rw [same]

end Members

end DeferredTyping
