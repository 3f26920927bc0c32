import Mathlib.Data.List.Perm.Subperm
import Mathlib.Logic.Relation
import DeferredTyping.Catalog.Hierarchy

/-!
# The ancestors of a class

The declared parents of classes form an arbitrary finite graph.  A search for what a
name inherits takes the names that wait in any order; whatever the graph looks like, it
ends with everything that is reached along one parent or more, since no name waits
twice.  The closure is such a search, and the steps that it is allowed are enough.

A short name stands for a builtin class, and those are known in every catalogue
that was built from the builtin one.
-/

namespace DeferredTyping.Catalog

variable {catalog : Catalog}

/-- The class of the first name gives the second one as a parent. -/
def NamesParent (catalog : Catalog) (name parent : String) : Prop :=
  parent ∈ catalog.parentNames name

/-- The second name is reached along one parent or more. -/
abbrev Inherits (catalog : Catalog) : String → String → Prop :=
  Relation.TransGen catalog.NamesParent

section Closure

theorem mem_fresh {seen names : List String} {name : String} :
    name ∈ fresh seen names ↔ name ∈ names ∧ name ∉ seen := by
  induction names generalizing seen with
  | nil => simp [fresh]
  | cons first rest ih =>
      rw [fresh]
      split
      · rename_i known
        have present : first ∈ seen := by simpa using known
        rw [ih, List.mem_cons]
        constructor
        · rintro ⟨member, unseen⟩
          exact ⟨.inr member, unseen⟩
        · rintro ⟨rfl | member, unseen⟩
          · exact absurd present unseen
          · exact ⟨member, unseen⟩
      · rename_i unknown
        have absent : first ∉ seen := by simpa using unknown
        rw [List.mem_cons, ih, List.mem_cons, List.mem_cons]
        constructor
        · rintro (rfl | ⟨member, unseen⟩)
          · exact ⟨.inl rfl, absent⟩
          · exact ⟨.inr member, fun seen => unseen (.inr seen)⟩
        · rintro ⟨rfl | member, unseen⟩
          · exact .inl rfl
          · by_cases same : name = first
            · exact .inl same
            · exact .inr ⟨member, fun either => either.elim same unseen⟩

theorem nodup_fresh (seen names : List String) : (fresh seen names).Nodup := by
  induction names generalizing seen with
  | nil => exact List.nodup_nil
  | cons first rest ih =>
      rw [fresh]
      split
      · exact ih seen
      · refine List.nodup_cons.mpr ⟨?_, ih _⟩
        intro again
        exact (mem_fresh.mp again).2 List.mem_cons_self

/-- The names that all classes together give as parents. -/
def allParentNames (catalog : Catalog) : List String :=
  (catalog.classes.values.flatMap ClassEntry.parents).map catalog.canonical

theorem length_allParentNames (catalog : Catalog) :
    catalog.allParentNames.length = catalog.parentCount := by
  rw [allParentNames, parentCount, List.length_map]
  induction catalog.classes.values with
  | nil => rfl
  | cons entry rest ih => rw [List.flatMap_cons, List.length_append, ih, List.foldr_cons]

theorem parentNames_subset (catalog : Catalog) (name : String) :
    catalog.parentNames name ⊆ catalog.allParentNames := by
  intro parent member
  unfold parentNames at member
  split at member
  · rename_i entry known
    obtain ⟨full, _, stored⟩ := Option.bind_eq_some_iff.mp known
    have listed : entry ∈ catalog.classes.values :=
      List.mem_map.mpr ⟨_, Table.mem_entries_of_get?_eq_some stored, rfl⟩
    obtain ⟨written, given, rfl⟩ := List.mem_map.mp member
    exact List.mem_map_of_mem (List.mem_flatMap.mpr ⟨entry, listed, given⟩)
  · cases member

end Closure

/-- How far a search for what a class inherits has come: the names whose parents are
still to be looked up, and the names that were found. -/
structure Search where
  pending : List String
  seen : List String

/-- A step of a search takes any of the names that wait and finds those of its parents
that were not found before, in any order. -/
inductive Search.Step (catalog : Catalog) : Search → Search → Prop where
  | take {pending others seen found : List String} {name : String} :
      pending.Perm (name :: others) → found.Nodup →
      (∀ parent, parent ∈ found ↔ catalog.NamesParent name parent ∧ parent ∉ seen) →
      Step catalog ⟨pending, seen⟩ ⟨found ++ others, seen ++ found⟩

/-- What a search for the parents of a name comes to after so many steps. -/
inductive Searches (catalog : Catalog) (name : String) : Nat → Search → Prop where
  | start : Searches catalog name 0 ⟨[name], []⟩
  | step {steps : Nat} {search next : Search} :
      Searches catalog name steps search → search.Step catalog next →
      Searches catalog name (steps + 1) next

section Search

/-- The names that the search has met: the one it is for, and those it has found. -/
def Search.Met (search : Search) (name other : String) : Prop :=
  other = name ∨ other ∈ search.seen

/-- What holds all through the search for what a name inherits.  Each step takes off one
name, and each name that is found is put up once; so the steps that were made and the
names that wait are as many as the names that were met. -/
structure Search.OnCourse (catalog : Catalog) (name : String) (steps : Nat)
    (search : Search) : Prop where
  count : steps + search.pending.length = search.seen.length + 1
  nodup : search.seen.Nodup
  inherited : ∀ found ∈ search.seen, catalog.Inherits name found
  met : ∀ waiting ∈ search.pending, search.Met name waiting
  settled : ∀ other, search.Met name other →
    other ∈ search.pending ∨ ∀ parent, catalog.NamesParent other parent → parent ∈ search.seen

variable {name : String} {steps : Nat} {search next : Search}

theorem Search.OnCourse.start : OnCourse catalog name 0 ⟨[name], []⟩ where
  count := rfl
  nodup := List.nodup_nil
  inherited _ member := (List.not_mem_nil member).elim
  met _ member := .inl (List.mem_singleton.mp member)
  settled _ met := met.elim (fun same => .inl (List.mem_singleton.mpr same)) fun member =>
    (List.not_mem_nil member).elim

theorem Search.OnCourse.step (course : search.OnCourse catalog name steps)
    (step : search.Step catalog next) : next.OnCourse catalog name (steps + 1) := by
  cases step with
  | @take pending others seen found taken order distinct news =>
      have count : steps + pending.length = seen.length + 1 := course.count
      have size : pending.length = others.length + 1 := order.length_eq
      have takenMet := course.met taken (order.mem_iff.mpr List.mem_cons_self)
      have inherits : ∀ other ∈ found, catalog.Inherits name other := by
        intro other member
        have names := ((news other).mp member).1
        rcases takenMet with rfl | earlier
        · exact .single names
        · exact .tail (course.inherited taken earlier) names
      refine ⟨?_, ?_, ?_, ?_, ?_⟩
      · show steps + 1 + (found ++ others).length = (seen ++ found).length + 1
        rw [List.length_append, List.length_append]
        omega
      · exact List.nodup_append.mpr ⟨course.nodup, distinct,
          fun _ earlier _ new same => ((news _).mp new).2 (same ▸ earlier)⟩
      · intro other member
        exact (List.mem_append.mp member).elim (course.inherited other) (inherits other)
      · intro other member
        rcases List.mem_append.mp member with new | waiting
        · exact .inr (List.mem_append_right _ new)
        · exact (course.met other (order.mem_iff.mpr (List.mem_cons_of_mem _ waiting))).imp_right
            (List.mem_append_left _)
      · intro other met
        by_cases new : other ∈ found
        · exact .inl (List.mem_append_left _ new)
        · have metBefore : other = name ∨ other ∈ seen :=
            met.imp_right fun member => (List.mem_append.mp member).resolve_right new
          rcases course.settled other metBefore with waiting | closed
          · rcases List.mem_cons.mp (order.mem_iff.mp waiting) with rfl | later
            · refine .inr fun parent names => ?_
              by_cases known : parent ∈ seen
              · exact List.mem_append_left _ known
              · exact List.mem_append_right _ ((news parent).mpr ⟨names, known⟩)
            · exact .inl (List.mem_append_right _ later)
          · exact .inr fun parent names => List.mem_append_left _ (closed parent names)

theorem Searches.onCourse (run : catalog.Searches name steps search) :
    search.OnCourse catalog name steps := by
  induction run with
  | start => exact .start
  | step _ step ih => exact ih.step step

/-- A search makes no more steps than parents are named, and one for the name itself. -/
theorem Searches.steps_le (run : catalog.Searches name steps search) :
    steps + search.pending.length ≤ catalog.parentCount + 1 := by
  have course := run.onCourse
  have within : search.seen ⊆ catalog.allParentNames := by
    intro found member
    obtain ⟨lower, _, names⟩ := Relation.TransGen.tail'_iff.mp (course.inherited found member)
    exact catalog.parentNames_subset lower names
  have bound : search.seen.length ≤ catalog.parentCount :=
    length_allParentNames catalog ▸ (course.nodup.subperm within).length_le
  have count := course.count
  omega

/-- When nothing waits any more, the names that were found are those that are inherited. -/
theorem Searches.mem_seen_iff (run : catalog.Searches name steps search)
    (finished : search.pending = []) {ancestor : String} :
    ancestor ∈ search.seen ↔ catalog.Inherits name ancestor := by
  have course := run.onCourse
  have closed : ∀ other, search.Met name other → ∀ parent, catalog.NamesParent other parent →
      parent ∈ search.seen := fun other met =>
    (course.settled other met).resolve_left (finished ▸ List.not_mem_nil)
  refine ⟨course.inherited ancestor, fun inherits => ?_⟩
  induction inherits with
  | single names => exact closed name (.inl rfl) _ names
  | tail _ names ih => exact closed _ (.inr ih) _ names

/-- A search that still has something to look up can go on. -/
theorem Search.exists_step (waits : search.pending ≠ []) : ∃ next, search.Step catalog next := by
  obtain ⟨pending, seen⟩ := search
  obtain ⟨first, others, rfl⟩ := List.exists_cons_of_ne_nil waits
  exact ⟨_, .take (.refl _) (nodup_fresh seen _) fun _ => mem_fresh⟩

/-- The closure is a search to its end: the steps that are left to it are as many as a
search can still make. -/
theorem searches_closeFrom {left : Nat} {stack seen : List String}
    (run : catalog.Searches name steps ⟨stack, seen⟩)
    (room : steps + left = catalog.parentCount + 1) :
    ∃ total, catalog.Searches name total ⟨[], catalog.closeFrom left stack seen⟩ := by
  induction left generalizing steps stack seen with
  | zero =>
      have bound : steps + stack.length ≤ catalog.parentCount + 1 := run.steps_le
      obtain rfl : stack = [] := List.length_eq_zero_iff.mp (by omega)
      exact ⟨steps, run⟩
  | succ left ih =>
      cases stack with
      | nil => exact ⟨steps, run⟩
      | cons first rest =>
          refine ih (run.step (.take (.refl _) (nodup_fresh seen _) fun _ => mem_fresh)) ?_
          omega

/-- The ancestors of a name are what a search for them finds. -/
theorem searches_ancestors (catalog : Catalog) (name : String) :
    ∃ steps, catalog.Searches name steps ⟨[], catalog.ancestors name⟩ :=
  searches_closeFrom .start (Nat.zero_add _)

/-- The ancestors of a name are the names that are reached along one parent or
more. -/
theorem mem_ancestors_iff {name ancestor : String} :
    ancestor ∈ catalog.ancestors name ↔ catalog.Inherits name ancestor := by
  obtain ⟨_, run⟩ := catalog.searches_ancestors name
  exact run.mem_seen_iff rfl

end Search

section Names

/-- The builtin classes are known. -/
def KnowsBuiltins (catalog : Catalog) : Prop :=
  ∀ builtin ∈ builtinClasses, catalog.classes.contains builtin.1 = true

instance (catalog : Catalog) : Decidable catalog.KnowsBuiltins :=
  inferInstanceAs (Decidable (∀ builtin ∈ builtinClasses, _))

theorem KnowsBuiltins.define (knows : catalog.KnowsBuiltins) (declaration : TypeDeclaration) :
    (catalog.define declaration).KnowsBuiltins := by
  intro builtin member
  obtain ⟨entry, known⟩ := Table.contains_eq_true_iff.mp (knows builtin member)
  rw [Table.contains_eq_true_iff]
  by_cases same : builtin.1 = declaration.name
  · rw [same]
    exact ⟨_, Table.get?_insert_self _ _ _⟩
  · exact ⟨entry, (Table.get?_insert_of_ne _ same _).trans known⟩

/-- A known class is its own full name. -/
theorem canonical?_of_contains {name : String}
    (known : catalog.classes.contains name = true) :
    catalog.canonical? name = some name := by
  rw [canonical?, if_pos known]

theorem canonical_of_canonical? {name full : String}
    (stands : catalog.canonical? name = some full) :
    catalog.canonical name = full := by
  rw [canonical, stands, Option.getD_some]

namespace KnowsBuiltins

variable (knows : catalog.KnowsBuiltins)

include knows

theorem canonical?_objectName : catalog.canonical? objectName = some objectName :=
  canonical?_of_contains (knows _ List.mem_cons_self)

theorem contains_of_shortName {short : String × String} (member : short ∈ shortNames) :
    catalog.classes.contains short.2 = true := by
  have builtin : ∀ short ∈ shortNames, ∃ builtin ∈ builtinClasses, builtin.1 = short.2 := by
    decide
  obtain ⟨builtin, member, same⟩ := builtin short member
  exact same ▸ knows builtin member

/-- A full name is the name of a known class. -/
theorem contains_of_canonical? {name full : String}
    (stands : catalog.canonical? name = some full) :
    catalog.classes.contains full = true := by
  unfold canonical? at stands
  split at stands
  · cases stands
    assumption
  · obtain ⟨short, found, rfl⟩ := Option.map_eq_some_iff.mp stands
    exact knows.contains_of_shortName (List.mem_of_find?_eq_some found)

theorem canonical?_canonical {name full : String}
    (stands : catalog.canonical? name = some full) :
    catalog.canonical? full = some full :=
  canonical?_of_contains (knows.contains_of_canonical? stands)

/-- A name and the full name that it stands for have the same parents. -/
theorem parentNames_canonical (name : String) :
    catalog.parentNames (catalog.canonical name) = catalog.parentNames name := by
  cases stands : catalog.canonical? name with
  | none => simp [canonical, stands]
  | some full =>
      have same : catalog.entry? full = catalog.entry? name := by
        simp only [ entry?, stands, knows.canonical?_canonical stands]
      simp only [canonical_of_canonical? stands, parentNames, same]

/-- What is inherited by the full name of a class is inherited by the class. -/
theorem inherits_canonical {name ancestor : String} :
    catalog.Inherits (catalog.canonical name) ancestor ↔ catalog.Inherits name ancestor := by
  have same : catalog.NamesParent (catalog.canonical name) = catalog.NamesParent name := by
    funext parent
    exact congrArg (parent ∈ ·) (knows.parentNames_canonical name)
  rw [Inherits, Relation.TransGen.head'_iff, Relation.TransGen.head'_iff, same]

end KnowsBuiltins

end Names

end DeferredTyping.Catalog
