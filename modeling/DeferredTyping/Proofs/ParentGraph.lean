import Mathlib.Data.List.Chain
import DeferredTyping.Proofs.Assignability

/-!
# The graph of parents

The names that classes give as parents make a graph on names: there is an edge to the
full name of the superclass and of each interface, as those names are read now.
Whatever classes are declared, the ancestors of a name are what is reached in it along
one edge or more, in whatever order the search goes, and no search runs forever.  A name
is among its own ancestors just when it lies on a cycle.
-/

namespace DeferredTyping.Catalog

variable {catalog : Catalog}

/-- The edges of the graph of parents: they lead from every name that stands for a known
class to the full names of what that class extends and implements. -/
inductive HasParent (catalog : Catalog) (name : String) : String → Prop where
  | superclass {entry : ClassEntry} {written : String} :
      catalog.entry? name = some entry → entry.superclass = some written →
      HasParent catalog name (catalog.canonical written)
  | interface {entry : ClassEntry} {written : String} :
      catalog.entry? name = some entry → written ∈ entry.interfaces →
      HasParent catalog name (catalog.canonical written)

theorem mem_parents_iff {entry : ClassEntry} {written : String} :
    written ∈ entry.parents ↔ entry.superclass = some written ∨ written ∈ entry.interfaces := by
  rw [ClassEntry.parents, List.mem_append, Option.mem_toList]

theorem namesParent_iff {name parent : String} :
    catalog.NamesParent name parent ↔ ∃ entry, catalog.entry? name = some entry ∧
      ∃ written ∈ entry.parents, catalog.canonical written = parent := by
  unfold NamesParent parentNames
  cases catalog.entry? name with
  | none => simp
  | some entry => simp

theorem namesParent_eq_hasParent : catalog.NamesParent = catalog.HasParent := by
  funext name parent
  rw [eq_iff_iff, namesParent_iff]
  constructor
  · rintro ⟨entry, known, written, given, rfl⟩
    exact (mem_parents_iff.mp given).elim (.superclass known) (.interface known)
  · rintro (⟨known, given⟩ | ⟨known, given⟩)
    · exact ⟨_, known, _, mem_parents_iff.mpr (.inl given), rfl⟩
    · exact ⟨_, known, _, mem_parents_iff.mpr (.inr given), rfl⟩

section Cycles

/-- The name is the first on a cycle of distinct names, each of which has the next one
as a parent, and the last one the first. -/
def OnCycle (catalog : Catalog) (name : String) : Prop :=
  ∃ others : List String, (name :: others).Nodup ∧
    List.IsChain catalog.HasParent (name :: others ++ [name])

/-- A way from one name to another can be cut short where it meets itself. -/
theorem exists_nodup_chain {Edge : String → String → Prop} {first last : String}
    (reaches : Relation.ReflTransGen Edge first last) :
    ∃ way, (first :: way).Nodup ∧ List.IsChain Edge (first :: way) ∧
      (first :: way).getLast? = some last := by
  induction reaches using Relation.ReflTransGen.head_induction_on with
  | refl => exact ⟨[], List.nodup_cons.mpr ⟨List.not_mem_nil, List.nodup_nil⟩, .singleton _, rfl⟩
  | @head first second edge _ ih =>
      obtain ⟨way, distinct, chain, ends⟩ := ih
      by_cases again : first ∈ second :: way
      · obtain ⟨before, after, split⟩ := List.append_of_mem again
        have suffix : first :: after <:+ second :: way := ⟨before, split.symm⟩
        refine ⟨after, distinct.sublist suffix.sublist, chain.suffix suffix, ?_⟩
        rw [← ends, split, List.getLast?_append_of_ne_nil _ (List.cons_ne_nil _ _)]
      · exact ⟨second :: way, List.nodup_cons.mpr ⟨again, distinct⟩, .cons_cons edge chain,
          (List.getLast?_cons_cons).trans ends⟩

/-- A name lies on a cycle when it is reached from itself. -/
theorem onCycle_iff {name : String} :
    catalog.OnCycle name ↔ Relation.TransGen catalog.HasParent name name := by
  constructor
  · rintro ⟨others, _, chain⟩
    obtain ⟨second, rest, same⟩ := List.exists_cons_of_ne_nil
      (List.append_ne_nil_of_right_ne_nil others (List.cons_ne_nil name []))
    rw [List.cons_append, same, List.isChain_cons_cons] at chain
    have ends : (second :: rest).getLast (List.cons_ne_nil _ _) = name := by
      simp only [← same, List.getLast_append_singleton]
    exact .head' chain.1 (ends ▸ List.relationReflTransGen_of_exists_isChain_cons rest chain.2 rfl)
  · intro reaches
    obtain ⟨parent, edge, back⟩ := Relation.TransGen.head'_iff.mp reaches
    obtain ⟨way, distinct, chain, ends⟩ := exists_nodup_chain back
    obtain ⟨others, split⟩ := List.getLast?_eq_some_iff.mp ends
    refine ⟨others, ?_, ?_⟩
    · rw [split] at distinct
      exact (List.perm_append_singleton name others).nodup_iff.mp distinct
    · rw [List.cons_append, ← split]
      exact .cons_cons edge chain

end Cycles

section Ancestors

/-- A full name is its own full name. -/
theorem KnowsBuiltins.canonical_canonical (knows : catalog.KnowsBuiltins) (name : String) :
    catalog.canonical (catalog.canonical name) = catalog.canonical name := by
  cases stands : catalog.canonical? name with
  | none =>
      have same : catalog.canonical name = name := by rw [canonical, stands, Option.getD_none]
      rw [same, same]
  | some full =>
      rw [canonical_of_canonical? stands]
      exact canonical_of_canonical? (knows.canonical?_canonical stands)

/-- What is reached in the graph is a full name. -/
theorem HasParent.exists_written {name parent : String} (edge : catalog.HasParent name parent) :
    ∃ written, parent = catalog.canonical written := by
  cases edge with
  | superclass => exact ⟨_, rfl⟩
  | interface => exact ⟨_, rfl⟩

theorem mem_ancestors_iff_reached {name ancestor : String} :
    ancestor ∈ catalog.ancestors name ↔ Relation.TransGen catalog.HasParent name ancestor := by
  rw [mem_ancestors_iff, Inherits, namesParent_eq_hasParent]

/-- Whatever classes are declared, and in whatever order the names are taken: a search for
the ancestors of a name makes no more steps than parents are named and one more, it only
stops when no name waits, and what it has found then is the ancestors.  These are, each of
them once, the full names that are reached along one superclass or interface or more; and
a name is among its own ancestors just when it lies on a cycle. -/
theorem ancestors_are_transitive_closure (built : catalog.Built) (name : String) :
    (∀ steps search, catalog.Searches name steps search →
      steps ≤ catalog.parentCount + 1 ∧
      (search.pending ≠ [] → ∃ next, search.Step catalog next) ∧
      (search.pending = [] →
        ∀ ancestor, ancestor ∈ search.seen ↔ ancestor ∈ catalog.ancestors name)) ∧
    (∃ steps, catalog.Searches name steps ⟨[], catalog.ancestors name⟩) ∧
    (catalog.ancestors name).Nodup ∧
    (∀ ancestor, ancestor ∈ catalog.ancestors name ↔
      Relation.TransGen catalog.HasParent name ancestor) ∧
    (∀ ancestor ∈ catalog.ancestors name, catalog.canonical ancestor = ancestor) ∧
    (name ∈ catalog.ancestors name ↔ catalog.OnCycle name) ∧
    (catalog.canonical name ∈ catalog.ancestors name ↔
      catalog.OnCycle (catalog.canonical name)) := by
  have knows := built.knowsBuiltins
  obtain ⟨total, run⟩ := catalog.searches_ancestors name
  refine ⟨fun steps search run => ⟨?_, Search.exists_step, fun finished ancestor => ?_⟩,
    ⟨total, run⟩, run.onCourse.nodup, fun _ => mem_ancestors_iff_reached, ?_, ?_, ?_⟩
  · exact Nat.le_of_add_right_le run.steps_le
  · rw [run.mem_seen_iff finished, mem_ancestors_iff]
  · intro ancestor member
    obtain ⟨lower, _, edge⟩ :=
      Relation.TransGen.tail'_iff.mp (mem_ancestors_iff_reached.mp member)
    obtain ⟨written, rfl⟩ := edge.exists_written
    exact knows.canonical_canonical written
  · rw [mem_ancestors_iff_reached, onCycle_iff]
  · rw [mem_ancestors_iff, ← knows.inherits_canonical, Inherits, namesParent_eq_hasParent,
      onCycle_iff]

/-- A class lies on a cycle with the class that extends it; the class that has the short
name of the root class only leads there, and further on to an undeclared interface. -/
theorem ancestors_are_transitive_closure_of_circular :
    circular.Built ∧ "Left" ∈ circular.ancestors "Left" ∧ circular.OnCycle "Left" ∧
      ¬ circular.OnCycle "Object" ∧
      Relation.TransGen circular.HasParent "Object" "Missing" ∧
      circular.canonical "Missing" = "Missing" := by
  have built : circular.Built :=
    .withClass (.withClass (.define (.withClass .builtin _ _) _) _ _) _ _
  have left : "Left" ∈ circular.ancestors "Left" := by decide +kernel
  have missing : "Missing" ∈ circular.ancestors "Object" := by decide +kernel
  have apart : "Object" ∉ circular.ancestors "Object" := by decide +kernel
  obtain ⟨_, _, _, _, _, onCycle, _⟩ := ancestors_are_transitive_closure built "Left"
  obtain ⟨_, _, _, reached, full, aside, _⟩ := ancestors_are_transitive_closure built "Object"
  exact ⟨built, left, onCycle.mp left, fun cycle => apart (aside.mpr cycle),
    (reached "Missing").mp missing, full "Missing" missing⟩

end Ancestors

end DeferredTyping.Catalog
