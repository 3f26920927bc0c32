import Mathlib.Data.List.Forall2
import Mathlib.Data.List.MinMax
import Mathlib.Data.List.Nodup
import DeferredTyping.Catalog.Hierarchy
import DeferredTyping.Method.Overload

/-!
# The most specific overload

Which overloads compete for a call, and which of them wins, is said without a look at how
overloads are searched.  The choice is one of these by rule: nothing competes, one competitor
is accepted by all, or none is.  When different parameter types never accept each other and no
two overloads have the same parameters, the rule leaves a single choice, so neither the order
of the overloads nor the shortcut for an exact match has any say in it.
-/

namespace DeferredTyping

namespace Assignable

variable {isParent : Assignable}

/-- The parameters take the arguments one for one. -/
def TakesEach (isParent : Assignable) : List Ty → List Ty → Prop :=
  List.Forall₂ fun parameter argument => isParent parameter argument = true

theorem accepts_iff {parameters arguments : List Ty} :
    isParent.accepts parameters arguments = true ↔
      isParent.TakesEach parameters arguments := by
  unfold TakesEach
  induction parameters generalizing arguments with
  | nil => cases arguments <;> simp [accepts]
  | cons parameter parameters ih =>
      cases arguments with
      | nil => simp [accepts]
      | cons argument arguments => simp [accepts, ih]

theorem TakesEach.refl (refl : ∀ ty, isParent ty ty = true) (types : List Ty) :
    isParent.TakesEach types types :=
  List.forall₂_same.mpr fun ty _ => refl ty

/-- Lists that take each other are the same when no two different types do. -/
theorem TakesEach.antisymm
    {left right : List Ty} (takes : isParent.TakesEach left right)
    (taken : isParent.TakesEach right left)
    (antisymm : ∀ one ∈ left, ∀ other ∈ right, isParent one other = true →
      isParent other one = true → one = other) :
    left = right := by
  induction takes with
  | nil => rfl
  | @cons one other lefts rights accepts _ ih =>
      obtain ⟨accepted, others⟩ := List.forall₂_cons.mp taken
      have same : one = other :=
        antisymm one List.mem_cons_self other List.mem_cons_self accepts accepted
      have rest : lefts = rights := by
        refine ih others fun first firstMember second secondMember => ?_
        exact antisymm first (List.mem_cons_of_mem _ firstMember) second
          (List.mem_cons_of_mem _ secondMember)
      rw [same, rest]

end Assignable

/-- The method takes the first arguments as its leading parameters, one for one, and the
others as elements of the array that is its last parameter. -/
def MethodType.TakesSpread
    (isParent : Assignable) (arguments : List Ty) (method : MethodType) : Prop :=
  method.varargs = true ∧ ∃ leading array element given rest,
    method.parameters = leading ++ [array] ∧ array.element? = some element ∧
      arguments = given ++ rest ∧ isParent.TakesEach leading given ∧
      ∀ argument ∈ rest, isParent element argument = true

theorem MethodType.acceptsSpread_iff
    {isParent : Assignable} {arguments : List Ty} {method : MethodType} :
    method.acceptsSpread isParent arguments = true ↔
      method.TakesSpread isParent arguments := by
  constructor
  · intro accepted
    unfold acceptsSpread at accepted
    split at accepted
    · rename_i element varargs last
      obtain ⟨array, listed, isElement⟩ := Option.bind_eq_some_iff.mp last
      simp only [Bool.and_eq_true, decide_eq_true_eq, List.all_eq_true,
        Assignable.accepts_iff] at accepted
      obtain ⟨⟨_, takes⟩, spread⟩ := accepted
      exact ⟨varargs, method.parameters.dropLast, array, element, _, _,
        (List.dropLast_append_getLast? array listed).symm, isElement,
        (List.take_append_drop method.parameters.dropLast.length arguments).symm, takes, spread⟩
    · cases accepted
  · rintro ⟨varargs, leading, array, element, given, rest, parameters, isElement, rfl, takes,
      spread⟩
    have same : leading.length = given.length := takes.length_eq
    simp only [acceptsSpread, varargs, parameters, List.getLast?_concat, Option.bind_some,
      isElement, List.dropLast_concat, same, List.length_append, Nat.le_add_right,
      decide_true, List.take_left, List.drop_left, Bool.true_and, Bool.and_eq_true,
      Assignable.accepts_iff, List.all_eq_true]
    exact ⟨takes, spread⟩

namespace Overloads

/-- The overload competes for a call: it takes the arguments one for one; or none does, it
takes them spread, and none that does has more parameters. -/
def Competes
    (isParent : Assignable) (overloads : List MethodType) (arguments : List Ty)
    (method : MethodType) : Prop :=
  method ∈ overloads ∧
    (isParent.TakesEach method.parameters arguments ∨
      (∀ other ∈ overloads, ¬ isParent.TakesEach other.parameters arguments) ∧
        method.TakesSpread isParent arguments ∧
        ∀ other ∈ overloads, other.TakesSpread isParent arguments →
          other.parameters.length ≤ method.parameters.length)

/-- The parameters of this competitor are taken by every competitor. -/
def Wins
    (isParent : Assignable) (overloads : List MethodType) (arguments : List Ty)
    (method : MethodType) : Prop :=
  Competes isParent overloads arguments method ∧
    ∀ other, Competes isParent overloads arguments other →
      isParent.TakesEach other.parameters method.parameters

/-- What a call may mean by rule. -/
inductive Means
    (isParent : Assignable) (overloads : List MethodType) (arguments : List Ty) :
    Selection → Prop where
  | absent (none : ∀ method, ¬ Competes isParent overloads arguments method) :
      Means isParent overloads arguments .absent
  | found {method : MethodType} (wins : Wins isParent overloads arguments method) :
      Means isParent overloads arguments (.found method)
  | ambiguous {method : MethodType} (competes : Competes isParent overloads arguments method)
      (none : ∀ method, ¬ Wins isParent overloads arguments method) :
      Means isParent overloads arguments .ambiguous

variable {isParent : Assignable} {overloads : List MethodType} {arguments : List Ty}
  {method : MethodType}

theorem means_absent_iff :
    Means isParent overloads arguments .absent ↔
      ∀ method, ¬ Competes isParent overloads arguments method :=
  ⟨fun | .absent empty => empty, .absent⟩

theorem means_found_iff :
    Means isParent overloads arguments (.found method) ↔
      Wins isParent overloads arguments method :=
  ⟨fun | .found wins => wins, .found⟩

theorem means_ambiguous_iff :
    Means isParent overloads arguments .ambiguous ↔
      (∃ method, Competes isParent overloads arguments method) ∧
        ∀ method, ¬ Wins isParent overloads arguments method :=
  ⟨fun | .ambiguous competes unbeaten => ⟨⟨_, competes⟩, unbeaten⟩,
    fun ⟨⟨_, competes⟩, unbeaten⟩ => .ambiguous competes unbeaten⟩

theorem mem_longest_iff {methods : List MethodType} :
    method ∈ longest methods ↔
      method ∈ methods ∧
        ∀ other ∈ methods, other.parameters.length ≤ method.parameters.length := by
  simp [longest]

theorem mem_filter_accepts_iff :
    method ∈ overloads.filter (MethodType.accepts isParent arguments) ↔
      method ∈ overloads ∧ isParent.TakesEach method.parameters arguments := by
  rw [List.mem_filter, MethodType.accepts, Assignable.accepts_iff]

theorem mem_filter_acceptsSpread_iff :
    method ∈ overloads.filter (MethodType.acceptsSpread isParent arguments) ↔
      method ∈ overloads ∧ method.TakesSpread isParent arguments := by
  rw [List.mem_filter, MethodType.acceptsSpread_iff]

theorem mem_applicable_iff :
    method ∈ applicable isParent overloads arguments ↔
      Competes isParent overloads arguments method := by
  unfold applicable Competes
  split
  · rename_i empty
    have none : ∀ other ∈ overloads, ¬ isParent.TakesEach other.parameters arguments := by
      intro other member takes
      have accepted := mem_filter_accepts_iff.mpr ⟨member, takes⟩
      rw [empty] at accepted
      cases accepted
    simp only [mem_longest_iff, mem_filter_acceptsSpread_iff]
    constructor
    · rintro ⟨⟨member, spread⟩, most⟩
      exact ⟨member, .inr ⟨none, spread,
        fun other listed takes => most other ⟨listed, takes⟩⟩⟩
    · rintro ⟨member, takes | ⟨_, spread, most⟩⟩
      · exact absurd takes (none method member)
      · exact ⟨⟨member, spread⟩, fun other listed => most other listed.1 listed.2⟩
  · rename_i nonempty
    obtain ⟨other, accepted⟩ := List.exists_mem_of_ne_nil _ nonempty
    obtain ⟨listed, takes⟩ := mem_filter_accepts_iff.mp accepted
    rw [mem_filter_accepts_iff]
    constructor
    · exact fun ⟨member, takes⟩ => ⟨member, .inl takes⟩
    · rintro ⟨member, taken | ⟨none, _⟩⟩
      · exact ⟨member, taken⟩
      · exact absurd takes (none other listed)

theorem isMostSpecific_iff :
    isMostSpecific isParent (applicable isParent overloads arguments) method = true ↔
      ∀ other, Competes isParent overloads arguments other →
        isParent.TakesEach other.parameters method.parameters := by
  simp only [isMostSpecific, List.all_eq_true, mem_applicable_iff, Assignable.accepts_iff]

theorem exists_mem_longest {methods : List MethodType} (member : method ∈ methods) :
    ∃ most, most ∈ longest methods := by
  have found : (methods.argmax fun other => other.parameters.length) ≠ none := by
    rw [Ne, List.argmax_eq_none]
    exact List.ne_nil_of_mem member
  obtain ⟨most, isMost⟩ := Option.ne_none_iff_exists'.mp found
  have greatest : ∀ other ∈ methods, other.parameters.length ≤ most.parameters.length := by
    intro other listed
    have above := List.le_of_mem_argmax listed isMost
    exact above
  exact ⟨most, mem_longest_iff.mpr ⟨List.argmax_mem isMost, greatest⟩⟩

/-- An overload that takes the arguments competes, or else another one does. -/
theorem exists_competes
    (member : method ∈ overloads)
    (takes : isParent.TakesEach method.parameters arguments ∨
      method.TakesSpread isParent arguments) :
    ∃ competitor, Competes isParent overloads arguments competitor := by
  by_cases fixed : ∃ other ∈ overloads, isParent.TakesEach other.parameters arguments
  · obtain ⟨other, listed, taken⟩ := fixed
    exact ⟨other, listed, .inl taken⟩
  · push Not at fixed
    have spread : method.TakesSpread isParent arguments := takes.resolve_left (fixed method member)
    obtain ⟨competitor, longest⟩ :=
      exists_mem_longest (mem_filter_acceptsSpread_iff.mpr ⟨member, spread⟩)
    obtain ⟨offered, most⟩ := mem_longest_iff.mp longest
    obtain ⟨listed, taken⟩ := mem_filter_acceptsSpread_iff.mp offered
    exact ⟨competitor, listed, .inr ⟨fixed, taken, fun other isListed takes =>
      most other (mem_filter_acceptsSpread_iff.mpr ⟨isListed, takes⟩)⟩⟩

/-- Competitors have equally many parameters. -/
theorem Competes.length_eq
    {other : MethodType} (one : Competes isParent overloads arguments method)
    (also : Competes isParent overloads arguments other) :
    method.parameters.length = other.parameters.length := by
  obtain ⟨member, takes | ⟨none, spread, most⟩⟩ := one
  · obtain ⟨_, taken | ⟨nothing, _⟩⟩ := also
    · exact takes.length_eq.trans taken.length_eq.symm
    · exact absurd takes (nothing method member)
  · obtain ⟨listed, taken | ⟨_, spreads, longest⟩⟩ := also
    · exact absurd taken (none other listed)
    · exact Nat.le_antisymm (longest method member spread) (most other listed spreads)

section Rule

/-- An overload with exactly these parameters is accepted by every competitor. -/
theorem wins_of_parameters
    (refl : ∀ ty, isParent ty ty = true)
    (member : method ∈ overloads) (same : method.parameters = arguments) :
    Wins isParent overloads arguments method := by
  have takes : isParent.TakesEach method.parameters arguments :=
    same ▸ Assignable.TakesEach.refl refl arguments
  refine ⟨⟨member, .inl takes⟩, ?_⟩
  rintro other ⟨_, taken | ⟨none, _⟩⟩
  · exact same ▸ taken
  · exact absurd takes (none method member)

/-- Among the competitors, the choice is the one by rule. -/
theorem mostSpecific_means (refl : ∀ ty, isParent ty ty = true) :
    Means isParent overloads arguments
      (mostSpecific isParent (applicable isParent overloads arguments)) := by
  have competes : ∀ method, method ∈ applicable isParent overloads arguments ↔
      Competes isParent overloads arguments method := fun _ => mem_applicable_iff
  have accepted : ∀ method, isMostSpecific isParent (applicable isParent overloads arguments)
      method = true ↔ ∀ other, Competes isParent overloads arguments other →
        isParent.TakesEach other.parameters method.parameters := fun _ => isMostSpecific_iff
  unfold mostSpecific
  split
  · rename_i empty
    refine .absent fun method competing => ?_
    rw [← competes, empty] at competing
    cases competing
  · rename_i only single
    have alone : ∀ method, Competes isParent overloads arguments method ↔ method = only := by
      intro method
      rw [← competes, single, List.mem_singleton]
    refine .found ⟨(alone only).mpr rfl, fun other competing => ?_⟩
    rw [(alone other).mp competing]
    exact .refl refl _
  · rename_i nonempty _
    split
    · rename_i method found
      exact .found ⟨(competes method).mp (List.mem_of_find?_eq_some found),
        (accepted method).mp (List.find?_some found)⟩
    · rename_i none
      obtain ⟨method, member⟩ := List.exists_mem_of_ne_nil _ nonempty
      refine .ambiguous ((competes method).mp member) ?_
      intro other wins
      exact List.find?_eq_none.mp none other ((competes other).mpr wins.1)
        ((accepted other).mpr wins.2)

/-- The overload that is chosen is the one by rule, also where the choice is made by an
exact match. -/
theorem select_means (refl : ∀ ty, isParent ty ty = true) :
    Means isParent overloads arguments (select isParent overloads arguments) := by
  unfold select
  split
  · rename_i exact found
    exact .found (wins_of_parameters refl (List.mem_of_find?_eq_some found)
      (by simpa using List.find?_some found))
  · exact mostSpecific_means refl

theorem competes_congr
    {other : List MethodType} (same : ∀ method, method ∈ other ↔ method ∈ overloads) :
    Competes isParent other arguments method ↔ Competes isParent overloads arguments method := by
  simp only [Competes, same]

/-- What a call means is said of the overloads, not of their order. -/
theorem Means.congr
    {other : List MethodType} (same : ∀ method, method ∈ other ↔ method ∈ overloads)
    {selection : Selection} (means : Means isParent other arguments selection) :
    Means isParent overloads arguments selection := by
  have competes : ∀ method, Competes isParent other arguments method ↔
      Competes isParent overloads arguments method := fun _ => competes_congr same
  have wins : ∀ method, Wins isParent other arguments method ↔
      Wins isParent overloads arguments method := by
    intro method
    simp only [Wins, competes]
  cases means with
  | absent none =>
      exact .absent fun method competing => none method ((competes method).mpr competing)
  | found won => exact .found ((wins _).mp won)
  | ambiguous competing none =>
      exact .ambiguous ((competes _).mp competing)
        fun method won => none method ((wins method).mpr won)

end Rule

section Unique

variable (distinct : (overloads.map MethodType.parameters).Nodup)
  (apart : ∀ left ∈ overloads, ∀ right ∈ overloads, ∀ one ∈ left.parameters,
    ∀ other ∈ right.parameters, isParent one other = true → isParent other one = true →
      one = other)

include distinct apart

/-- Two winners take each other's parameters, so they are one. -/
theorem Wins.unique
    {left right : MethodType} (one : Wins isParent overloads arguments left)
    (other : Wins isParent overloads arguments right) :
    left = right := by
  have leftListed : left ∈ overloads := one.1.1
  have rightListed : right ∈ overloads := other.1.1
  have same : left.parameters = right.parameters :=
    (other.2 left one.1).antisymm (one.2 right other.1) (apart left leftListed right rightListed)
  exact List.inj_on_of_nodup_map distinct leftListed rightListed same

theorem Means.unique
    {one other : Selection} (left : Means isParent overloads arguments one)
    (right : Means isParent overloads arguments other) :
    one = other := by
  cases left with
  | absent none =>
      cases right with
      | absent => rfl
      | found wins => exact absurd wins.1 (none _)
      | ambiguous competes => exact absurd competes (none _)
  | found wins =>
      cases right with
      | absent none => exact absurd wins.1 (none _)
      | found won => exact congrArg Selection.found (wins.unique distinct apart won)
      | ambiguous _ none => exact absurd wins (none _)
  | ambiguous competes none =>
      cases right with
      | absent empty => exact absurd competes (empty _)
      | found wins => exact absurd wins (none _)
      | ambiguous => rfl

theorem select_eq_iff (refl : ∀ ty, isParent ty ty = true) {selection : Selection} :
    select isParent overloads arguments = selection ↔
      Means isParent overloads arguments selection := by
  constructor
  · rintro rfl
    exact select_means refl
  · exact (select_means refl).unique distinct apart

theorem select_eq_of_perm
    (refl : ∀ ty, isParent ty ty = true) {other : List MethodType} (perm : other.Perm overloads) :
    select isParent other arguments = select isParent overloads arguments :=
  ((select_eq_iff distinct apart refl).mpr
    (Means.congr (fun _ => perm.mem_iff) (select_means refl))).symm

/-- When every type takes itself, no two different parameter types take each other and no two
overloads have the same parameters, a call means what the rule says and nothing else: whatever
the order of the overloads, and with or without the look for an exact match. -/
theorem select_finds_most_specific
    (refl : ∀ ty, isParent ty ty = true) (arguments : List Ty) :
    (select isParent overloads arguments = .absent ↔
        ∀ method, ¬ Competes isParent overloads arguments method) ∧
      (∀ method, select isParent overloads arguments = .found method ↔
        Wins isParent overloads arguments method) ∧
      (select isParent overloads arguments = .ambiguous ↔
        (∃ method, Competes isParent overloads arguments method) ∧
          ∀ method, ¬ Wins isParent overloads arguments method) ∧
      (∀ other : List MethodType, other.Perm overloads →
        select isParent other arguments = select isParent overloads arguments) ∧
      select isParent overloads arguments =
        mostSpecific isParent (applicable isParent overloads arguments) := by
  have means : ∀ {selection}, select isParent overloads arguments = selection ↔
      Means isParent overloads arguments selection := select_eq_iff distinct apart refl
  exact ⟨means.trans means_absent_iff, fun method => means.trans means_found_iff,
    means.trans means_ambiguous_iff, fun other => select_eq_of_perm distinct apart refl,
    means.mpr (mostSpecific_means refl)⟩

end Unique

/-- A method that prints its arguments. -/
def printer (parameters : List Ty) (varargs : Bool) : MethodType :=
  { definingClass := .object "Out", name := "print", parameters, returnType := .void, varargs }

/-- A method to print one value, for two kinds of values, and the same for a value with more
values that fill it in. -/
def printers : List MethodType :=
  [printer [.object objectName] false,
    printer [.object "java.lang.CharSequence"] false,
    printer [.object stringName, .array (.object objectName)] true,
    printer [.object "java.lang.CharSequence", .array (.object stringName)] true]

theorem select_finds_most_specific_of_printers :
    (printers.map MethodType.parameters).Nodup ∧
      (∀ left ∈ printers, ∀ right ∈ printers, ∀ one ∈ left.parameters,
        ∀ other ∈ right.parameters, Catalog.builtin.isParent one other = true →
          Catalog.builtin.isParent other one = true → one = other) ∧
      (∃ method, select Catalog.builtin.isParent printers [.object stringName] = .found method ∧
        Wins Catalog.builtin.isParent printers [.object stringName] method) ∧
      select Catalog.builtin.isParent printers (List.replicate 3 (.object stringName)) =
        .ambiguous ∧
      select Catalog.builtin.isParent printers.reverse
        (List.replicate 3 (.object stringName)) = .ambiguous ∧
      ∀ method, ¬ Wins Catalog.builtin.isParent printers
        (List.replicate 3 (.object stringName)) method := by
  have distinct : (printers.map MethodType.parameters).Nodup := by decide
  have apart : ∀ left ∈ printers, ∀ right ∈ printers, ∀ one ∈ left.parameters,
      ∀ other ∈ right.parameters, Catalog.builtin.isParent one other = true →
        Catalog.builtin.isParent other one = true → one = other := by
    decide +kernel
  have rule := select_finds_most_specific distinct apart Catalog.builtin.isParent_refl
  obtain ⟨method, found⟩ : ∃ method,
      select Catalog.builtin.isParent printers [.object stringName] = .found method :=
    ⟨printers[1], by decide +kernel⟩
  have ambiguous : select Catalog.builtin.isParent printers
      (List.replicate 3 (.object stringName)) = .ambiguous := by
    decide +kernel
  obtain ⟨_, _, only, anyOrder, _⟩ := rule (List.replicate 3 (.object stringName))
  refine ⟨distinct, apart, ⟨method, found, ((rule _).2.1 method).mp found⟩, ambiguous, ?_,
    (only.mp ambiguous).2⟩
  rw [anyOrder _ (List.reverse_perm printers), ambiguous]

end Overloads

end DeferredTyping
