import DeferredTyping.Inference.Rules

/-!
# What a broken tree is blamed for

Questions about the tree are answered, or refused for a fault of the tree.
None of them is refused for the reason that a method has another number of
types than of parameters: that one is raised by publishing a method alone, and
it would be the fault of inference.
-/

namespace DeferredTyping

variable {α β : Type}

theorem length_of_mapM_some
    {function : α → Option β} {items : List α} {results : List β}
    (found : items.mapM function = some results) :
    results.length = items.length := by
  induction items generalizing results with
  | nil =>
      cases found
      rfl
  | cons item rest ih =>
      rw [List.mapM_cons] at found
      obtain ⟨first, _, others⟩ := Option.bind_eq_some_iff.mp found
      obtain ⟨later, known, ⟨⟩⟩ := Option.bind_eq_some_iff.mp others
      rw [List.length_cons, List.length_cons, ih known]

theorem exists_of_mapM_some
    {function : α → Option β} {items : List α} {results : List β}
    (found : items.mapM function = some results) {result : β} (member : result ∈ results) :
    ∃ item ∈ items, function item = some result := by
  induction items generalizing results with
  | nil =>
      cases found
      cases member
  | cons item rest ih =>
      rw [List.mapM_cons] at found
      obtain ⟨first, known, others⟩ := Option.bind_eq_some_iff.mp found
      obtain ⟨later, followed, ⟨⟩⟩ := Option.bind_eq_some_iff.mp others
      rcases List.mem_cons.mp member with rfl | further
      · exact ⟨item, List.mem_cons_self, known⟩
      · obtain ⟨other, listed, given⟩ := ih followed further
        exact ⟨other, List.mem_cons_of_mem item listed, given⟩

theorem length_of_mapM_ok
    {ε : Type} {function : α → Except ε β} {items : List α} {results : List β}
    (found : items.mapM function = .ok results) :
    results.length = items.length := by
  induction items generalizing results with
  | nil =>
      cases found
      rfl
  | cons item rest ih =>
      rw [List.mapM_cons] at found
      cases first : function item with
      | error cause =>
          rw [first] at found
          cases found
      | ok value =>
          rw [first] at found
          cases others : rest.mapM function with
          | error cause =>
              rw [others] at found
              cases found
          | ok later =>
              rw [others] at found
              cases found
              rw [List.length_cons, List.length_cons, ih others]

/-- The fault of the typed program or of its tree: neither does the driver give
up, nor is a method published with another number of types than of
parameters. -/
def TypeError.isOrdinary : TypeError → Bool
  | .cannotInfer _ | .passLimitExceeded _ | .broken (.parameterCount ..) => false
  | _ => true

/-- A question about the tree is refused for a fault of the tree alone. -/
def BlamesTree (answer : Except Breakage α) : Prop :=
  ∀ ⦃cause⦄, answer = .error cause → (TypeError.broken cause).isOrdinary = true

namespace BlamesTree

theorem ok (value : α) : BlamesTree (.ok value) :=
  nofun

theorem error
    {cause : Breakage}
    (ordinary : (TypeError.broken cause).isOrdinary = true) :
    BlamesTree (.error cause : Except Breakage α) := by
  rintro _ ⟨⟩
  exact ordinary

theorem bind
    {answer : Except Breakage α} {next : α → Except Breakage β}
    (first : BlamesTree answer)
    (second : ∀ value, BlamesTree (next value)) :
    BlamesTree (answer >>= next) := by
  cases answer with
  | ok value => exact second value
  | error cause => exact error (first rfl)

theorem ofTreeError (answer : Except TreeError α) :
    BlamesTree (answer.mapError .tree) := by
  cases answer with
  | ok value => exact ok value
  | error cause => exact error rfl

end BlamesTree

namespace Arena

variable (arena : Arena)

theorem require_blamesTree (id : NodeId) : BlamesTree (arena.require id) :=
  .ofTreeError _

theorem selfType_blamesTree (scriptClass : String) (id : NodeId) :
    BlamesTree (arena.selfType scriptClass id) := by
  apply (arena.require_blamesTree id).bind
  intro node
  split
  · exact .ok _
  · exact .error rfl

theorem lexicalClass_blamesTree (scriptClass : String) (method : NodeId) :
    BlamesTree (arena.lexicalClass scriptClass method) := by
  unfold Arena.lexicalClass
  split
  · exact arena.selfType_blamesTree scriptClass _
  · exact .error rfl

theorem scopeOf_blamesTree (id : NodeId) : BlamesTree (arena.scopeOf id) := by
  apply (arena.require_blamesTree id).bind
  intro node
  dsimp only
  split
  · split
    · exact .ok _
    · exact .error rfl
  · exact .error rfl

theorem argumentsOf_blamesTree (id : NodeId) : BlamesTree (arena.argumentsOf id) := by
  apply (arena.require_blamesTree id).bind
  intro node
  split
  · exact .ok _
  · exact .error rfl

theorem argumentNames_blamesTree (arguments : ArgumentList NodeId) :
    BlamesTree (arena.argumentNames arguments) := by
  unfold Arena.argumentNames
  induction arguments.typed with
  | nil => exact .ok _
  | cons id rest ih =>
      rw [List.mapM_cons]
      apply BlamesTree.bind
      · apply (arena.require_blamesTree id).bind
        intro node
        split
        · exact .ok _
        · exact .error rfl
      · intro name
        exact ih.bind fun names => .ok _

theorem owningMethod?_blamesTree (argument : NodeId) :
    BlamesTree (arena.owningMethod? argument) := by
  apply (arena.require_blamesTree argument).bind
  intro node
  dsimp only
  split
  · split
    · exact .ok _
    · exact (arena.require_blamesTree _).bind fun _ => .ok _
  · exact .error rfl

end Arena

end DeferredTyping
