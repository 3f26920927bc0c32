import DeferredTyping.Proofs.Grafting
import DeferredTyping.Proofs.Watching

/-!
# Expansions stand where their calls stood

An expansion goes into the slot of its call and carries the parent of the call, so the slots
of a node keep their number and their order: each holds what its first tenant became.  An
expansion may be a call that is expanded in turn, in the same visit or passes later.

That a call is gone from its parent rests on the parent holding it once.  The nodes of a well
linked tree do; of the nodes that an expander adds it has to be asked, as a splice looks for
the first slot of a call and does not go on to a second one.
-/

namespace DeferredTyping

variable {σ : Type}

open Infer

theorem forall₂_trans
    {α : Type} {relation : α → α → Prop}
    (trans : ∀ {first second third}, relation first second → relation second third →
      relation first third)
    {first second third : List α} (early : List.Forall₂ relation first second)
    (late : List.Forall₂ relation second third) :
    List.Forall₂ relation first third := by
  induction early generalizing third with
  | nil => exact late
  | cons head _ ih =>
      cases late with
      | cons next rest => exact .cons (trans head next) (ih rest)

/-- What the expander answers is a node that it added under the parent of the call. -/
def Expander.AnswersFresh (expander : Expander σ) : Prop :=
  ∀ {before after : Arena} {call receiver state root later},
    expander.expand before call receiver state = (some root, after, later) →
      before.find? root = none ∧
        ∃ node, after.find? root = some node ∧ node.parent = before.parent? call

/-- New nodes hold nodes that are there, each of them once, and never the answer. -/
def Expander.HoldsApart (expander : Expander σ) : Prop :=
  ∀ {before after : Arena} {call receiver state answer later parent},
    expander.expand before call receiver state = (answer, after, later) →
    before.find? parent = none →
      (after.children parent).Nodup ∧
        ∀ child ∈ after.children parent,
          answer ≠ some child ∧ ∃ node, after.find? child = some node

namespace Arena

theorem KeepsParents.parent?
    {before after : Arena} (kept : before.KeepsParents after) {id : NodeId} {node : Node}
    (present : before.find? id = some node) :
    after.parent? id = before.parent? id := by
  obtain ⟨later, found, same⟩ := kept present
  rw [Arena.parent?, Arena.parent?, found, present]
  exact same

theorem KeepsParents.of_find?
    {before after : Arena}
    (kept : ∀ {id node}, before.find? id = some node → after.find? id = some node) :
    before.KeepsParents after :=
  fun _ _ present => ⟨_, kept present, rfl⟩

/-- A node that was added takes the slot of a call that has the same parent. -/
structure TakesSlot (before grown after : Arena) (parent call root : NodeId) : Prop where
  fresh : before.find? root = none
  kept : ∀ {id node}, before.find? id = some node → grown.find? id = some node
  under : before.parent? call = some parent
  carried : ∃ node, grown.find? root = some node ∧ node.parent = some parent
  replaced : grown.replaceChild parent call root = .ok after

theorem takesSlot
    {expander : Expander σ} (keeps : expander.KeepsNodes) (fresh : expander.AnswersFresh)
    {before grown after : Arena} {parent call root : NodeId} {receiver : Ty} {state later : σ}
    (asked : expander.expand before call receiver state = (some root, grown, later))
    (replaced : grown.replaceChild parent call root = .ok after) :
    before.TakesSlot grown after parent call root := by
  obtain ⟨absent, node, present, carried⟩ := fresh asked
  obtain ⟨newNode, _, _, found, named, _⟩ := replaceChild_replaces replaced
  obtain rfl := Option.some.inj (present.symm.trans found)
  refine ⟨absent, ?_, carried.symm.trans named, ⟨node, present, named⟩, replaced⟩
  intro id other there
  have still := keeps before call receiver state there
  rwa [asked] at still

end Arena

namespace Facts

theorem expands_iff
    {before after : Facts} (same : after.expansions = before.expansions)
    {call expansion : NodeId} :
    after.Expands call expansion ↔ before.Expands call expansion := by
  rw [Expands, Expands, expansionOf?, expansionOf?, same]

/-- Every expansion shares its parent with its call, and its type where the call has one. -/
structure Placed (facts : Facts) : Prop where
  under : ∀ {call expansion}, facts.Expands call expansion →
    ∃ parent, (∃ node, facts.arena.find? parent = some node) ∧
      facts.arena.parent? call = some parent ∧ facts.arena.parent? expansion = some parent
  echoed : ∀ {call expansion ty}, facts.Expands call expansion →
    facts.nodeType? call = some ty → facts.nodeType? expansion = some ty

/-- A node holds nodes that are there, each of them once, and no child of its own that was
expanded. -/
structure Clears (facts : Facts) (parent : NodeId) : Prop where
  present : ∀ child ∈ facts.arena.children parent,
    ∃ node, facts.arena.find? child = some node
  distinct : (facts.arena.children parent).Nodup
  vacated : ∀ {call expansion}, facts.Expands call expansion →
    facts.arena.parent? call = some parent → call ∉ facts.arena.children parent

theorem Placed.present
    {facts : Facts} (placed : facts.Placed) {call expansion : NodeId}
    (expands : facts.Expands call expansion) :
    ∃ node, facts.arena.find? call = some node := by
  obtain ⟨parent, _, named, _⟩ := placed.under expands
  obtain ⟨node, present, _⟩ := Option.bind_eq_some_iff.mp named
  exact ⟨node, present⟩

/-- What a node became has the parent of that node. -/
theorem Placed.parent?_of_becomes
    {facts : Facts} (placed : facts.Placed) {call last : NodeId}
    (becomes : facts.Becomes call last) :
    facts.arena.parent? last = facts.arena.parent? call := by
  induction becomes with
  | refl => rfl
  | tail _ expands ih =>
      obtain ⟨parent, _, named, carried⟩ := placed.under expands
      exact (carried.trans named.symm).trans ih

end Facts

/-- Slots keep what their tenants became, and expansions stand where their calls stood. -/
structure Session.KeepsPlaces (apart : Prop) (before after : Session σ) : Prop where
  parents : before.facts.arena.KeepsParents after.facts.arena
  expansions : ∀ {call expansion}, before.facts.Expands call expansion →
    after.facts.Expands call expansion
  slots : ∀ {parent node}, before.facts.arena.find? parent = some node →
    List.Forall₂ after.facts.Becomes (before.facts.arena.children parent)
      (after.facts.arena.children parent)
  placed : before.facts.Placed → after.facts.Placed
  clears : before.facts.Placed → ∀ {parent},
    (∃ node, before.facts.arena.find? parent = some node) ∨ apart →
      before.facts.Clears parent → after.facts.Clears parent

namespace Session.KeepsPlaces

variable {apart : Prop}

theorem trans
    {first second third : Session σ}
    (early : first.KeepsPlaces apart second) (late : second.KeepsPlaces apart third) :
    first.KeepsPlaces apart third where
  parents := early.parents.trans late.parents
  expansions expands := late.expansions (early.expansions expands)
  slots {parent node} present := by
    obtain ⟨between, found, _⟩ := early.parents present
    have became : List.Forall₂ third.facts.Becomes (first.facts.arena.children parent)
        (second.facts.arena.children parent) :=
      (early.slots present).imp fun _ _ =>
        Relation.ReflTransGen.mono (fun _ _ => late.expansions) _ _
    exact forall₂_trans Relation.ReflTransGen.trans became (late.slots found)
  placed placed := late.placed (early.placed placed)
  clears placed {parent} known cleared := by
    refine late.clears (early.placed placed) ?_ (early.clears placed known cleared)
    refine known.imp_left ?_
    rintro ⟨node, present⟩
    obtain ⟨between, found, _⟩ := early.parents present
    exact ⟨between, found⟩

/-- Where the tree, its types and its expansions are the same, so are all places. -/
theorem of_same
    {before after : Session σ} (arena : after.facts.arena = before.facts.arena)
    (nodeTypes : after.facts.nodeTypes = before.facts.nodeTypes)
    (expansions : after.facts.expansions = before.facts.expansions) :
    before.KeepsPlaces apart after where
  parents := arena ▸ .refl _
  expansions := (Facts.expands_iff expansions).mpr
  slots _ := by
    rw [arena]
    exact List.forall₂_same.mpr fun _ _ => .refl
  placed placed := by
    refine ⟨?_, ?_⟩
    · intro call expansion expands
      rw [arena]
      exact placed.under ((Facts.expands_iff expansions).mp expands)
    · intro call expansion ty expands typed
      rw [Facts.nodeType?, nodeTypes] at typed ⊢
      exact placed.echoed ((Facts.expands_iff expansions).mp expands) typed
  clears _ _ _ cleared := by
    refine ⟨arena ▸ cleared.present, arena ▸ cleared.distinct, ?_⟩
    intro call expansion expands
    rw [arena]
    exact cleared.vacated ((Facts.expands_iff expansions).mp expands)

/-- A node takes its type, an expanded call that of its expansion. -/
theorem setNodeType
    {session : Session σ} {id : NodeId} {ty : Ty}
    (unknown : session.facts.nodeType? id = none)
    (answered : session.facts.AnswersFor id (some ty)) :
    session.KeepsPlaces apart { session with facts := session.facts.setNodeType id ty } where
  parents := .refl _
  expansions expands := expands
  slots _ := List.forall₂_same.mpr fun _ _ => .refl
  placed placed := by
    refine ⟨placed.under, ?_⟩
    intro call expansion other expands typed
    have kept := Facts.extends_setNodeType session.facts id ty
    by_cases same : call = id
    · subst same
      obtain rfl : ty = other :=
        Option.some.inj ((Table.get?_insertIfNew_self unknown ty).symm.trans typed)
      exact kept.nodeTypes (answered expands)
    · have earlier : session.facts.nodeType? call = some other :=
        (Table.get?_insertIfNew_of_ne _ same ty).symm.trans typed
      exact kept.nodeTypes (placed.echoed expands earlier)
  clears _ _ _ cleared := ⟨cleared.present, cleared.distinct, cleared.vacated⟩

end Session.KeepsPlaces

section Offer

variable {expander : Expander σ} (keeps : expander.KeepsNodes) {session : Session σ}
  {call : NodeId} {receiver : Ty} {answer : Option NodeId} {arena : Arena} {state : σ}
  (asked : expander.expand session.facts.arena call receiver session.expanderState =
    (answer, arena, state))

include keeps asked

theorem find?_of_expand {id : NodeId} {node : Node}
    (present : session.facts.arena.find? id = some node) :
    arena.find? id = some node := by
  have still := keeps session.facts.arena call receiver session.expanderState present
  rwa [asked] at still

theorem children_of_expand {id : NodeId} {node : Node}
    (present : session.facts.arena.find? id = some node) :
    arena.children id = session.facts.arena.children id := by
  rw [Arena.children_of_find? present,
    Arena.children_of_find? (find?_of_expand keeps asked present)]

/-- The nodes that an expander adds leave all places as they are, and what it answers is in
none of them. -/
theorem clears_of_expand
    (fresh : expander.AnswersFresh) (placed : session.facts.Placed) {parent : NodeId}
    (known : (∃ node, session.facts.arena.find? parent = some node) ∨ expander.HoldsApart)
    (cleared : session.facts.Clears parent) :
    (afterOffer session arena state).facts.Clears parent ∧
      ∀ root, answer = some root → root ∉ arena.children parent := by
  have parents : session.facts.arena.KeepsParents arena :=
    .of_find? fun present => find?_of_expand keeps asked present
  cases old : session.facts.arena.find? parent with
  | some node =>
      have children := children_of_expand keeps asked old
      refine ⟨⟨?_, children ▸ cleared.distinct, ?_⟩, ?_⟩
      · intro child member
        obtain ⟨other, present⟩ := cleared.present child (children ▸ member)
        exact ⟨other, find?_of_expand keeps asked present⟩
      · intro other expansion expands named
        obtain ⟨_, present⟩ := placed.present expands
        have vacated := cleared.vacated expands ((parents.parent? present).symm.trans named)
        exact children ▸ vacated
      · rintro root rfl member
        obtain ⟨other, present⟩ := cleared.present root (children ▸ member)
        rw [(fresh asked).1] at present
        cases present
  | none =>
      have apart : expander.HoldsApart := by
        refine known.resolve_left ?_
        rintro ⟨node, present⟩
        rw [old] at present
        cases present
      obtain ⟨distinct, present⟩ := apart asked old
      refine ⟨⟨fun child member => (present child member).2, distinct, ?_⟩, ?_⟩
      · -- A call that was expanded has a parent that was there.
        intro other expansion expands named
        obtain ⟨_, there⟩ := placed.present expands
        obtain ⟨holder, ⟨_, standing⟩, under, _⟩ := placed.under expands
        obtain rfl : holder = parent :=
          Option.some.inj (under.symm.trans ((parents.parent? there).symm.trans named))
        rw [old] at standing
        cases standing
      · rintro root same member
        exact (present root member).1 same

theorem keepsPlaces_afterOffer (fresh : expander.AnswersFresh) :
    session.KeepsPlaces expander.HoldsApart (afterOffer session arena state) where
  parents := .of_find? fun present => find?_of_expand keeps asked present
  expansions expands := expands
  slots present := by
    rw [afterOffer, children_of_expand keeps asked present]
    exact List.forall₂_same.mpr fun _ _ => .refl
  placed placed := by
    have parents : session.facts.arena.KeepsParents arena :=
      .of_find? fun present => find?_of_expand keeps asked present
    refine ⟨?_, placed.echoed⟩
    intro other expansion expands
    obtain ⟨parent, ⟨node, present⟩, named, carried⟩ := placed.under expands
    obtain ⟨_, first, _⟩ := Option.bind_eq_some_iff.mp named
    obtain ⟨_, second, _⟩ := Option.bind_eq_some_iff.mp carried
    exact ⟨parent, ⟨node, find?_of_expand keeps asked present⟩,
      (parents.parent? first).trans named, (parents.parent? second).trans carried⟩
  clears placed _ known cleared := (clears_of_expand keeps asked fresh placed known cleared).1

end Offer

section Splice

variable {session : Session σ} {call root : NodeId} {spliced : Arena}

/-- After a splice, a recorded expansion is the new one or an earlier one. -/
theorem expands_afterSplice
    {other expansion : NodeId}
    (expands : (afterSplice session call root spliced).facts.Expands other expansion) :
    other = call ∧ expansion = root ∨ other ≠ call ∧ session.facts.Expands other expansion :=
  Table.get?_insert_eq_some expands

variable {expander : Expander σ} (keeps : expander.KeepsNodes) (fresh : expander.AnswersFresh)
  {receiver : Ty} {arena : Arena} {state : σ} {parent : NodeId}
  (asked : expander.expand session.facts.arena call receiver session.expanderState =
    (some root, arena, state))
  (replaced : arena.replaceChild parent call root = .ok spliced)

include keeps fresh asked replaced

/-- An expansion that takes the slot of its call clears it. -/
theorem clears_afterSplice
    (placed : session.facts.Placed) {holder : NodeId}
    (known : (∃ node, session.facts.arena.find? holder = some node) ∨ expander.HoldsApart)
    (cleared : session.facts.Clears holder) :
    (afterSplice (afterOffer session arena state) call root spliced).facts.Clears holder := by
  obtain ⟨absent, kept, under, ⟨_, present, _⟩, _⟩ := Arena.takesSlot keeps fresh asked replaced
  obtain ⟨⟨held, distinct, vacated⟩, unheld⟩ :=
    clears_of_expand keeps asked fresh placed known cleared
  have parents : session.facts.arena.KeepsParents spliced :=
    (Arena.KeepsParents.of_find? kept).trans (Arena.keepsParents_replaceChild replaced)
  obtain ⟨replaces, others⟩ := Arena.replacesFirst_replaceChild replaced
  have stays : ∀ {id node}, arena.find? id = some node →
      ∃ later, spliced.find? id = some later := by
    intro id node there
    obtain ⟨later, found, _⟩ := Arena.keepsParents_replaceChild replaced there
    exact ⟨later, found⟩
  have earlier : ∀ {child}, child ∈ spliced.children holder →
      child = root ∨ child ∈ arena.children holder := by
    intro child member
    by_cases same : holder = parent
    · subst same
      exact replaces.mem_replaced member
    · exact .inr (others same ▸ member)
  refine ⟨?_, ?_, ?_⟩
  · intro child member
    rcases earlier member with rfl | before
    · exact stays present
    · obtain ⟨_, there⟩ := held child before
      exact stays there
  · by_cases same : holder = parent
    · subst same
      exact (replaces.nodup distinct (unheld root rfl)).1
    · exact (others same).symm ▸ distinct
  · intro other expansion expands named member
    rcases expands_afterSplice expands with ⟨rfl, rfl⟩ | ⟨_, before⟩
    · obtain ⟨_, there, _⟩ := Option.bind_eq_some_iff.mp under
      obtain rfl : parent = holder :=
        Option.some.inj (under.symm.trans ((parents.parent? there).symm.trans named))
      exact (replaces.nodup distinct (unheld expansion rfl)).2 member
    · -- A call that was expanded earlier is no new node, so it is not the root.
      obtain ⟨_, there⟩ := placed.present before
      rcases earlier member with rfl | inside
      · rw [absent] at there
        cases there
      · have carried := ((Arena.KeepsParents.of_find? kept).parent? there).trans
          ((parents.parent? there).symm.trans named)
        exact vacated before carried inside

/-- The expansion of a call without a type stands under the parent of the call. -/
theorem placed_afterSplice
    (unknown : session.facts.nodeType? call = none) (placed : session.facts.Placed) :
    (afterSplice (afterOffer session arena state) call root spliced).facts.Placed := by
  obtain ⟨_, kept, under, ⟨node, present, carried⟩, _⟩ :=
    Arena.takesSlot keeps fresh asked replaced
  have still := Arena.keepsParents_replaceChild replaced
  have parents : session.facts.arena.KeepsParents spliced :=
    (Arena.KeepsParents.of_find? kept).trans still
  have named : ∀ {id parent}, session.facts.arena.parent? id = some parent →
      spliced.parent? id = some parent := by
    intro id parent named
    obtain ⟨_, there, _⟩ := Option.bind_eq_some_iff.mp named
    exact (parents.parent? there).trans named
  refine ⟨?_, ?_⟩
  · intro other expansion expands
    rcases expands_afterSplice expands with ⟨rfl, rfl⟩ | ⟨_, before⟩
    · obtain ⟨_, _, _, _, _, standing, _⟩ := Arena.replaceChild_replaces replaced
      obtain ⟨later, found, _⟩ := still standing
      refine ⟨parent, ⟨later, found⟩, named under, ?_⟩
      rw [show (afterSplice _ _ _ spliced).facts.arena = spliced from rfl, still.parent? present,
        Arena.parent?, present]
      exact carried
    · obtain ⟨holder, ⟨_, standing⟩, first, second⟩ := placed.under before
      obtain ⟨later, found, _⟩ := parents standing
      exact ⟨holder, ⟨later, found⟩, named first, named second⟩
  · intro other expansion ty expands typed
    rcases expands_afterSplice expands with ⟨rfl, rfl⟩ | ⟨_, before⟩
    · cases unknown.symm.trans typed
    · exact placed.echoed before typed

omit fresh in
/-- The slots of a node keep their tenants, of which the call became its expansion. -/
theorem slots_afterSplice
    {holder : NodeId} {node : Node} (there : session.facts.arena.find? holder = some node) :
    List.Forall₂ (afterSplice (afterOffer session arena state) call root spliced).facts.Becomes
      (session.facts.arena.children holder) (spliced.children holder) := by
  obtain ⟨replaces, others⟩ := Arena.replacesFirst_replaceChild replaced
  have expands : (afterSplice (afterOffer session arena state) call root
      spliced).facts.Expands call root := Table.get?_insert_self _ _ _
  rw [← children_of_expand keeps asked there]
  by_cases same : holder = parent
  · subst same
    exact replaces.forall₂ (fun _ => .refl) (.single expands)
  · exact (others same).symm ▸ List.forall₂_same.mpr fun _ _ => .refl

theorem keepsPlaces_afterSplice
    (unknown : session.facts.nodeType? call = none)
    (unexpanded : session.facts.expansionOf? call = none) :
    session.KeepsPlaces expander.HoldsApart
      (afterSplice (afterOffer session arena state) call root spliced) where
  parents := (Arena.KeepsParents.of_find? fun present => find?_of_expand keeps asked present).trans
    (Arena.keepsParents_replaceChild replaced)
  expansions expands := Table.get?_insert_of_known unexpanded expands
  slots := slots_afterSplice keeps asked replaced
  placed := placed_afterSplice keeps fresh asked replaced unknown
  clears placed _ known cleared :=
    clears_afterSplice keeps fresh asked replaced placed known cleared

end Splice

/-- A splice that is refused ends the resolution of its call, which gets no expansion. -/
theorem resolveCall_of_refused
    {setting : Setting σ} {infer : NodeId → Infer σ (Option Ty)} {call root : NodeId}
    {receiver : Ty} {name : String} {types : List Ty} {node : Node} {stop : Stop}
    {session asked after : Session σ}
    (present : session.facts.arena.find? call = some node)
    (unexpanded : session.facts.expansionOf? call = none)
    (means : session.members.find receiver name types = .ok none)
    (offered : Returns (offer setting call receiver) session (some root) asked)
    (refused : (splice call root).run asked = (.error stop, after)) :
    (resolveCall setting infer call receiver name types).run session = (.error stop, after) ∧
      after.facts.expansionOf? call = none := by
  have located : Returns (locationOf call) session node.location session := by
    simp [Returns, locationOf, run_bind, run_map, Arena.require_of_find? present]
  have looked : Returns (findMethod receiver name types node.location) session none session :=
    returns_findMethod.mpr ⟨means, rfl⟩
  have kept : after = asked := by
    rcases splice_cases call root asked with ⟨_, run⟩ | ⟨_, _, _, _, run, _⟩
    · exact congrArg Prod.snd (refused.symm.trans run)
    · cases congrArg Prod.fst (refused.symm.trans run)
  subst kept
  constructor
  · rw [resolveCall_eq, run_bind_of_returns located, run_bind_of_returns looked, graft,
      run_bind_of_returns offered]
    exact run_bind_of_error refused
  · obtain rfl := congrArg Prod.snd (offered.symm.trans (run_offer rfl))
    exact unexpanded

theorem watches_keepsPlaces
    {setting : Setting σ} (keeps : setting.expander.KeepsNodes)
    (fresh : setting.expander.AnswersFresh) :
    Watches setting (Session.KeepsPlaces setting.expander.HoldsApart) where
  trans _ _ _ := Session.KeepsPlaces.trans
  calm arena nodeTypes expansions _ := .of_same arena nodeTypes expansions
  notes unknown answered := .setNodeType unknown answered
  offers _ _ asked := keepsPlaces_afterOffer keeps asked fresh
  splices unknown unexpanded asked replaced :=
    keepsPlaces_afterSplice keeps fresh asked replaced unknown unexpanded

/-- Once the call has an expansion, part of what the expander remembers stays as it is. -/
def Session.Spares {α : Type} (call : NodeId) (seen : σ → α) (before after : Session σ) : Prop :=
  ∀ {expansion}, before.facts.Expands call expansion →
    after.facts.Expands call expansion ∧ seen after.expanderState = seen before.expanderState

section Sparing

variable {setting : Setting σ} {α : Type} {call : NodeId} {seen : σ → α}
  (others : ∀ arena asked receiver state, asked ≠ call →
    seen (setting.expander.expand arena asked receiver state).2.2 = seen state)

include others

/-- A question about a call without an expansion is one about another call. -/
theorem seen_eq_of_asked
    {session : Session σ} {id expansion : NodeId} {receiver : Ty} {answer : Option NodeId}
    {arena : Arena} {state : σ} (unexpanded : session.facts.expansionOf? id = none)
    (expands : session.facts.Expands call expansion)
    (asked : setting.expander.expand session.facts.arena id receiver session.expanderState =
      (answer, arena, state)) :
    seen state = seen session.expanderState := by
  have different : id ≠ call := by
    rintro rfl
    cases unexpanded.symm.trans expands
  have same := others session.facts.arena id receiver session.expanderState different
  rwa [asked] at same

/-- What questions about other calls leave alone is spared. -/
theorem watches_spares : Watches setting (Session.Spares call seen) where
  trans first second third early late expansion expands := by
    obtain ⟨kept, same⟩ := early expands
    obtain ⟨still, again⟩ := late kept
    exact ⟨still, again.trans same⟩
  calm _ _ expansions state _ expands :=
    ⟨(Facts.expands_iff expansions).mpr expands, congrArg seen state⟩
  notes _ _ _ expands := ⟨expands, rfl⟩
  offers _ unexpanded asked _ expands :=
    ⟨expands, seen_eq_of_asked others unexpanded expands asked⟩
  splices _ unexpanded asked _ _ expands :=
    ⟨Table.get?_insert_of_known unexpanded expands,
      seen_eq_of_asked others unexpanded expands asked⟩

end Sparing

/-- The expander that also counts the questions about one call. -/
def Expander.counting (expander : Expander σ) (call : NodeId) : Expander (σ × Nat) where
  expand arena asked receiver state :=
    let (answer, after, later) := expander.expand arena asked receiver state.1
    (answer, after, later, if asked = call then state.2 + 1 else state.2)
  growth := expander.growth

/-- The second node is what the first one became in the end. -/
def Facts.EndsAs (facts : Facts) (call last : NodeId) : Prop :=
  facts.Becomes call last ∧ facts.expansionOf? last = none

namespace Typer

/-- The typer whose expander also counts the questions about one call. -/
def counting (typer : Typer σ) (call : NodeId) : Typer (σ × Nat) where
  config := typer.config
  expander := typer.expander.counting call

section Reached

variable {typer : Typer σ} (keeps : typer.expander.KeepsNodes)
  (fresh : typer.expander.AnswersFresh) {arena : Arena} {catalog : Catalog} {state : σ}
  {session : Session σ} (reached : typer.Reachable arena catalog state session)

include keeps fresh reached

theorem Reachable.keepsPlaces :
    (Typer.start arena catalog state).KeepsPlaces typer.expander.HoldsApart session := by
  have watches : Watches typer.setting (Session.KeepsPlaces typer.expander.HoldsApart) :=
    watches_keepsPlaces keeps fresh
  have respects := watches.respects keeps
  induction reached with
  | start => exact respects.refl _
  | step _ operation ih => exact respects.trans ih (respects.perform _ operation)

theorem Reachable.placed : session.facts.Placed :=
  (reached.keepsPlaces keeps fresh).placed ⟨nofun, nofun⟩

variable (linked : arena.WellLinked)

include linked

theorem Reachable.clears
    {parent : NodeId}
    (known : (∃ node, arena.find? parent = some node) ∨ typer.expander.HoldsApart) :
    session.facts.Clears parent := by
  refine (reached.keepsPlaces keeps fresh).clears ⟨nofun, nofun⟩ known
    ⟨?_, linked.nodup parent, nofun⟩
  intro child member
  obtain ⟨node, present, _⟩ := linked.linked member
  exact ⟨node, present⟩

/-- The slots of the original tree hold what their tenants became in the end. -/
theorem Reachable.slots
    {parent : NodeId} {node : Node} (present : arena.find? parent = some node) :
    List.Forall₂ session.facts.EndsAs (arena.children parent)
      (session.facts.arena.children parent) := by
  have places := reached.keepsPlaces keeps fresh
  have placed := reached.placed keeps fresh
  have cleared := reached.clears keeps fresh linked (.inl ⟨node, present⟩)
  have became : List.Forall₂ session.facts.Becomes (arena.children parent)
      (session.facts.arena.children parent) := places.slots present
  refine List.forall₂_iff_zip.mpr ⟨became.length_eq, fun {call last} member => ?_⟩
  have becomes := List.forall₂_zip became member
  obtain ⟨held, holds⟩ := List.of_mem_zip member
  refine ⟨becomes, ?_⟩
  cases known : session.facts.expansionOf? last with
  | none => rfl
  | some expansion =>
      obtain ⟨child, there, carried⟩ := linked.linked held
      have named : arena.parent? call = some parent := by
        rw [Arena.parent?, there]
        exact carried
      have still : session.facts.arena.parent? last = some parent :=
        (placed.parent?_of_becomes becomes).trans ((places.parents.parent? there).trans named)
      exact absurd holds (cleared.vacated known still)

end Reached

/-- Macro expansion is transparent and happens once for each call.  An expansion has the parent
of its call, and its type where the call has one; the call is gone from the parent, if that is
a node of the original tree or the expander adds nodes that hold their children once.  The
slots of the original tree hold what their tenants became in the end, so their number and
their order stay.  A call that has an expansion is never offered to the expander again, and
when the splice is refused, the call has none. -/
theorem expansions_take_the_place_of_calls
    {typer : Typer σ} (keeps : typer.expander.KeepsNodes) (fresh : typer.expander.AnswersFresh)
    {arena : Arena} (linked : arena.WellLinked) (catalog : Catalog) (state : σ) :
    (∀ {session}, typer.Reachable arena catalog state session →
      (∀ {call expansion}, session.facts.Expands call expansion →
        ∃ parent, session.facts.arena.parent? call = some parent ∧
          session.facts.arena.parent? expansion = some parent ∧
          ((∃ node, arena.find? parent = some node) ∨ typer.expander.HoldsApart →
            call ∉ session.facts.arena.children parent) ∧
          ∀ {ty}, session.facts.nodeType? call = some ty →
            session.facts.nodeType? expansion = some ty) ∧
      ∀ {parent node}, arena.find? parent = some node →
        List.Forall₂ session.facts.EndsAs (arena.children parent)
          (session.facts.arena.children parent)) ∧
    (∀ {call expansion} {session later : Session (σ × Nat)},
      session.facts.Expands call expansion → (typer.counting call).Continues session later →
        later.expanderState.2 = session.expanderState.2) ∧
    ∀ {infer call receiver name types node root stop} {session asked after : Session σ},
      session.facts.arena.find? call = some node → session.facts.expansionOf? call = none →
      session.members.find receiver name types = .ok none →
      Returns (offer typer.setting call receiver) session (some root) asked →
      (splice call root).run asked = (.error stop, after) →
        (resolveCall typer.setting infer call receiver name types).run session =
            (.error stop, after) ∧
          after.facts.expansionOf? call = none := by
  refine ⟨fun {session} reached => ⟨?_, reached.slots keeps fresh linked⟩, ?_, ?_⟩
  · intro call expansion expands
    have placed := reached.placed keeps fresh
    obtain ⟨parent, _, named, carried⟩ := placed.under expands
    exact ⟨parent, named, carried,
      fun known => (reached.clears keeps fresh linked known).vacated expands named,
      placed.echoed expands⟩
  · intro call expansion session later expands continues
    have counts : Watches (typer.counting call).setting (Session.Spares call Prod.snd) := by
      refine watches_spares ?_
      intro arena asked receiver state different
      exact if_neg different
    have keepsToo : (typer.counting call).expander.KeepsNodes :=
      fun arena asked receiver state _ _ present =>
        keeps arena asked receiver state.1 present
    exact (((counts.respects keepsToo).continues continues) expands).2
  · intro infer call receiver name types node root stop session asked after present unexpanded
      means offered refused
    exact resolveCall_of_refused present unexpanded means offered refused

/-- What takes the place of a call, and the nodes below it: another call for a relay, a body
that holds another call two times for a repetition, and a number for everything else. -/
def stagedExpansion (name : String) (id : NodeId) : Kind NodeId × List Node :=
  match name with
  | "relay" => (.functionalCall "answer" [] none, [])
  | "twice" => (.body [id + 1, id + 1], [
      { id := id + 1, parent := some id, location := {},
        kind := .functionalCall "answer" [] none }])
  | _ => (.fixnum 42, [])

/-- Adds nodes one after another. -/
def addNodes (arena : Arena) (nodes : List Node) : Except TreeError Arena :=
  nodes.foldlM Arena.add arena

/-- A typer whose expander puts something in the place of every call. -/
def staging : Typer Unit where
  expander.expand arena call _ state :=
    match arena.find? call with
    | none => (none, arena, state)
    | some node =>
        let (kind, below) := stagedExpansion (node.kind.name?.getD "") arena.nextId
        let root : Node := { id := arena.nextId, parent := node.parent, location := {}, kind }
        match addNodes arena (root :: below) with
        | .ok after => (some arena.nextId, after, state)
        | .error _ => (none, arena, state)
  expander.growth := 3

theorem find?_of_addNodes
    {before after : Arena} {nodes : List Node} (added : addNodes before nodes = .ok after)
    {id : NodeId} {node : Node} (present : before.find? id = some node) :
    after.find? id = some node := by
  induction nodes generalizing before with
  | nil =>
      cases added
      exact present
  | cons first rest ih =>
      obtain ⟨grown, addsFirst, addsRest⟩ := exists_of_bind_eq_ok added
      obtain ⟨absent, _, others⟩ := Arena.find?_add addsFirst
      have different : id ≠ first.id := by
        rintro rfl
        rw [absent] at present
        cases present
      exact ih addsRest ((others different).trans present)

theorem staging_answers
    {before after : Arena} {call : NodeId} {receiver : Ty} {state later : Unit}
    {answer : Option NodeId}
    (asked : staging.expander.expand before call receiver state = (answer, after, later)) :
    answer = none ∧ after = before ∨
      ∃ root below, addNodes before (root :: below) = .ok after ∧ answer = some root.id ∧
        root.parent = before.parent? call := by
  simp only [staging] at asked
  split at asked
  · cases asked
    exact .inl ⟨rfl, rfl⟩
  · rename_i node present
    split at asked
    · rename_i grown added
      cases asked
      refine .inr ⟨_, _, added, rfl, ?_⟩
      rw [Arena.parent?, present]
      rfl
    · cases asked
      exact .inl ⟨rfl, rfl⟩

theorem staging_keepsNodes : staging.expander.KeepsNodes := by
  intro arena call receiver state id node present
  rcases asked : staging.expander.expand arena call receiver state with ⟨answer, after, later⟩
  rcases staging_answers asked with ⟨_, rfl⟩ | ⟨_, _, added, _⟩
  · exact present
  · exact find?_of_addNodes added present

theorem staging_answersFresh : staging.expander.AnswersFresh := by
  intro before after call receiver state root later asked
  rcases staging_answers asked with ⟨declined, _⟩ | ⟨node, below, added, same, carried⟩
  · cases declined
  · cases same
    obtain ⟨grown, addsRoot, addsBelow⟩ := exists_of_bind_eq_ok added
    obtain ⟨absent, stored, _⟩ := Arena.find?_add addsRoot
    exact ⟨absent, node, find?_of_addNodes addsBelow stored, carried⟩

/-- A script that calls an unknown method of this name before a number. -/
def stagedScript (name : String) : Arena where
  nodes := ⟨[
    (1, { id := 1, parent := none, location := {}, kind := .script "" (some 2) }),
    (2, { id := 2, parent := some 1, location := {}, kind := .body [3, 4] }),
    (3, { id := 3, parent := some 2, location := {}, kind := .functionalCall name [] none }),
    (4, { id := 4, parent := some 2, location := {}, kind := .fixnum 7 })]⟩
  nextId := 5

/-- What is known once the script is typed. -/
def stagedSession (name : String) : Session Unit :=
  staging.perform (start (stagedScript name) {} ()) .inferTypes

/-- What is known once the script is typed, with the questions about its call counted. -/
def countedSession (name : String) : Session (Unit × Nat) :=
  (staging.counting 3).perform (start (stagedScript name) {} ((), 0)) .inferTypes

theorem expansions_take_the_place_of_calls_of_relay :
    staging.expander.KeepsNodes ∧ staging.expander.AnswersFresh ∧
      (stagedScript "relay").WellLinked ∧
      (stagedSession "relay").facts.expansionOf? 3 = some 5 ∧
      (stagedSession "relay").facts.expansionOf? 5 = some 6 ∧
      (stagedSession "relay").facts.nodeType? 3 = some .int ∧
      (stagedSession "relay").facts.nodeType? 5 = some .int ∧
      3 ∉ (stagedSession "relay").facts.arena.children 2 ∧
      List.Forall₂ (stagedSession "relay").facts.EndsAs [3, 4] [6, 4] ∧
      (countedSession "relay").expanderState.2 = 1 ∧
      ∀ operation,
        ((staging.counting 3).perform (countedSession "relay") operation).expanderState.2 = 1 := by
  have linked : (stagedScript "relay").WellLinked := .of_entries (by decide)
  have reached : staging.Reachable (stagedScript "relay") {} () (stagedSession "relay") :=
    .step .start .inferTypes
  have expands : (stagedSession "relay").facts.expansionOf? 3 = some 5 := by decide +kernel
  have typed : (stagedSession "relay").facts.nodeType? 3 = some .int := by decide +kernel
  obtain ⟨inPlace, silent, _⟩ := expansions_take_the_place_of_calls staging_keepsNodes
    staging_answersFresh linked {} ()
  obtain ⟨places, slots⟩ := inPlace reached
  obtain ⟨parent, under, _, gone, echoed⟩ := places expands
  have named : (stagedSession "relay").facts.arena.parent? 3 = some 2 := by decide +kernel
  obtain rfl : 2 = parent := Option.some.inj (named.symm.trans under)
  have body : (stagedScript "relay").find? 2 = some
      { id := 2, parent := some 1, location := {}, kind := .body [3, 4] } := by decide
  have children : (stagedSession "relay").facts.arena.children 2 = [6, 4] := by decide +kernel
  have counted : (countedSession "relay").facts.expansionOf? 3 = some 5 := by decide +kernel
  have once : (countedSession "relay").expanderState.2 = 1 := by decide +kernel
  exact ⟨staging_keepsNodes, staging_answersFresh, linked, expands, by decide +kernel, typed,
    echoed typed, gone (.inl ⟨_, body⟩), children ▸ slots body, once,
    fun operation => (silent counted (.step .refl operation)).trans once⟩

/-- An expander may put one call in two slots of a node that it adds.  An expansion of the
call takes the first of them, and the call stays in the second one. -/
theorem call_in_two_slots_stays_in_one :
    staging.expander.KeepsNodes ∧ staging.expander.AnswersFresh ∧
      (stagedScript "twice").WellLinked ∧
      staging.Reachable (stagedScript "twice") {} () (stagedSession "twice") ∧
      (stagedSession "twice").facts.expansionOf? 6 = some 7 ∧
      (stagedSession "twice").facts.arena.parent? 6 = some 5 ∧
      (stagedSession "twice").facts.arena.children 5 = [7, 6] :=
  ⟨staging_keepsNodes, staging_answersFresh, .of_entries (by decide),
    .step .start .inferTypes, by decide +kernel, by decide +kernel, by decide +kernel⟩

end Typer

end DeferredTyping
