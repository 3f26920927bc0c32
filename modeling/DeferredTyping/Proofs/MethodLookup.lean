import DeferredTyping.Proofs.Lineage
import DeferredTyping.Proofs.Registration
import DeferredTyping.Proofs.Selection

/-!
# Looking up a method

A class answers a call with the overload that the call means, and when it has learned none
that takes the arguments, with what the catalogue knows of it.  On the way up from the receiver
the first class that has something to offer answers, and the others are not heard.
-/

namespace DeferredTyping

variable {σ : Type}

namespace Members

/-- What a class has to offer for a call: a learned overload that takes the arguments, or a
method that the catalogue knows. -/
inductive Offers (members : Members) (name : String) (arguments : List Ty) (definingClass : Ty) :
    MethodType → Prop where
  | learned {method : MethodType}
      (overload : method ∈ members.methods.overloads definingClass name)
      (takes : Assignable.TakesEach members.catalog.isParent method.parameters arguments ∨
        method.TakesSpread members.catalog.isParent arguments) :
      Offers members name arguments definingClass method
  | known {returnType : Ty}
      (knows : members.catalog.methodType? definingClass name arguments = some returnType) :
      Offers members name arguments definingClass
        { definingClass, name, parameters := arguments, returnType }

/-- The class is the first one of the chain that has something to offer. -/
def FirstToOffer (members : Members) (name : String) (arguments : List Ty) (chain : List Ty)
    (definingClass : Ty) : Prop :=
  (∃ method, members.Offers name arguments definingClass method) ∧
    ∃ before after, chain = before ++ definingClass :: after ∧
      ∀ earlier ∈ before, ∀ method, ¬ members.Offers name arguments earlier method

/-- What a call means, by rule, on the learned overloads of a class. -/
abbrev Means (members : Members) (name : String) (arguments : List Ty) (definingClass : Ty) :
    Selection → Prop :=
  Overloads.Means members.catalog.isParent (members.methods.overloads definingClass name) arguments

/-- The answer of a class by rule. -/
inductive Answers (members : Members) (name : String) (arguments : List Ty)
    (definingClass : Ty) : LookupResult → Prop where
  | learned {method : MethodType}
      (means : members.Means name arguments definingClass (.found method)) :
      Answers members name arguments definingClass (.ok (some method))
  | ambiguous (means : members.Means name arguments definingClass .ambiguous) :
      Answers members name arguments definingClass (.error definingClass)
  | known {returnType : Ty} (unlearned : members.Means name arguments definingClass .absent)
      (knows : members.catalog.methodType? definingClass name arguments = some returnType) :
      Answers members name arguments definingClass
        (.ok (some { definingClass, name, parameters := arguments, returnType }))
  | unknown (unlearned : members.Means name arguments definingClass .absent)
      (unknown : members.catalog.methodType? definingClass name arguments = none) :
      Answers members name arguments definingClass (.ok none)

variable {members : Members} {name : String} {arguments : List Ty} {definingClass : Ty}
  {method : MethodType}

theorem Offers.definingClass_eq
    (offers : members.Offers name arguments definingClass method) :
    method.definingClass = definingClass := by
  cases offers with
  | learned overload => exact (MethodTable.mem_overloads_iff.mp overload).2.1
  | known => rfl

theorem Offers.name_eq
    (offers : members.Offers name arguments definingClass method) :
    method.name = name := by
  cases offers with
  | learned overload => exact (MethodTable.mem_overloads_iff.mp overload).2.2
  | known => rfl

theorem Offers.takes
    (offers : members.Offers name arguments definingClass method) :
    Assignable.TakesEach members.catalog.isParent method.parameters arguments ∨
      method.TakesSpread members.catalog.isParent arguments := by
  cases offers with
  | learned _ takes => exact takes
  | known => exact .inl (.refl members.catalog.isParent_refl arguments)

theorem offers_of_competes
    (competes : Overloads.Competes members.catalog.isParent
      (members.methods.overloads definingClass name) arguments method) :
    members.Offers name arguments definingClass method :=
  .learned competes.1 (competes.2.imp_right fun spread => spread.2.1)

theorem answers_declared (definingClass : Ty) :
    members.Answers name arguments definingClass
      (members.declared name arguments definingClass) := by
  have means : members.Means name arguments definingClass _ :=
    Overloads.select_means members.catalog.isParent_refl
  unfold declared
  generalize Overloads.select _ _ _ = selection at means ⊢
  cases selection with
  | found method => exact .learned means
  | ambiguous => exact .ambiguous means
  | absent =>
      cases knows : members.catalog.methodType? definingClass name arguments with
      | some returnType => exact .known means knows
      | none => exact .unknown means knows

theorem Answers.offers
    (answers : members.Answers name arguments definingClass (.ok (some method))) :
    members.Offers name arguments definingClass method := by
  cases answers with
  | learned means => exact offers_of_competes (Overloads.means_found_iff.mp means).1
  | known _ knows => exact .known knows

/-- A constructor that is found takes the arguments and is one of the class itself. -/
theorem offers_of_findConstructor
    (found : members.findConstructor definingClass arguments = .ok (some method)) :
    members.Offers "initialize" arguments definingClass method := by
  have answers : members.Answers "initialize" arguments definingClass
      (members.findConstructor definingClass arguments) := answers_declared definingClass
  rw [found] at answers
  exact answers.offers

/-- A class passes a call on only when it has nothing to offer. -/
theorem Answers.none_iff {answer : LookupResult}
    (answers : members.Answers name arguments definingClass answer) :
    answer = .ok none ↔ ∀ method, ¬ members.Offers name arguments definingClass method := by
  cases answers with
  | learned means =>
      exact iff_of_false nofun fun silent =>
        silent _ (offers_of_competes (Overloads.means_found_iff.mp means).1)
  | ambiguous means =>
      obtain ⟨⟨method, competes⟩, _⟩ := Overloads.means_ambiguous_iff.mp means
      exact iff_of_false nofun fun silent => silent method (offers_of_competes competes)
  | known _ knows => exact iff_of_false nofun fun silent => silent _ (.known knows)
  | unknown unlearned unknown =>
      refine iff_of_true rfl ?_
      rintro method (⟨overload, takes⟩ | knows)
      · obtain ⟨competitor, competes⟩ := Overloads.exists_competes overload takes
        exact Overloads.means_absent_iff.mp unlearned competitor competes
      · cases unknown.symm.trans knows

/-- Either no class on the chain answers, or the first one that does decides. -/
theorem firstOffer_cases (offer : Ty → LookupResult) (chain : List Ty) :
    (firstOffer offer chain = .ok none ∧ ∀ candidate ∈ chain, offer candidate = .ok none) ∨
      ∃ before candidate after, chain = before ++ candidate :: after ∧
        (∀ earlier ∈ before, offer earlier = .ok none) ∧ offer candidate ≠ .ok none ∧
        firstOffer offer chain = offer candidate := by
  induction chain with
  | nil => exact .inl ⟨rfl, nofun⟩
  | cons first rest ih =>
      rw [firstOffer]
      split
      · rename_i silent
        rcases ih with ⟨answer, others⟩ | ⟨before, candidate, after, rfl, earlier, loud, answer⟩
        · exact .inl ⟨answer, List.forall_mem_cons.mpr ⟨silent, others⟩⟩
        · exact .inr ⟨first :: before, candidate, after, rfl,
            List.forall_mem_cons.mpr ⟨silent, earlier⟩, loud, answer⟩
      · rename_i loud
        exact .inr ⟨[], first, rest, rfl, nofun, loud, rfl⟩

/-- The answer to a call by rule, given the classes that are asked in turn. -/
inductive Decides (members : Members) (name : String) (arguments : List Ty) (chain : List Ty) :
    LookupResult → Prop where
  | silent (silent : ∀ candidate ∈ chain, ∀ method,
        ¬ members.Offers name arguments candidate method) :
      Decides members name arguments chain (.ok none)
  | found {method : MethodType}
      (first : members.FirstToOffer name arguments chain method.definingClass)
      (offers : members.Offers name arguments method.definingClass method) :
      Decides members name arguments chain (.ok (some method))
  | ambiguous {definingClass : Ty}
      (first : members.FirstToOffer name arguments chain definingClass)
      (means : members.Means name arguments definingClass .ambiguous) :
      Decides members name arguments chain (.error definingClass)

theorem FirstToOffer.mem {chain : List Ty}
    (first : members.FirstToOffer name arguments chain definingClass) :
    definingClass ∈ chain := by
  obtain ⟨_, before, after, rfl, _⟩ := first
  exact List.mem_append_right before List.mem_cons_self

theorem find_decides (receiver : Ty) :
    members.Decides name arguments (members.catalog.superclassChain receiver)
      (members.find receiver name arguments) := by
  have passesOn : ∀ {candidate}, members.declared name arguments candidate = .ok none ↔
      ∀ method, ¬ members.Offers name arguments candidate method :=
    fun {candidate} => (answers_declared candidate).none_iff
  unfold find
  rcases firstOffer_cases (members.declared name arguments)
      (members.catalog.superclassChain receiver) with
    ⟨answer, others⟩ | ⟨before, candidate, after, split, earlier, loud, answer⟩
  · rw [answer]
    exact .silent fun other member => passesOn.mp (others other member)
  · have offering : ∃ method, members.Offers name arguments candidate method := by
      rw [Ne, passesOn] at loud
      push Not at loud
      exact loud
    have first : members.FirstToOffer name arguments
        (members.catalog.superclassChain receiver) candidate :=
      ⟨offering, before, after, split, fun other member => passesOn.mp (earlier other member)⟩
    have answers : members.Answers name arguments candidate _ := answers_declared candidate
    rw [answer]
    generalize members.declared name arguments candidate = result at answers loud
    match result with
    | .ok none => exact absurd rfl loud
    | .ok (some method) =>
        have offers := answers.offers
        obtain rfl := offers.definingClass_eq
        exact .found first offers
    | .error other =>
        cases answers with
        | ambiguous means => exact .ambiguous first means

theorem means_of_find_error {receiver : Ty}
    (refused : members.find receiver name arguments = .error definingClass) :
    members.Means name arguments definingClass .ambiguous := by
  have decides : members.Decides name arguments (members.catalog.superclassChain receiver)
      (members.find receiver name arguments) := find_decides receiver
  rw [refused] at decides
  cases decides with
  | ambiguous _ means => exact means

theorem means_of_findConstructor_error {instanceType : Ty}
    (refused : members.findConstructor instanceType arguments = .error definingClass) :
    members.Means "initialize" arguments definingClass .ambiguous := by
  have answers : members.Answers "initialize" arguments instanceType
      (members.findConstructor instanceType arguments) := answers_declared instanceType
  rw [refused] at answers
  cases answers with
  | ambiguous means => exact means

end Members

section Order

/-- When no two different parameter types of learned methods take each other, a call does not
depend on the order in which methods were learned. -/
theorem Members.find_eq_of_perm
    (catalog : Catalog) {methods others : MethodTable} (distinct : methods.Distinct)
    (apart : ∀ left ∈ methods.entries, ∀ right ∈ methods.entries, ∀ one ∈ left.parameters,
      ∀ other ∈ right.parameters, catalog.isParent one other = true →
        catalog.isParent other one = true → one = other)
    (perm : others.entries.Perm methods.entries)
    (receiver : Ty) (name : String) (arguments : List Ty) :
    Members.find { catalog, methods := others } receiver name arguments =
      Members.find { catalog, methods } receiver name arguments := by
  apply firstOffer_congr
  intro candidate _
  have listed : ∀ method ∈ methods.overloads candidate name, method ∈ methods.entries :=
    fun _ member => (MethodTable.mem_overloads_iff.mp member).1
  have same : Overloads.select catalog.isParent (others.overloads candidate name) arguments =
      Overloads.select catalog.isParent (methods.overloads candidate name) arguments :=
    Overloads.select_eq_of_perm (distinct.nodup_parameters candidate name)
      (fun left isLeft right isRight =>
        apart left (listed left isLeft) right (listed right isRight))
      catalog.isParent_refl (perm.filter _)
  unfold declared
  rw [same]

end Order

open Infer

/-- A built catalogue stays built, whether the step ends with a value or not. -/
abbrev Infer.KeepsBuilt {α : Type} (step : Infer σ α) : Prop :=
  Relates (fun before after => before.catalog.Built → after.catalog.Built) step

theorem Infer.KeepsBuilt.bind
    {α β : Type} {step : Infer σ α} {next : α → Infer σ β}
    (first : KeepsBuilt step) (second : ∀ value, KeepsBuilt (next value)) :
    KeepsBuilt (step >>= next) :=
  Relates.bind first (fun _ _ _ early late built => late (early built)) second

namespace Typer

variable {typer : Typer σ}

theorem registerTypes_keepsBuilt : KeepsBuilt typer.registerTypes := by
  have declares : KeepsBuilt (declareTypes : Infer σ Unit) :=
    fun session built => built.declare session.facts.arena
  have reads : KeepsBuilt (getArena : Infer σ Arena) := fun _ built => built
  have constructs : ∀ methods, KeepsBuilt (declareConstructors typer.setting methods) := by
    intro methods session built
    obtain ⟨_, ended, _⟩ := run_declareConstructors typer.setting methods session
    rw [ended]
    exact built
  have resolves : ∀ methods, KeepsBuilt (declareSignatures typer.setting methods) := by
    intro methods session built
    obtain ⟨_, _, ended⟩ := (declareSignatures_adds methods).learns session
    rw [ended]
    exact built
  exact declares.bind fun _ => reads.bind fun tree =>
    (constructs tree.methods).bind fun _ => resolves tree.methods

theorem respects_built :
    typer.Respects fun before after => before.catalog.Built → after.catalog.Built where
  trans _ _ _ early late built := late (early built)
  drives _ _ _ _ built := built
  registers := registerTypes_keepsBuilt
  visits child session built := (typer.infer_extends child session).catalog ▸ built
  keeps _ types session built := (keepArgumentTypes_extends types session).catalog ▸ built
  adds adds session built :=
    ((traversal_extends typer.setting).own adds.own session).catalog ▸ built

/-- Declared classes are added to the catalogue, and nothing else happens to it. -/
theorem Reachable.built
    {arena : Arena} {catalog : Catalog} {state : σ} {session : Session σ}
    (reached : typer.Reachable arena catalog state session) (built : catalog.Built) :
    session.catalog.Built := by
  induction reached with
  | start => exact built
  | step _ operation kept => exact respects_built.perform _ operation kept

/-- Looking up a method always comes to an end, leaves the session alone and goes by the first
class on the way up from the receiver that has something to offer: that class is meant, or the
call is ambiguous on it.  Where classes extend classes alone and the root class has no parent
but itself, it is a parent of the receiver. -/
theorem methodType_goes_by_first_offer
    {arena : Arena} {catalog : Catalog} {state : σ} {session : Session σ}
    (reached : typer.Reachable arena catalog state session) (built : catalog.Built)
    (receiver : Ty) (name : String) (arguments : List Ty) :
    ∃ chain answer, session.catalog.GoesUp receiver chain ∧
      (methodType receiver name arguments).run session = (answer, session) ∧
      (∀ method, answer = .ok (some method) →
        session.members.FirstToOffer name arguments chain method.definingClass ∧
        session.members.Offers name arguments method.definingClass method ∧
        method.definingClass.isMeta = receiver.isMeta ∧
        (Assignable.TakesEach session.catalog.isParent method.parameters arguments ∨
          method.TakesSpread session.catalog.isParent arguments) ∧
        (session.catalog.ExtendsClasses →
          (∀ parent ∈ session.catalog.parentNames objectName, parent = objectName) →
            session.catalog.isParent method.definingClass receiver = true)) ∧
      (∀ stop, answer = .error stop → ∃ definingClass,
        stop = .failed (.ambiguousMethod definingClass name arguments {}) ∧
        session.members.FirstToOffer name arguments chain definingClass ∧
        session.members.Means name arguments definingClass .ambiguous) ∧
      (answer = .ok none ↔ ∀ candidate ∈ chain, ∀ method,
        ¬ session.members.Offers name arguments candidate method) := by
  have knows : session.catalog.KnowsBuiltins := (reached.built built).knowsBuiltins
  have goesUp := Catalog.goesUp_superclassChain knows receiver
  have decides : session.members.Decides name arguments
      (session.catalog.superclassChain receiver) _ :=
    Members.find_decides receiver
  have run : (methodType receiver name arguments).run session = _ :=
    run_findMethod receiver name arguments {} session
  generalize session.members.find receiver name arguments = found at decides run
  cases decides with
  | silent silent =>
      exact ⟨_, _, goesUp, run, nofun, nofun, iff_of_true rfl silent⟩
  | @found method first offers =>
      refine ⟨_, _, goesUp, run, ?_, nofun, iff_of_false nofun fun silent => ?_⟩
      · rintro _ ⟨⟩
        exact ⟨first, offers, goesUp.isMeta_eq _ first.mem, offers.takes,
          fun extendsClasses root => goesUp.isParent ⟨knows, root⟩ extendsClasses _ first.mem⟩
      · exact silent _ first.mem method offers
  | @ambiguous definingClass first means =>
      refine ⟨_, _, goesUp, run, nofun, ?_, iff_of_false nofun fun silent => ?_⟩
      · rintro _ ⟨⟩
        exact ⟨definingClass, rfl, first, means⟩
      · obtain ⟨method, offers⟩ := first.1
        exact silent _ first.mem method offers

/-- One of two classes that extend each other has learned a method. -/
def growingRight : Session Unit :=
  plain.perform (start {} .circular ()) (.learnMethodType {
    definingClass := .object "Right", name := "add", parameters := [.object objectName]
    returnType := .void })

theorem methodType_goes_by_first_offer_of_circular :
    plain.Reachable {} .circular () growingRight ∧ Catalog.circular.Built ∧
      growingRight.catalog.ExtendsClasses ∧
      (∀ parent ∈ growingRight.catalog.parentNames objectName, parent = objectName) ∧
      ∃ chain method, growingRight.catalog.GoesUp (.object "Left") chain ∧
        (methodType (.object "Left") "add" [.object "Left"]).run growingRight =
          (.ok (some method), growingRight) ∧
        method.definingClass = .object "Right" ∧
        growingRight.members.FirstToOffer "add" [.object "Left"] chain (.object "Right") ∧
        growingRight.catalog.isParent (.object "Right") (.object "Left") = true := by
  have reached : plain.Reachable {} .circular () growingRight :=
    Reachable.start.step (.learnMethodType _)
  have built : Catalog.circular.Built :=
    .withClass (.withClass (.define (.withClass .builtin _ _) _) _ _) _ _
  have extendsClasses : growingRight.catalog.ExtendsClasses := by decide +kernel
  have root : ∀ parent ∈ growingRight.catalog.parentNames objectName, parent = objectName := by
    decide +kernel
  obtain ⟨chain, answer, goesUp, run, found, _⟩ :=
    methodType_goes_by_first_offer reached built (.object "Left") "add" [.object "Left"]
  have means : growingRight.members.find (.object "Left") "add" [.object "Left"] =
      .ok (some { definingClass := .object "Right", name := "add"
                  parameters := [.object objectName], returnType := .void }) := by
    decide +kernel
  have finds : Returns (methodType (.object "Left") "add" [.object "Left"]) growingRight
      (some _) growingRight := returns_findMethod.mpr ⟨means, rfl⟩
  have same : answer = .ok (some _) := congrArg Prod.fst (run.symm.trans finds)
  obtain ⟨first, _, _, _, isParent⟩ := found _ same
  exact ⟨reached, built, extendsClasses, root, chain, _, goesUp, same ▸ run, rfl, first,
    isParent extendsClasses root⟩

end Typer

end DeferredTyping
