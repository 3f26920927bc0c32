import DeferredTyping.Tree.Draft
import DeferredTyping.Ty.Basic

/-!
# Expanding calls

A call that means no known method is offered to an expander.  An expander
that recognises it adds a subtree to the arena and names its root, which
then stands in place of the call.  `ExpansionRules` is the expander given by
a list of rules with templates; it keeps a log of what it was asked.
-/

namespace DeferredTyping

/-- An expander with a state of its own. -/
structure Expander (σ : Type) where
  /-- Expands a call on a receiver of this type, or declines. -/
  expand : Arena → NodeId → Ty → σ → Option NodeId × Arena × σ
  /-- A bound on the number of nodes that all expansions of a run add. -/
  growth : Nat := 0

/-- The expander that declines every call. -/
def Expander.declining : Expander Unit where
  expand arena _ _ state := (none, arena, state)

/-- A reference inside a template. -/
inductive Hole where
  /-- A node that exists already. -/
  | node (id : NodeId)
  /-- A parameter of the expanded call, counted from zero. -/
  | parameter (index : Nat)
deriving DecidableEq, Repr

/-- When a call is expanded, and what takes its place.  What a rule leaves
open holds of every call. -/
structure ExpansionRule where
  callName : Option String := none
  /-- The written form of the receiver type. -/
  receiver : Option String := none
  arity : Option Nat := none
  /-- How often the rule may be used. -/
  times : Option Nat := none
  /-- The parent of the expansion, when it is not the call's own. -/
  parent : Option NodeId := none
  template : Draft Hole

/-- One question to the expander and its answer. -/
structure ExpansionRecord where
  call : NodeId
  name : String
  receiver : String
  expansion : Option NodeId
deriving DecidableEq, Repr

/-- The rules with the number of their uses so far, and the log. -/
structure ExpansionRules where
  rules : List (ExpansionRule × Nat) := []
  log : List ExpansionRecord := []

namespace ExpansionRules

/-- The rules before their first use. -/
def ofList (rules : List ExpansionRule) : ExpansionRules :=
  { rules := rules.map fun rule => (rule, 0) }

/-- The name and the parameters of a call. -/
def callParts : Kind NodeId → String × List NodeId
  | .functionalCall name parameters _ => (name, parameters)
  | .call _ name parameters _ => (name, parameters)
  | _ => ("", [])

/-- A condition that may be left open. -/
def admits {α : Type} [BEq α] (condition : Option α) (value : α) : Bool :=
  match condition with
  | some wanted => wanted == value
  | none => true

/-- The rule applies to a call and is not used up. -/
def applies (name receiver : String) (arity : Nat)
    (entry : ExpansionRule × Nat) : Bool :=
  let (rule, used) := entry
  admits rule.callName name && admits rule.receiver receiver
    && admits rule.arity arity
    && match rule.times with
      | some limit => decide (used < limit)
      | none => true

/-- Takes the first rule that applies and counts its use. -/
def take (accepts : ExpansionRule × Nat → Bool) :
    List (ExpansionRule × Nat) →
      Option (ExpansionRule × List (ExpansionRule × Nat))
  | [] => none
  | entry :: rest =>
      if accepts entry then some (entry.1, (entry.1, entry.2 + 1) :: rest)
      else (take accepts rest).map fun (rule, others) => (rule, entry :: others)

/-- Builds a template at the place of the call.  A template that cannot be
built declines the call. -/
def instantiate (arena : Arena) (call : Node) (parameters : List NodeId)
    (rule : ExpansionRule) : Option NodeId × Arena :=
  let fill : Hole → NodeId
    | .node id => id
    | .parameter index => parameters.getD index 0
  let parent := rule.parent <|> call.parent
  let (result, builder) := ((rule.template.build fill parent).run).run {
    arena, source := call.location.source
    line := call.location.line, column := call.location.column }
  (result.toOption, builder.arena)

/-- Expands a call by the first rule that applies. -/
def expand (arena : Arena) (id : NodeId) (receiver : Ty) (rules : ExpansionRules) :
    Option NodeId × Arena × ExpansionRules :=
  match arena.find? id with
  | none => (none, arena, rules)
  | some call =>
      let (name, parameters) := callParts call.kind
      let (result, arena, remaining) :=
        match take (applies name receiver.text parameters.length) rules.rules with
        | none => (none, arena, rules.rules)
        | some (rule, remaining) =>
            let (result, arena) := instantiate arena call parameters rule
            (result, arena, remaining)
      let entry : ExpansionRecord :=
        { call := id, name, receiver := receiver.text, expansion := result }
      (result, arena, { rules := remaining, log := rules.log ++ [entry] })

/-- The expander that follows rules.  Without rules it adds nothing; else the
width of node ids, 32 bits, bounds what all its expansions together add. -/
def expander (rules : List ExpansionRule) : Expander ExpansionRules where
  expand
  growth := if rules.isEmpty then 0 else Nat.pow 2 32

end ExpansionRules

end DeferredTyping
