/-!
# Settings of the inference
-/

namespace DeferredTyping

/-- The settings. -/
structure Config where
  /-- Upper bound on the passes over deferred nodes.  Without one, passes go
  on until nothing changes. -/
  maxPasses : Option Nat := none
  /-- Whether a choice with one known branch may take its type before
  inference gives up. -/
  lastChance : Bool := true
  /-- The class of top-level code in a script without a name. -/
  scriptClass : String := "Script"
deriving DecidableEq, Repr, Inhabited

/-- The settings differ in nothing from the ones used by default. -/
def Config.isDefault (config : Config) : Bool := config == {}

end DeferredTyping
