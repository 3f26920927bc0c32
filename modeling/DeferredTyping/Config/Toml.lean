import DeferredTyping.Config
import DeferredTyping.Toml.Document

/-!
# Settings as text

The settings are the table `typer` of a TOML document.  Every key may be
left out and unknown keys are ignored.  The table may also be given as an
array of the settings in their order; what stands after them in the array is
passed over.  All other numbers of the document have to fit, also those under
unknown keys.  The written form has one line for each setting, without the
bound on passes when there is none.
-/

namespace DeferredTyping

/-- Why settings cannot be read or written. -/
inductive ConfigError where
  /-- The text is no TOML, or a setting has the wrong type. -/
  | unreadable
  /-- The bound on passes is larger than an integer of a document. -/
  | unwritable
deriving DecidableEq, Repr

def ConfigError.message : ConfigError → String
  | .unreadable => "Failed to parse typer configuration"
  | .unwritable => "Failed to serialize typer configuration"

namespace Config

open Toml

/-- A bound on passes is a natural number of 64 bits. -/
def passesOf? : Value → Option Nat
  | .integer number =>
      if 0 ≤ number && number < Int.pow 2 64 then some number.toNat else none
  | _ => none

def chanceOf? : Value → Option Bool
  | .boolean value => some value
  | _ => none

def classOf? : Value → Option String
  | .string text => some text
  | _ => none

/-- Reads a setting that may be left out. -/
def field? {α : Type} (read : Value → Option α) (fallback : α) :
    Option Value → Option α
  | some value => read value
  | none => some fallback

/-- The settings from the values given for them. -/
def ofFields? (passes chance scriptClass : Option Value) : Option Config := do
  let defaults : Config := {}
  return {
    maxPasses := ← field? (fun value => (passesOf? value).map some)
      defaults.maxPasses passes
    lastChance := ← field? chanceOf? defaults.lastChance chance
    scriptClass := ← field? classOf? defaults.scriptClass scriptClass }

/-- The settings from the value of their table.  A date has none of their
keys. -/
def ofValue? : Value → Option Config
  | .table _ entries =>
      ofFields? (Entries.get? entries "max-passes")
        (Entries.get? entries "last-chance") (Entries.get? entries "script-class")
  | .array items => ofFields? items[0]? items[1]? items[2]?
  | .dateTime => some {}
  | _ => none

/-- The key of the settings. -/
def tableKey : String := "typer"

/-- How many settings there are. -/
def settingCount : Nat := 3

/-- All numbers in an entry of the root table fit, apart from what follows
the settings in an array of them. -/
def fitsRoot : String × Value → Bool
  | (key, .array items) =>
      if key = tableKey then fitItems (items.take settingCount) else fitItems items
  | (_, value) => value.fits

/-- Reads the settings of a document. -/
def ofToml? (text : String) : Except ConfigError Config :=
  let config? := do
    let root ← parse? text
    if root.all fitsRoot then
      match Entries.get? root tableKey with
      | some value => ofValue? value
      | none => some {}
    else none
  match config? with
  | some config => .ok config
  | none => .error .unreadable

/-- The largest integer that is written to a document. -/
def largestInteger : Nat := Nat.pow 2 63 - 1

/-- A line of a document. -/
def tomlLine (key : String) (value : List Char) : String :=
  key ++ " = " ++ String.ofList value ++ "\n"

/-- Writes the settings as a document. -/
def toToml? (config : Config) : Except ConfigError String := do
  let passes ← match config.maxPasses with
    | none => pure ""
    | some limit =>
        if limit ≤ largestInteger then
          pure (tomlLine "max-passes" (Nat.toDigits 10 limit))
        else throw .unwritable
  let chance := if config.lastChance then "true" else "false"
  return "[" ++ tableKey ++ "]\n" ++ passes ++ tomlLine "last-chance" chance.toList
    ++ tomlLine "script-class" (writeString config.scriptClass.toList)

end Config

end DeferredTyping
