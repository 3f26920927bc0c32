import Mathlib.Algebra.Group.Nat.Defs
import DeferredTyping.Config.Toml
import DeferredTyping.Proofs.Lines

/-!
# Settings are read back

Settings are written as the header of their table and a line for each of them, but none for a
bound on passes that there is not.  The statements of these lines build the table again, and a
key that is missing is read as its default, which is no bound.
-/

namespace DeferredTyping.Config

open Toml

/-- The statements that settings are written as. -/
def statements (config : Config) : List Statement :=
  .table ["typer"] ::
    (config.maxPasses.toList.map fun (limit : Nat) => .pair ["max-passes"] (.integer limit)) ++
    [.pair ["last-chance"] (.boolean config.lastChance),
      .pair ["script-class"] (.string config.scriptClass)]

/-- The entries of the table of settings. -/
def entries (config : Config) : Entries :=
  (config.maxPasses.toList.map fun (limit : Nat) => ("max-passes", .integer limit)) ++
    [("last-chance", .boolean config.lastChance), ("script-class", .string config.scriptClass)]

theorem foldlM_statements (config : Config) :
    config.statements.foldlM DocumentState.apply {} =
      some { root := [("typer", .table .header config.entries)], current := ["typer"] } := by
  cases limit : config.maxPasses <;>
    simp [limit, statements, entries, DocumentState.apply, Entries.descend, Entries.openTable,
      Entries.update, Entries.defineDotted, Entries.descendDotted, Entries.define]

/-- A bound that is written fits where it is read. -/
theorem passesOf?_of_le {limit : Nat} (bound : limit ≤ largestInteger) :
    passesOf? (.integer limit) = some limit := by
  have most : largestInteger = 9223372036854775807 := rfl
  have size : Int.pow 2 64 = 18446744073709551616 := rfl
  have fits : (0 ≤ (limit : Int) && (limit : Int) < Int.pow 2 64) = true := by
    rw [size, Bool.and_eq_true, decide_eq_true_eq, decide_eq_true_eq]
    omega
  rw [passesOf?, if_pos fits, Int.toNat_natCast]

theorem fitsInteger_of_le {limit : Nat} (bound : limit ≤ largestInteger) :
    fitsInteger limit = true := by
  have most : largestInteger = 9223372036854775807 := rfl
  have lower : Int.pow 2 127 = 170141183460469231731687303715884105728 := rfl
  have upper : Int.pow 2 128 = 340282366920938463463374607431768211456 := rfl
  rw [fitsInteger, lower, upper, Bool.and_eq_true, decide_eq_true_eq, decide_eq_true_eq]
  omega

/-- A bound on passes that a document can hold. -/
def Writable (config : Config) : Prop :=
  ∀ limit, config.maxPasses = some limit → limit ≤ largestInteger

/-- Every setting is found under its key. -/
theorem ofValue?_entries (config : Config) :
    ofValue? (.table .header config.entries) =
      ofFields? (config.maxPasses.map fun (limit : Nat) => .integer limit)
        (some (.boolean config.lastChance)) (some (.string config.scriptClass)) := by
  have passes : Entries.get? config.entries "max-passes" =
      config.maxPasses.map fun (limit : Nat) => .integer limit := by
    cases limit : config.maxPasses <;> simp [entries, Entries.get?, limit]
  have chance : Entries.get? config.entries "last-chance" = some (.boolean config.lastChance) := by
    cases limit : config.maxPasses <;> simp [entries, Entries.get?, limit]
  have name : Entries.get? config.entries "script-class" = some (.string config.scriptClass) := by
    cases limit : config.maxPasses <;> simp [entries, Entries.get?, limit]
  rw [ofValue?, passes, chance, name]

/-- The settings are made of what is found; without a bound there is none by default. -/
theorem ofFields?_of_writable {config : Config} (writable : config.Writable) :
    ofFields? (config.maxPasses.map fun (limit : Nat) => .integer limit)
      (some (.boolean config.lastChance)) (some (.string config.scriptClass)) = some config := by
  obtain ⟨limit, chance, name⟩ := config
  cases limit with
  | none => rfl
  | some limit =>
      have read : passesOf? (.integer limit) = some limit := passesOf?_of_le (writable limit rfl)
      show ofFields? (some (.integer limit)) (some (.boolean chance)) (some (.string name)) = _
      rw [ofFields?, field?, read]
      rfl

theorem fitsRoot_entries {config : Config} (writable : config.Writable) :
    fitsRoot ("typer", .table .header config.entries) = true := by
  obtain ⟨_ | limit, chance, name⟩ := config
  · rfl
  · simp [fitsRoot, entries, Value.fits, fitEntries, fitsInteger_of_le (writable limit rfl)]

/-- The characters of a line and of what follows it. -/
def line (key : String) (value rest : List Char) : List Char :=
  key.toList ++ ' ' :: '=' :: ' ' :: (value ++ '\n' :: rest)

/-- The characters of settings. -/
def document (config : Config) : List Char :=
  '[' :: (tableKey.toList ++ ']' :: '\n' ::
    config.maxPasses.elim id (fun limit => line "max-passes" (Nat.toDigits 10 limit))
      (line "last-chance" (if config.lastChance then "true" else "false").toList
        (line "script-class" (writeString config.scriptClass.toList) [])))

/-- Settings are written when a document can hold their bound. -/
theorem toToml?_eq {config : Config} (writable : config.Writable) :
    ∃ text, config.toToml? = .ok text ∧ text.toList = config.document := by
  obtain ⟨limit, chance, name⟩ := config
  cases limit with
  | none => exact ⟨_, rfl, by simp [document, line, tomlLine]⟩
  | some limit =>
      have bound : limit ≤ largestInteger := writable limit rfl
      simp only [toToml?, if_pos bound]
      exact ⟨_, rfl, by simp [document, line, tomlLine]⟩

theorem readStatements?_line {key : String} {value : Value} {written : List Char}
    (bare : Bare key.toList) (writes : WrittenAs value written) (fuel : Nat) (rest : List Char) :
    readStatements? (fuel + 1) (line key written rest) =
      (readStatements? fuel rest).map (.pair [key] value :: ·) := by
  rw [line, readStatements?_pair bare writes, String.ofList_toList]

/-- The text of settings is read as their statements. -/
theorem readStatements?_document (config : Config) (fuel : Nat) :
    readStatements? (fuel + 5) config.document = some config.statements := by
  have bare : Bare tableKey.toList := ⟨by decide, by decide⟩
  have tail : ∀ fuel, readStatements? (fuel + 3)
      (line "last-chance" (if config.lastChance then "true" else "false").toList
        (line "script-class" (writeString config.scriptClass.toList) [])) =
      some [.pair ["last-chance"] (.boolean config.lastChance),
        .pair ["script-class"] (.string config.scriptClass)] := by
    intro fuel
    rw [readStatements?_line ⟨by decide, by decide⟩ (writtenAs_boolean _),
      readStatements?_line ⟨by decide, by decide⟩ (writtenAs_string _)]
    rfl
  rw [document, statements, readStatements?_table bare, String.ofList_toList]
  cases config.maxPasses with
  | none =>
      simp only [Option.elim_none, id, tail (fuel + 1)]
      rfl
  | some limit =>
      simp only [Option.elim_some]
      rw [readStatements?_line ⟨by decide, by decide⟩ (writtenAs_number _), tail fuel]
      rfl

theorem parse?_eq {text : String} {config : Config} (written : text.toList = config.document) :
    parse? text = some [("typer", .table .header config.entries)] := by
  have unmarked : dropMark config.document = config.document := rfl
  have long : ∃ fuel, config.document.length + 1 = fuel + 5 := ⟨_, rfl⟩
  obtain ⟨fuel, enough⟩ := long
  rw [parse?, written, unmarked, enough, readStatements?_document]
  simp only [Option.bind_eq_bind, Option.bind_some, foldlM_statements]
  rfl

theorem ofToml?_eq {text : String} {config : Config} (writable : config.Writable)
    (written : text.toList = config.document) : ofToml? text = .ok config := by
  have fits : [("typer", Value.table .header config.entries)].all fitsRoot = true := by
    rw [List.all_cons, fitsRoot_entries writable]
    rfl
  have found : Entries.get? [("typer", Value.table .header config.entries)] tableKey =
      some (.table .header config.entries) := by
    simp [Entries.get?, tableKey]
  rw [ofToml?, parse?_eq written]
  simp only [Option.bind_eq_bind, Option.bind_some, fits, if_pos, found, ofValue?_entries,
    ofFields?_of_writable writable]

/-- Settings whose class has every kind of character that a string cannot hold as it is. -/
private def oddlyQuoted : Config where
  maxPasses := some 9223372036854775807
  lastChance := false
  scriptClass := "\n\"\"\"\x27\x27\x27\\\r\t\x00é"

end DeferredTyping.Config
