/-!
# TOML values and tables

A table remembers how it came about, since that decides how it may grow: one
written with a header can be given further subtables but no second header,
one that dotted keys made takes further dotted keys, one that was only
passed through on the way to a subtable can still get a header of its own,
and an inline table is closed.
-/

namespace DeferredTyping.Toml

/-- How a table came about. -/
inductive Origin where
  /-- A header of its own. -/
  | header
  /-- Passed through by the header of a subtable. -/
  | implied
  /-- Made by a dotted key. -/
  | dotted
  /-- Written in braces. -/
  | inline
deriving DecidableEq, Repr

/-- A value of a document.  Numbers may be larger than what a reader of the
document can hold; `Value.fits` tells. -/
inductive Value where
  | string (text : String)
  | integer (number : Int)
  /-- A decimal fraction, of which no more is known than whether a double can
  hold its magnitude. -/
  | float (fits : Bool)
  | boolean (value : Bool)
  | dateTime
  /-- Written in square brackets. -/
  | array (items : List Value)
  /-- Written as one header per element. -/
  | tables (elements : List (List (String × Value)))
  | table (origin : Origin) (entries : List (String × Value))

/-- The entries of a table in the order in which they were written. -/
abbrev Entries := List (String × Value)

/-- The integers that fit: 128 bits hold them with or without a sign. -/
def fitsInteger (number : Int) : Bool :=
  -Int.pow 2 127 ≤ number && number < Int.pow 2 128

mutual

/-- All numbers within a value fit. -/
def Value.fits : Value → Bool
  | .integer number => fitsInteger number
  | .float fits => fits
  | .array items => fitItems items
  | .tables elements => fitElements elements
  | .table _ entries => fitEntries entries
  | .string _ | .boolean _ | .dateTime => true

/-- All numbers within the items of an array fit. -/
def fitItems : List Value → Bool
  | [] => true
  | item :: items => item.fits && fitItems items

/-- All numbers within the elements of an array of tables fit. -/
def fitElements : List (List (String × Value)) → Bool
  | [] => true
  | entries :: elements => fitEntries entries && fitElements elements

/-- All numbers within a table fit. -/
def fitEntries : List (String × Value) → Bool
  | [] => true
  | (_, value) :: entries => value.fits && fitEntries entries

end

namespace Entries

/-- The value of a key. -/
def get? (entries : Entries) (key : String) : Option Value :=
  (entries.find? fun entry => entry.1 == key).map Prod.snd

/-- Changes the value of a key, or makes one; a refusal refuses the whole. -/
def update (key : String) (change : Option Value → Option Value) :
    Entries → Option Entries
  | [] => (change none).map fun value => [(key, value)]
  | (candidate, value) :: rest =>
      if candidate == key then
        (change (some value)).map fun value => (key, value) :: rest
      else (update key change rest).map ((candidate, value) :: ·)

/-- Adds a key that is not there yet. -/
def define (key : String) (value : Value) (entries : Entries) : Option Entries :=
  update key (fun
    | none => some value
    | some _ => none) entries

/-- Changes the last element of a list. -/
def updateLast (change : Entries → Option Entries) :
    List Entries → Option (List Entries)
  | [] => none
  | [last] => (change last).map ([·])
  | first :: rest => (updateLast change rest).map (first :: ·)

/-- Changes the table that a header path leads to.  Tables on the way are
made as needed; of an array of tables the last element is meant. -/
def descend : List String → (Entries → Option Entries) → Entries → Option Entries
  | [], change, entries => change entries
  | key :: path, change, entries =>
      update key (fun
        | none => (descend path change []).map (.table .implied)
        | some (.table .inline _) => none
        | some (.table origin inner) =>
            (descend path change inner).map (.table origin)
        | some (.tables elements) =>
            (updateLast (descend path change) elements).map .tables
        | some _ => none) entries

/-- Changes the table that a dotted key leads to.  Only tables without a
header can be passed through, and the last one has to be made by dotted
keys. -/
def descendDotted :
    List String → (Entries → Option Entries) → Entries → Option Entries
  | [], change, entries => change entries
  | key :: path, change, entries =>
      update key (fun
        | none => (descendDotted path change []).map (.table .dotted)
        | some (.table .dotted inner) =>
            (descendDotted path change inner).map (.table .dotted)
        | some (.table .implied inner) =>
            if path.isEmpty then none
            else (descendDotted path change inner).map (.table .implied)
        | some (.tables elements) =>
            if path.isEmpty then none
            else (updateLast (descendDotted path change) elements).map .tables
        | some _ => none) entries

/-- Adds the value of a dotted key. -/
def defineDotted (path : List String) (key : String) (value : Value)
    (entries : Entries) : Option Entries :=
  descendDotted path (define key value) entries

/-- Gives a table its header.  A table can have one header only. -/
def openTable (key : String) (entries : Entries) : Option Entries :=
  update key (fun
    | none => some (.table .header [])
    | some (.table .implied inner) => some (.table .header inner)
    | some _ => none) entries

/-- Adds an element to an array of tables. -/
def openElement (key : String) (entries : Entries) : Option Entries :=
  update key (fun
    | none => some (.tables [[]])
    | some (.tables elements) => some (.tables (elements ++ [[]]))
    | some _ => none) entries

end Entries

end DeferredTyping.Toml
