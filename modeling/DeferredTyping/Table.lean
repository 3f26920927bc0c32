/-!
# Finite tables

A table is a list of entries in ascending order of their keys.  Looking a
key up and replacing its value are the only operations the rest of the
library relies on, so every later argument goes through `get?` and the two
equations `get?_insert_self` and `get?_insert_of_ne`.  The order of the
entries decides nothing but the order of reports.
-/

namespace DeferredTyping

/-- A finite map from keys to values. -/
structure Table (κ ν : Type) where
  entries : List (κ × ν) := []
deriving DecidableEq, Repr

namespace Table

variable {κ ν : Type}

instance : Inhabited (Table κ ν) := ⟨{}⟩

/-- The value of the first entry whose key is `key`. -/
def lookup [DecidableEq κ] (key : κ) : List (κ × ν) → Option ν
  | [] => none
  | (candidate, value) :: rest =>
      if candidate = key then some value else lookup key rest

/-- Puts an entry in its place: over the entry of the same key, or else in
front of the first larger key. -/
def place [DecidableEq κ] [LT κ] [DecidableLT κ] (key : κ) (value : ν) :
    List (κ × ν) → List (κ × ν)
  | [] => [(key, value)]
  | (candidate, old) :: rest =>
      if candidate = key then (key, value) :: rest
      else if key < candidate then (key, value) :: (candidate, old) :: rest
      else (candidate, old) :: place key value rest

section Operations

variable [DecidableEq κ]

/-- The value stored for a key. -/
def get? (table : Table κ ν) (key : κ) : Option ν :=
  lookup key table.entries

/-- Whether a key has a value. -/
def contains (table : Table κ ν) (key : κ) : Bool :=
  (table.get? key).isSome

/-- The keys in ascending order. -/
def keys (table : Table κ ν) : List κ :=
  table.entries.map Prod.fst

/-- The values in ascending order of their keys. -/
def values (table : Table κ ν) : List ν :=
  table.entries.map Prod.snd

/-- The number of entries. -/
def size (table : Table κ ν) : Nat :=
  table.entries.length

variable [LT κ] [DecidableLT κ]

/-- Stores a value, replacing an earlier one of the same key. -/
def insert (table : Table κ ν) (key : κ) (value : ν) : Table κ ν :=
  ⟨place key value table.entries⟩

/-- Stores a value unless the key already has one. -/
def insertIfNew (table : Table κ ν) (key : κ) (value : ν) : Table κ ν :=
  if table.contains key then table else table.insert key value

end Operations

section Lemmas

variable [DecidableEq κ]

@[simp] theorem get?_empty (key : κ) :
    ({} : Table κ ν).get? key = none := rfl

theorem mem_entries_of_get?_eq_some {table : Table κ ν} {key : κ} {value : ν}
    (known : table.get? key = some value) : (key, value) ∈ table.entries := by
  obtain ⟨entries⟩ := table
  simp only [get?] at known
  induction entries with
  | nil => cases known
  | cons entry rest ih =>
      obtain ⟨candidate, stored⟩ := entry
      by_cases same : candidate = key
      · subst same
        rw [lookup, if_pos rfl] at known
        cases known
        exact List.mem_cons_self
      · rw [lookup, if_neg same] at known
        exact List.mem_cons_of_mem _ (ih known)

theorem mem_keys_of_get?_eq_some {table : Table κ ν} {key : κ} {value : ν}
    (known : table.get? key = some value) : key ∈ table.keys :=
  List.mem_map.mpr ⟨_, mem_entries_of_get?_eq_some known, rfl⟩

theorem contains_eq_true_iff {table : Table κ ν} {key : κ} :
    table.contains key = true ↔ ∃ value, table.get? key = some value := by
  simp [contains, Option.isSome_iff_exists]

variable [LT κ] [DecidableLT κ]

theorem lookup_place_self (key : κ) (value : ν) (entries : List (κ × ν)) :
    lookup key (place key value entries) = some value := by
  induction entries with
  | nil => simp [place, lookup]
  | cons entry rest ih =>
      obtain ⟨candidate, old⟩ := entry
      by_cases same : candidate = key
      · simp [place, lookup, same]
      · by_cases smaller : key < candidate
        · simp [place, lookup, same, smaller]
        · simp [place, lookup, same, smaller, ih]

theorem lookup_place_of_ne {key other : κ} (different : other ≠ key)
    (value : ν) (entries : List (κ × ν)) :
    lookup other (place key value entries) = lookup other entries := by
  have swapped : ¬ key = other := fun equal => different equal.symm
  induction entries with
  | nil => simp [place, lookup, swapped]
  | cons entry rest ih =>
      obtain ⟨candidate, old⟩ := entry
      by_cases same : candidate = key
      · subst same
        simp [place, lookup, swapped]
      · by_cases smaller : key < candidate
        · simp [place, lookup, same, smaller, swapped]
        · simp [place, lookup, same, smaller, ih]

/-- A stored value is found again. -/
@[simp] theorem get?_insert_self (table : Table κ ν) (key : κ) (value : ν) :
    (table.insert key value).get? key = some value :=
  lookup_place_self key value table.entries

/-- Storing a value leaves the other keys alone. -/
theorem get?_insert_of_ne (table : Table κ ν) {key other : κ}
    (different : other ≠ key) (value : ν) :
    (table.insert key value).get? other = table.get? other :=
  lookup_place_of_ne different value table.entries

/-- A key without a value takes one; the others keep theirs. -/
theorem get?_insert_of_known {table : Table κ ν} {key other : κ}
    {value known : ν} (free : table.get? key = none)
    (present : table.get? other = some known) :
    (table.insert key value).get? other = some known := by
  have different : other ≠ key := by
    intro same
    rw [same, free] at present
    cases present
  rw [get?_insert_of_ne _ different, present]

/-- What is found after storing a value is that value, or it was there before. -/
theorem get?_insert_eq_some {table : Table κ ν} {key other : κ} {value found : ν}
    (stored : (table.insert key value).get? other = some found) :
    (other = key ∧ found = value) ∨ (other ≠ key ∧ table.get? other = some found) := by
  by_cases same : other = key
  · subst same
    rw [get?_insert_self] at stored
    exact .inl ⟨rfl, (Option.some.inj stored).symm⟩
  · rw [get?_insert_of_ne _ same] at stored
    exact .inr ⟨same, stored⟩

theorem insertIfNew_of_get?_eq_some {table : Table κ ν} {key : κ} {old : ν}
    (known : table.get? key = some old) (value : ν) :
    table.insertIfNew key value = table := by
  simp [insertIfNew, contains, known]

theorem insertIfNew_of_get?_eq_none {table : Table κ ν} {key : κ}
    (unknown : table.get? key = none) (value : ν) :
    table.insertIfNew key value = table.insert key value := by
  simp [insertIfNew, contains, unknown]

/-- A value that is known stays as it is. -/
theorem get?_insertIfNew_of_get?_eq_some {table : Table κ ν} {key other : κ}
    {old : ν} (known : table.get? other = some old) (value : ν) :
    (table.insertIfNew key value).get? other = some old := by
  by_cases same : other = key
  · subst same
    rw [insertIfNew_of_get?_eq_some known, known]
  · cases present : table.get? key with
    | some _ => rw [insertIfNew_of_get?_eq_some present, known]
    | none =>
        rw [insertIfNew_of_get?_eq_none present, get?_insert_of_ne _ same, known]

theorem get?_insertIfNew_of_ne (table : Table κ ν) {key other : κ}
    (different : other ≠ key) (value : ν) :
    (table.insertIfNew key value).get? other = table.get? other := by
  cases present : table.get? key with
  | some _ => rw [insertIfNew_of_get?_eq_some present]
  | none =>
      rw [insertIfNew_of_get?_eq_none present, get?_insert_of_ne _ different]

theorem get?_insertIfNew_self {table : Table κ ν} {key : κ}
    (unknown : table.get? key = none) (value : ν) :
    (table.insertIfNew key value).get? key = some value := by
  rw [insertIfNew_of_get?_eq_none unknown, get?_insert_self]

theorem contains_insertIfNew_self (table : Table κ ν) (key : κ) (value : ν) :
    (table.insertIfNew key value).contains key = true := by
  cases present : table.get? key with
  | some _ => simp [insertIfNew_of_get?_eq_some present, contains, present]
  | none => simp [contains, get?_insertIfNew_self present]

end Lemmas

end Table

end DeferredTyping
