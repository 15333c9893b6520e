/-!
Tables: finite maps that keep their keys in the order in which they came in.

Storing under a key that is there replaces the value in place; storing under a
new key puts it last. What a table means is what `get?` finds.
-/
namespace Diachrony

/-- Keys with their values, in order. -/
structure Table (κ : Type) (α : Type) where
  entries : List (κ × α) := []

namespace Table

variable {κ α : Type} [DecidableEq κ]

def empty : Table κ α := {}

def get? (table : Table κ α) (key : κ) : Option α := table.entries.lookup key

def contains (table : Table κ α) (key : κ) : Bool := (table.get? key).isSome

def keys (table : Table κ α) : List κ := table.entries.map Prod.fst

def values (table : Table κ α) : List α := table.entries.map Prod.snd

def insertEntry (key : κ) (value : α) : List (κ × α) → List (κ × α)
  | [] => [(key, value)]
  | entry :: entries =>
    if entry.1 = key then (key, value) :: entries
    else entry :: insertEntry key value entries

def insert (table : Table κ α) (key : κ) (value : α) : Table κ α :=
  ⟨insertEntry key value table.entries⟩

def erase (table : Table κ α) (key : κ) : Table κ α :=
  ⟨table.entries.filter fun entry => entry.1 ≠ key⟩

def filter (table : Table κ α) (keep : κ → α → Bool) : Table κ α :=
  ⟨table.entries.filter fun entry => keep entry.1 entry.2⟩

def mapValues (table : Table κ α) (change : α → α) : Table κ α :=
  ⟨table.entries.map fun entry => (entry.1, change entry.2)⟩

@[simp] theorem get?_empty (key : κ) : (empty : Table κ α).get? key = none := rfl

theorem lookup_insertEntry (key other : κ) (value : α) (entries : List (κ × α)) :
    (insertEntry key value entries).lookup other =
      if other = key then some value else entries.lookup other := by
  induction entries with
  | nil => grind [insertEntry]
  | cons entry entries inductionHypothesis => grind [insertEntry]

/-- A key that was stored under is found with the new value; nothing else
changes. -/
@[simp] theorem get?_insert (table : Table κ α) (key other : κ) (value : α) :
    (table.insert key value).get? other =
      if other = key then some value else table.get? other :=
  lookup_insertEntry key other value table.entries

/-- A new key comes last; a key that is there keeps its place. -/
theorem keys_insert (table : Table κ α) (key : κ) (value : α) :
    (table.insert key value).keys =
      if key ∈ table.keys then table.keys else table.keys ++ [key] := by
  obtain ⟨entries⟩ := table
  simp only [insert, keys]
  induction entries with
  | nil => rfl
  | cons entry entries inductionHypothesis => grind [insertEntry]

/-- A key that was taken out is not found; nothing else changes. -/
@[simp] theorem get?_erase (table : Table κ α) (key other : κ) :
    (table.erase key).get? other = if other = key then none else table.get? other := by
  obtain ⟨entries⟩ := table
  simp only [erase, get?]
  induction entries with
  | nil => simp
  | cons entry entries inductionHypothesis => grind

/-- Changing the values changes what is found. -/
@[simp] theorem get?_mapValues (table : Table κ α) (change : α → α) (key : κ) :
    (table.mapValues change).get? key = (table.get? key).map change := by
  obtain ⟨entries⟩ := table
  simp only [mapValues, get?]
  induction entries with
  | nil => rfl
  | cons entry entries inductionHypothesis => grind

/-- What is found is one of the values. -/
theorem mem_values_of_get? {table : Table κ α} {key : κ} {value : α}
    (isFound : table.get? key = some value) : value ∈ table.values := by
  obtain ⟨entries⟩ := table
  simp only [get?] at isFound
  simp only [values]
  induction entries with
  | nil => simp at isFound
  | cons entry entries inductionHypothesis =>
    obtain ⟨entryKey, entryValue⟩ := entry
    rw [List.lookup_cons] at isFound
    split at isFound
    · simp_all
    · simp [inductionHypothesis isFound]

end Table

end Diachrony
