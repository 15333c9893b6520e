import Diachrony.Table
import Mathlib.Data.List.Nodup

/-!
# Tables and their entries

What is found in a table is one of its entries.  A table that is kept stores each value
once, under the key that the value says it has; storing, taking out and changing values
keep it so, as long as the values fit.
-/
namespace Diachrony

namespace Table

variable {κ α : Type}

section

variable [DecidableEq κ]

theorem mem_entries_of_get? {table : Table κ α} {key : κ} {value : α}
    (isFound : table.get? key = some value) : (key, value) ∈ table.entries := by
  obtain ⟨entries⟩ := table
  induction entries with
  | nil => cases isFound
  | cons entry entries inductionHypothesis =>
      obtain ⟨entryKey, entryValue⟩ := entry
      simp only [get?, List.lookup_cons] at isFound
      by_cases isKey : key = entryKey
      · subst isKey
        simp only [beq_self_eq_true, Option.some.injEq] at isFound
        rw [isFound]
        exact List.mem_cons_self
      · rw [beq_eq_false_iff_ne.mpr isKey] at isFound
        exact List.mem_cons_of_mem _ (inductionHypothesis isFound)

/-- Where keys are not repeated, each entry is found under its key. -/
theorem get?_of_mem_entries {table : Table κ α} (nodup : table.keys.Nodup) {entry : κ × α}
    (isEntry : entry ∈ table.entries) : table.get? entry.1 = some entry.2 := by
  obtain ⟨entries⟩ := table
  change (entries.map Prod.fst).Nodup at nodup
  change entry ∈ entries at isEntry
  change entries.lookup entry.1 = some entry.2
  induction entries with
  | nil => cases isEntry
  | cons first entries inductionHypothesis =>
      obtain ⟨notLater, nodup⟩ := List.nodup_cons.mp nodup
      rw [List.lookup_cons]
      rcases List.mem_cons.mp isEntry with rfl | isLater
      · rw [beq_self_eq_true]
      · have notFirst : entry.1 ≠ first.1 := fun same =>
          notLater (same ▸ List.mem_map_of_mem isLater)
        rw [beq_eq_false_iff_ne.mpr notFirst]
        exact inductionHypothesis nodup isLater

theorem get?_eq_none_of_not_mem {table : Table κ α} {key : κ} (isNew : key ∉ table.keys) :
    table.get? key = none := by
  cases isFound : table.get? key with
  | none => rfl
  | some value => exact absurd (List.mem_map_of_mem (mem_entries_of_get? isFound)) isNew

theorem contains_of_get? {table : Table κ α} {key : κ} {value : α}
    (isFound : table.get? key = some value) : table.contains key = true := by
  unfold contains
  rw [isFound]
  rfl

theorem exists_of_contains {table : Table κ α} {key : κ} (isStored : table.contains key = true) :
    ∃ value, table.get? key = some value :=
  Option.isSome_iff_exists.mp isStored

theorem contains_insert (table : Table κ α) (key other : κ) (value : α) :
    (table.insert key value).contains other = (other = key || table.contains other) := by
  unfold contains
  rw [get?_insert]
  by_cases isKey : other = key <;> simp [isKey]

theorem contains_erase (table : Table κ α) (key other : κ) :
    (table.erase key).contains other = (other ≠ key && table.contains other) := by
  unfold contains
  rw [get?_erase]
  by_cases isKey : other = key <;> simp [isKey]

theorem contains_mapValues (table : Table κ α) (change : α → α) (key : κ) :
    (table.mapValues change).contains key = table.contains key := by
  unfold contains
  rw [get?_mapValues, Option.isSome_map]

theorem contains_iff_mem {table : Table κ α} {key : κ} :
    table.contains key = true ↔ key ∈ table.keys := by
  constructor
  · intro isStored
    obtain ⟨value, isFound⟩ := exists_of_contains isStored
    exact List.mem_map_of_mem (mem_entries_of_get? isFound)
  · intro isMember
    obtain ⟨entry, isEntry, rfl⟩ := List.mem_map.mp isMember
    cases isFound : table.get? entry.1 with
    | some value => exact contains_of_get? isFound
    | none =>
        change table.entries.lookup entry.1 = none at isFound
        rw [List.lookup_eq_none_iff] at isFound
        simpa using isFound entry isEntry

theorem contains_of_contains_filter {table : Table κ α} {keep : κ → α → Bool} {key : κ}
    (isStored : (table.filter keep).contains key = true) : table.contains key = true :=
  contains_iff_mem.mpr ((List.filter_sublist.map Prod.fst).subset (contains_iff_mem.mp isStored))

theorem contains_of_contains_erase {table : Table κ α} {key other : κ}
    (isStored : (table.erase key).contains other = true) : table.contains other = true := by
  rw [contains_erase, Bool.and_eq_true] at isStored
  exact isStored.2

theorem mem_entries_insert {table : Table κ α} {key : κ} {value : α} {entry : κ × α}
    (isMember : entry ∈ (table.insert key value).entries) :
    entry = (key, value) ∨ entry ∈ table.entries := by
  obtain ⟨entries⟩ := table
  change entry ∈ insertEntry key value entries at isMember
  induction entries with
  | nil => exact .inl (List.mem_singleton.mp isMember)
  | cons first entries inductionHypothesis =>
      rw [insertEntry] at isMember
      split at isMember
      · rcases List.mem_cons.mp isMember with isFirst | isMember
        · exact .inl isFirst
        · exact .inr (List.mem_cons_of_mem _ isMember)
      · rcases List.mem_cons.mp isMember with rfl | isMember
        · exact .inr List.mem_cons_self
        · exact (inductionHypothesis isMember).imp_right (List.mem_cons_of_mem _)

theorem mem_values_insert {table : Table κ α} {key : κ} {value other : α}
    (isMember : other ∈ (table.insert key value).values) : other = value ∨ other ∈ table.values := by
  obtain ⟨entry, isEntry, rfl⟩ := List.mem_map.mp isMember
  rcases mem_entries_insert isEntry with rfl | isEntry
  · exact .inl rfl
  · exact .inr (List.mem_map_of_mem isEntry)

/-- What is stored under a new key comes last. -/
theorem insert_of_not_mem {entries : List (κ × α)} {key : κ} (isNew : key ∉ entries.map Prod.fst)
    (value : α) : (⟨entries⟩ : Table κ α).insert key value = ⟨entries ++ [(key, value)]⟩ := by
  unfold insert
  congr 1
  induction entries with
  | nil => rfl
  | cons first entries inductionHypothesis =>
      obtain ⟨notFirst, isNew⟩ := not_or.mp (List.mem_cons.not.mp isNew)
      rw [insertEntry, if_neg (Ne.symm notFirst), inductionHypothesis isNew]
      rfl

/-- What is stored under a new key can be taken out again without a trace. -/
theorem erase_insert {table : Table κ α} {key : κ} (isNew : table.contains key = false) (value : α) :
    (table.insert key value).erase key = table := by
  obtain ⟨entries⟩ := table
  have notMember : key ∉ entries.map Prod.fst := by
    intro isMember
    rw [contains_iff_mem.mpr isMember] at isNew
    cases isNew
  rw [insert_of_not_mem notMember]
  unfold erase
  congr 1
  rw [List.filter_append, List.filter_singleton, List.filter_eq_self.mpr]
  · simp
  · intro entry isEntry
    refine decide_eq_true ?_
    rintro rfl
    exact notMember (List.mem_map_of_mem isEntry)

end

/-- Each value is stored once, under the key that it says it has, and fits. -/
structure IsKept (keyOf : α → κ) (Fits : α → Prop) (table : Table κ α) : Prop where
  nodup : table.keys.Nodup
  keyed : ∀ entry ∈ table.entries, entry.1 = keyOf entry.2
  fits : ∀ value ∈ table.values, Fits value

namespace IsKept

variable {keyOf : α → κ} {Fits : α → Prop} {table : Table κ α} {key : κ} {value : α}

theorem empty : IsKept keyOf Fits {} :=
  ⟨List.nodup_nil, (fun _ isMember => nomatch isMember), (fun _ isMember => nomatch isMember)⟩

theorem mono {Others : α → Prop} (kept : IsKept keyOf Fits table)
    (more : ∀ value, Fits value → Others value) : IsKept keyOf Others table :=
  ⟨kept.nodup, kept.keyed, fun value isMember => more value (kept.fits value isMember)⟩

theorem entries_eq (kept : IsKept keyOf Fits table) :
    table.entries = table.values.map fun value => (keyOf value, value) := by
  unfold values
  rw [List.map_map]
  refine (List.map_id _).symm.trans (List.map_congr_left fun entry isMember => ?_)
  exact Prod.ext (kept.keyed entry isMember) rfl

theorem keys_eq (kept : IsKept keyOf Fits table) : table.keys = table.values.map keyOf := by
  unfold keys
  rw [kept.entries_eq, List.map_map]
  rfl

theorem filter (kept : IsKept keyOf Fits table) (keep : κ → α → Bool) :
    IsKept keyOf (fun value => Fits value ∧ keep (keyOf value) value = true)
      (table.filter keep) where
  nodup := (List.filter_sublist.map Prod.fst).nodup kept.nodup
  keyed := fun entry isMember => kept.keyed entry (List.mem_of_mem_filter isMember)
  fits := by
    intro value isMember
    obtain ⟨entry, isEntry, rfl⟩ := List.mem_map.mp isMember
    obtain ⟨isEntry, isKept⟩ := List.mem_filter.mp isEntry
    exact ⟨kept.fits _ (List.mem_map_of_mem isEntry), kept.keyed entry isEntry ▸ isKept⟩

theorem mapValues {Others : α → Prop} (kept : IsKept keyOf Fits table) (change : α → α)
    (sameKey : ∀ value, keyOf (change value) = keyOf value)
    (more : ∀ value, Fits value → Others (change value)) :
    IsKept keyOf Others (table.mapValues change) where
  nodup := by
    have sameKeys : (table.mapValues change).keys = table.keys := by
      unfold keys Table.mapValues
      rw [List.map_map]
      rfl
    rw [sameKeys]
    exact kept.nodup
  keyed := by
    intro entry isMember
    obtain ⟨first, isFirst, rfl⟩ := List.mem_map.mp isMember
    exact (kept.keyed first isFirst).trans (sameKey first.2).symm
  fits := by
    intro value isMember
    obtain ⟨entry, isEntry, rfl⟩ := List.mem_map.mp isMember
    obtain ⟨first, isFirst, rfl⟩ := List.mem_map.mp isEntry
    exact more _ (kept.fits _ (List.mem_map_of_mem isFirst))

variable [DecidableEq κ]

theorem key_eq (kept : IsKept keyOf Fits table) (isFound : table.get? key = some value) :
    key = keyOf value :=
  kept.keyed _ (mem_entries_of_get? isFound)

theorem fits_of_get? (kept : IsKept keyOf Fits table) (isFound : table.get? key = some value) :
    Fits value :=
  kept.fits value (mem_values_of_get? isFound)

theorem get?_of_mem (kept : IsKept keyOf Fits table) (isMember : value ∈ table.values) :
    table.get? (keyOf value) = some value := by
  obtain ⟨entry, isEntry, rfl⟩ := List.mem_map.mp isMember
  rw [← kept.keyed entry isEntry]
  exact get?_of_mem_entries kept.nodup isEntry

theorem contains_of_mem (kept : IsKept keyOf Fits table) (isMember : value ∈ table.values) :
    table.contains (keyOf value) = true :=
  contains_of_get? (kept.get?_of_mem isMember)

theorem insert (kept : IsKept keyOf Fits table) (isKey : key = keyOf value) (fits : Fits value) :
    IsKept keyOf Fits (table.insert key value) where
  nodup := by
    rw [keys_insert]
    split
    · exact kept.nodup
    · rename_i isNew
      exact List.nodup_append.mpr ⟨kept.nodup, List.nodup_singleton key, by
        rintro other isOther _ isKey rfl
        exact isNew (List.mem_singleton.mp isKey ▸ isOther)⟩
  keyed := by
    intro entry isMember
    rcases mem_entries_insert isMember with rfl | isMember
    · exact isKey
    · exact kept.keyed entry isMember
  fits := by
    intro other isMember
    obtain ⟨entry, isEntry, rfl⟩ := List.mem_map.mp isMember
    rcases mem_entries_insert isEntry with rfl | isEntry
    · exact fits
    · exact kept.fits _ (List.mem_map_of_mem isEntry)

theorem erase (kept : IsKept keyOf Fits table) (key : κ) :
    IsKept keyOf (fun value => Fits value ∧ keyOf value ≠ key) (table.erase key) :=
  (kept.filter fun other _ => other ≠ key).mono fun _ ⟨fits, isKept⟩ =>
    ⟨fits, of_decide_eq_true isKept⟩

end IsKept

def ofValues (keyOf : α → κ) (values : List α) : Table κ α :=
  ⟨values.map fun value => (keyOf value, value)⟩

section

variable {keyOf : α → κ} {values : List α}

theorem IsKept.eq_ofValues {Fits : α → Prop} {table : Table κ α} (kept : IsKept keyOf Fits table) :
    table = ofValues keyOf table.values :=
  congrArg Table.mk kept.entries_eq

theorem values_mapValues (table : Table κ α) (change : α → α) :
    (table.mapValues change).values = table.values.map change := by
  unfold values mapValues
  rw [List.map_map, List.map_map]
  rfl

/-- A value is stored under another key than the values in front of it. -/
theorem IsKept.not_mem_of_values {Fits : α → Prop} {table : Table κ α}
    (kept : IsKept keyOf Fits table) {before after : List α} {value : α}
    (isSplit : table.values = before ++ value :: after) : keyOf value ∉ before.map keyOf := by
  have nodup := kept.nodup
  rw [kept.keys_eq, isSplit, List.map_append, List.map_cons] at nodup
  intro isMember
  exact (List.nodup_append.mp nodup).2.2 _ isMember _ List.mem_cons_self rfl

@[simp] theorem keys_ofValues : (ofValues keyOf values).keys = values.map keyOf := by
  unfold keys ofValues
  rw [List.map_map]
  rfl

theorem insert_ofValues [DecidableEq κ] {value : α} (isNew : keyOf value ∉ values.map keyOf) :
    (ofValues keyOf values).insert (keyOf value) value = ofValues keyOf (values ++ [value]) := by
  unfold ofValues
  rw [insert_of_not_mem (by rwa [List.map_map]), List.map_append]
  rfl

theorem get?_ofValues_of_not_mem [DecidableEq κ] {key : κ} (isNew : key ∉ values.map keyOf) :
    (ofValues keyOf values).get? key = none :=
  get?_eq_none_of_not_mem (keys_ofValues ▸ isNew)

theorem contains_ofValues_of_not_mem [DecidableEq κ] {key : κ} (isNew : key ∉ values.map keyOf) :
    (ofValues keyOf values).contains key = false := by
  unfold contains
  rw [get?_ofValues_of_not_mem isNew]
  rfl

end

end Table

end Diachrony
