import Diachrony.Paradigm.Template
import Diachrony.Proofs.Notation.Rows

/-!
# The written form of templates

A title of a template is put together from one value of each category.  Where the values have
abbreviations that are words, such a title is one word; but without categories there is one
title that is empty, and nothing is left of it in a line.  So a template is read back from what
is printed of it if there are categories both for its rows and for its columns, and only then.
-/
namespace Diachrony

open Text (joinWith IsSolid)

/-- Every category has values, and each value has an abbreviation that is a word. -/
structure Language.IsAbbreviated (language : Language) : Prop where
  haveValues : ∀ category ∈ language.categories, category.entries ≠ []
  areSolid : ∀ category ∈ language.categories, ∀ entry ∈ category.entries,
    IsSolid entry.abbreviation

namespace Paradigm

/-- A combination has one item of each list. -/
theorem mem_combinations {choice : List Text} {lists : List (List Text)} :
    choice ∈ combinations lists ↔ List.Forall₂ (· ∈ ·) choice lists := by
  induction lists generalizing choice with
  | nil => rw [combinations, List.mem_singleton, List.forall₂_nil_right_iff]
  | cons items lists inductionHypothesis =>
      rw [combinations, List.forall₂_cons_right_iff]
      simp only [List.mem_flatMap, List.mem_map, inductionHypothesis]
      constructor
      · rintro ⟨item, isItem, rest, areItems, rfl⟩
        exact ⟨item, rest, isItem, areItems, rfl⟩
      · rintro ⟨item, rest, isItem, areItems, rfl⟩
        exact ⟨item, isItem, rest, areItems, rfl⟩

theorem combinations_ne_nil {lists : List (List Text)} (areSome : ∀ items ∈ lists, items ≠ []) :
    combinations lists ≠ [] := by
  have isChoice : List.Forall₂ (· ∈ ·) (lists.map fun items => items.headD []) lists := by
    rw [List.forall₂_map_left_iff, List.forall₂_same]
    intro items isList
    obtain ⟨item, rest, rfl⟩ := List.exists_cons_of_ne_nil (areSome items isList)
    exact List.mem_cons_self
  exact List.ne_nil_of_mem (mem_combinations.mpr isChoice)

/-- What all items of the lists have in common, those of a combination have. -/
theorem forall_mem_of_mem_combinations {Holds : Text → Prop} {choice : List Text}
    {lists : List (List Text)} (areSuch : ∀ items ∈ lists, ∀ item ∈ items, Holds item)
    (isChoice : choice ∈ combinations lists) : ∀ item ∈ choice, Holds item := by
  have areItems := mem_combinations.mp isChoice
  clear isChoice
  induction areItems with
  | nil => exact fun _ isItem => nomatch isItem
  | cons isItem _ inductionHypothesis =>
      obtain ⟨firstSuch, areSuch⟩ := List.forall_mem_cons.mp areSuch
      exact List.forall_mem_cons.mpr ⟨firstSuch _ isItem, inductionHypothesis areSuch⟩

section

variable {language : Language} {partOfSpeech : Option Text} {names items found : List Text}

theorem of_dimension {name : Text} (gave : dimension language partOfSpeech name = .ok items) :
    ∃ category ∈ language.categories,
      items = category.entries.map CategoryEntry.abbreviation := by
  unfold dimension at gave
  split at gave
  · cases gave
  · rename_i category isFound
    refine ⟨category, List.mem_of_find?_eq_some isFound, ?_⟩
    split at gave
    · split at gave
      · cases gave
        rfl
      · cases gave
    · cases gave
      rfl

theorem of_titles (gave : titles language partOfSpeech names = .ok found) :
    ∃ dimensions, names.mapM (dimension language partOfSpeech) = .ok dimensions ∧
      found = (combinations dimensions).map (joinWith ['.']) := by
  obtain ⟨dimensions, areGiven, same⟩ := Except.bind_eq_ok.mp gave
  cases same
  exact ⟨dimensions, areGiven, rfl⟩

/-- Without categories there is one empty title. -/
theorem eq_of_titles_nil (gave : titles language partOfSpeech [] = .ok found) : found = [[]] := by
  cases gave
  rfl

variable (isAbbreviated : language.IsAbbreviated)

include isAbbreviated

theorem solid_of_dimensions {dimensions : List (List Text)}
    (areGiven : names.mapM (dimension language partOfSpeech) = .ok dimensions) :
    ∀ items ∈ dimensions, items ≠ [] ∧ ∀ item ∈ items, IsSolid item := by
  intro items isDimension
  obtain ⟨name, -, gave⟩ := Except.exists_of_mem_of_mapM areGiven isDimension
  obtain ⟨category, isCategory, rfl⟩ := of_dimension gave
  rw [ne_eq, List.map_eq_nil_iff, List.forall_mem_map]
  exact ⟨isAbbreviated.haveValues category isCategory, isAbbreviated.areSolid category isCategory⟩

theorem titles_ne_nil (gave : titles language partOfSpeech names = .ok found) : found ≠ [] := by
  obtain ⟨dimensions, areGiven, rfl⟩ := of_titles gave
  have areSolid := solid_of_dimensions isAbbreviated areGiven
  rw [ne_eq, List.map_eq_nil_iff]
  exact combinations_ne_nil fun items isDimension => (areSolid items isDimension).1

/-- A title that is made of values of some categories is a word. -/
theorem solid_of_titles (gave : titles language partOfSpeech names = .ok found)
    (areSome : names ≠ []) : ∀ title ∈ found, IsSolid title := by
  obtain ⟨dimensions, areGiven, rfl⟩ := of_titles gave
  have areSolid := solid_of_dimensions isAbbreviated areGiven
  refine List.forall_mem_map.mpr fun choice isChoice => ?_
  have oneEach : choice.length = names.length := by
    rw [(mem_combinations.mp isChoice).length_eq, (Except.mapM_eq_ok_iff.mp areGiven).length_eq]
  refine Text.solid_joinWith (by decide) ?_ (forall_mem_of_mem_combinations
    (fun items isDimension => (areSolid items isDimension).2) isChoice)
  rw [← List.length_pos_iff, oneEach, List.length_pos_iff]
  exact areSome

end

section

variable {id : Int} {name : Text} {language : Language}
  {partsOfSpeech rowCategories columnCategories : List Text} {paradigm : Paradigm}

/-- The titles of a template are those of its categories, and all its cells are empty. -/
theorem of_template
    (made : template id name language partsOfSpeech rowCategories columnCategories =
      .ok paradigm) :
    ∃ partOfSpeech,
      titles language partOfSpeech rowCategories = .ok paradigm.grid.rowTitles ∧
      titles language partOfSpeech columnCategories = .ok paradigm.grid.columnTitles ∧
      paradigm.grid.IsFull ∧ ∀ row ∈ paradigm.grid.cells, ∀ cell ∈ row, cell = [] := by
  obtain ⟨rowTitles, areRows, made⟩ := Except.bind_eq_ok.mp made
  obtain ⟨columnTitles, areColumns, made⟩ := Except.bind_eq_ok.mp made
  cases made
  refine ⟨_, areRows, areColumns, ⟨List.length_map _, ?_⟩, ?_⟩
  · exact List.forall_mem_map.mpr fun _ _ => List.length_map _
  · exact List.forall_mem_map.mpr fun _ _ => List.forall_mem_map.mpr fun _ _ => rfl

/-- A template can be printed, and it is read back from what is printed of it if and only if
there are categories for its rows and for its columns. -/
theorem template_reads_back_iff (isAbbreviated : language.IsAbbreviated)
    (made : template id name language partsOfSpeech rowCategories columnCategories =
      .ok paradigm) (resolver : Resolver) (nameOf : Int → Option Text) :
    (∀ row ∈ paradigm.grid.cells, ∀ cell ∈ row, cell = []) ∧
      ∃ printed, paradigm.grid.print nameOf = some printed ∧
        (Grid.read resolver printed = .ok paradigm.grid ↔
          rowCategories ≠ [] ∧ columnCategories ≠ []) := by
  obtain ⟨partOfSpeech, areRows, areColumns, isFull, areEmpty⟩ := of_template made
  have areEntries : ∀ row ∈ paradigm.grid.cells, ∀ cell ∈ row,
      ∃ entry, Grid.IsEntryOf resolver nameOf entry cell := by
    intro row isRow cell isCell
    rw [areEmpty row isRow cell isCell]
    exact ⟨['-'], Grid.isEntryOf_dash resolver nameOf⟩
  refine ⟨areEmpty, _, Grid.print_eq isFull areEntries, ?_⟩
  constructor
  · intro isRead
    obtain ⟨-, columnsSolid, rowsSolid⟩ := Grid.areSolid_of_read isRead
    constructor
    · rintro rfl
      rw [eq_of_titles_nil areRows] at rowsSolid
      exact (rowsSolid [] List.mem_cons_self).1 rfl
    · rintro rfl
      rw [eq_of_titles_nil areColumns] at columnsSolid
      exact (columnsSolid [] List.mem_cons_self).1 rfl
  · rintro ⟨hasRows, hasColumns⟩
    exact Grid.read_printed isFull areEntries (titles_ne_nil isAbbreviated areColumns)
      (solid_of_titles isAbbreviated areColumns hasColumns)
      (solid_of_titles isAbbreviated areRows hasRows)

end

/-- A language with a category of two values, and one of three for nouns only. -/
def inflectedLanguage : Language where
  name := "A"
  shortName := "a"
  categories := [
    { name := "Case", entries := [⟨"nominative", "NOM"⟩, ⟨"genitive", "GEN"⟩] },
    { name := "Number", partsOfSpeech := ["N"]
      entries := [⟨"singular", "SG"⟩, ⟨"dual", "DU"⟩, ⟨"plural", "PL"⟩] }]

/-- Two categories make six rows that are read back; without categories one row is printed
without its title, and this row is not. -/
theorem template_reads_back_iff_inflectedLanguage :
    inflectedLanguage.IsAbbreviated ∧
      (∃ paradigm printed,
        template 1 "noun" inflectedLanguage ["N"] ["Case", "Number"] ["Number"] = .ok paradigm ∧
        paradigm.grid.rowTitles = ["NOM.SG", "NOM.DU", "NOM.PL", "GEN.SG", "GEN.DU", "GEN.PL"] ∧
        paradigm.grid.print (fun _ => none) = some printed ∧
        Grid.read (fun _ => none) printed = .ok paradigm.grid) ∧
      ∃ paradigm printed,
        template 1 "noun" inflectedLanguage ["N"] [] ["Number"] = .ok paradigm ∧
        paradigm.grid.print (fun _ => none) = some printed ∧
        Grid.read (fun _ => none) printed ≠ .ok paradigm.grid := by
  have isAbbreviated : inflectedLanguage.IsAbbreviated := ⟨by decide, by decide⟩
  refine ⟨isAbbreviated, ?_, ?_⟩
  · have made : template 1 "noun" inflectedLanguage ["N"] ["Case", "Number"] ["Number"] = .ok _ :=
      rfl
    obtain ⟨-, printed, isPrinted, readsBack⟩ :=
      template_reads_back_iff isAbbreviated made (fun _ => none) fun _ => none
    exact ⟨_, printed, rfl, rfl, isPrinted, readsBack.mpr (by decide)⟩
  · have made : template 1 "noun" inflectedLanguage ["N"] [] ["Number"] = .ok _ := rfl
    obtain ⟨-, printed, isPrinted, readsBack⟩ :=
      template_reads_back_iff isAbbreviated made (fun _ => none) fun _ => none
    exact ⟨_, printed, rfl, isPrinted, fun isRead => absurd (readsBack.mp isRead) (by decide)⟩

end Paradigm

end Diachrony
