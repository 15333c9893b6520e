import Diachrony.Paradigm
import Diachrony.Proofs.Notation.Relinking

/-!
# Grids, a row a line

A written grid is a table of words: the column titles, and below them rows of a title with
entries.  How the words are set apart leaves nothing behind, and where entries are missing
the cells are empty.  So a grid that was read is full, with a cell under each column in each
row, and a full grid is read back from what is printed of it, if each of its cells is read
back from an entry that is a word.
-/
namespace Diachrony.Grid

open Text (words splitAt joinWith IsSolid)

variable {resolver : Resolver} {grid : Grid}

/-- A grid is full if it has one row for each row title and each row has one cell for each
column title. -/
structure IsFull (grid : Grid) : Prop where
  rows : grid.cells.length = grid.rowTitles.length
  columns : ∀ row ∈ grid.cells, row.length = grid.columnTitles.length

/-- The words of the lines that hold any, line by line. -/
def wordRows (text : Text) : List (List Text) :=
  ((Text.lines text).map words).filter fun row => !row.isEmpty

theorem wordRows_eq (text : Text) :
    wordRows text = (wordLines text).map fun (_, word, rest) => word :: rest := by
  unfold wordRows wordLines
  rw [← Text.numberedLines_snd]
  induction Text.numberedLines text with
  | nil => rfl
  | cons line lines inductionHypothesis =>
      obtain ⟨number, line⟩ := line
      rw [List.map_cons, List.map_cons, List.filter_cons, List.filterMap_cons]
      dsimp only
      cases words line with
      | nil => exact inductionHypothesis
      | cons word rest => exact congrArg (List.cons (word :: rest)) inductionHypothesis

theorem solid_of_mem_wordRows {text : Text} {row : List Text} (isRow : row ∈ wordRows text) :
    row ≠ [] ∧ ∀ word ∈ row, IsSolid word := by
  obtain ⟨isRow, isSome⟩ := List.mem_filter.mp isRow
  obtain ⟨line, -, rfl⟩ := List.mem_map.mp isRow
  exact ⟨by simpa using isSome, fun word isMember => Text.solid_of_mem_words isMember⟩

/-- An entry is a dash for no rules, or lists the names of some. -/
theorem readCell_eq_ok {entry : Text} {ids : List Int} :
    readCell resolver entry = .ok ids ↔
      if entry = ['-'] then ids = [] else resolver.Finds (splitAt ',' entry) ids := by
  unfold readCell
  split
  · rw [Except.ok.injEq, eq_comm]
  · rw [Except.mapM_eq_ok_iff]
    exact ⟨fun areFound => areFound.imp fun _ _ => Resolver.id_eq_ok.mp,
      fun finds => finds.imp fun _ _ => Resolver.id_eq_ok.mpr⟩

/-- A row has no more entries than there are columns, and no rules in the cells that have no
entry. -/
theorem readRow_eq_ok {columns : Nat} {title : Text} {entries : List Text}
    {row : List (List Int)} :
    readRow resolver columns title entries = .ok row ↔
      entries.length ≤ columns ∧ ∃ cells, entries.mapM (readCell resolver) = .ok cells ∧
        row = cells ++ List.replicate (columns - entries.length) [] := by
  unfold readRow
  by_cases isLong : columns < entries.length
  · rw [if_pos isLong]
    exact iff_of_false (fun gave => nomatch gave) fun ⟨fits, _⟩ => Nat.not_lt.mpr fits isLong
  · rw [if_neg isLong, and_iff_right (Nat.not_lt.mp isLong)]
    constructor
    · intro gave
      obtain ⟨cells, areRead, same⟩ := Except.bind_eq_ok.mp gave
      have sameLength := (Except.mapM_eq_ok_iff.mp areRead).length_eq
      cases same
      exact ⟨cells, areRead, by rw [sameLength]⟩
    · rintro ⟨cells, areRead, rfl⟩
      have sameLength := (Except.mapM_eq_ok_iff.mp areRead).length_eq
      rw [sameLength]
      exact Except.bind_eq_ok.mpr ⟨cells, areRead, rfl⟩

/-- A grid is read of the rows of words in a text, the first of which are the column titles. -/
theorem read_eq_ok {text : Text} :
    read resolver text = .ok grid ↔
      ∃ rows : List (Text × List Text),
        wordRows text = grid.columnTitles :: rows.map (fun (title, entries) => title :: entries) ∧
        rows.map Prod.fst = grid.rowTitles ∧
        List.Forall₂ (fun row cells =>
          readRow resolver grid.columnTitles.length row.1 row.2 = .ok cells) rows grid.cells := by
  unfold read
  rw [wordRows_eq]
  cases wordLines text with
  | nil => exact iff_of_false (fun gave => nomatch gave) fun ⟨_, isNone, _⟩ => nomatch isNone
  | cons line lines =>
      obtain ⟨number, column, columns⟩ := line
      constructor
      · intro gave
        obtain ⟨cells, areRead, same⟩ := Except.bind_eq_ok.mp gave
        cases same
        refine ⟨lines.map Prod.snd, ?_, ?_, ?_⟩
        · rw [List.map_cons, List.map_map]
          rfl
        · rw [List.map_map]
          rfl
        · rw [List.forall₂_map_left_iff]
          exact (Except.mapM_eq_ok_iff.mp areRead).imp fun _ _ => Except.mapError_eq_ok.mp
      · rintro ⟨rows, areRows, areTitles, areRead⟩
        obtain ⟨sameColumns, areRows⟩ := List.cons.inj areRows
        change column :: columns = grid.columnTitles at sameColumns
        have isInjective : Function.Injective fun row : Text × List Text => row.1 :: row.2 := by
          rintro ⟨title, entries⟩ ⟨other, others⟩ same
          obtain ⟨rfl, rfl⟩ := List.cons.inj same
          rfl
        have sameRows : lines.map Prod.snd = rows := by
          refine List.map_injective_iff.mpr isInjective ?_
          rw [List.map_map]
          exact areRows
        subst sameRows
        rw [List.forall₂_map_left_iff] at areRead
        refine Except.bind_eq_ok.mpr ⟨grid.cells, ?_, ?_⟩
        · rw [Except.mapM_eq_ok_iff, sameColumns]
          exact areRead.imp fun _ _ => Except.mapError_eq_ok.mpr
        · rw [List.map_map] at areTitles
          rw [sameColumns]
          exact congrArg (fun titles => Except.ok { grid with rowTitles := titles }) areTitles

theorem isFull_of_read {text : Text} (isRead : read resolver text = .ok grid) : grid.IsFull := by
  obtain ⟨rows, -, areTitles, areRead⟩ := read_eq_ok.mp isRead
  constructor
  · rw [← areTitles, List.length_map, areRead.length_eq]
  · intro row isRow
    have areRead := Except.mapM_eq_ok_iff.mpr areRead
    obtain ⟨⟨title, entries⟩, -, isRead⟩ := Except.exists_of_mem_of_mapM areRead isRow
    obtain ⟨fits, cells, areCells, rfl⟩ := readRow_eq_ok.mp isRead
    have sameLength := (Except.mapM_eq_ok_iff.mp areCells).length_eq
    rw [List.length_append, List.length_replicate, ← sameLength]
    omega

/-- The titles of a grid that was read are words, and it has columns. -/
theorem areSolid_of_read {text : Text} (isRead : read resolver text = .ok grid) :
    grid.columnTitles ≠ [] ∧ (∀ title ∈ grid.columnTitles, IsSolid title) ∧
      ∀ title ∈ grid.rowTitles, IsSolid title := by
  obtain ⟨rows, areRows, areTitles, -⟩ := read_eq_ok.mp isRead
  have columnsRow : grid.columnTitles ∈ wordRows text := by
    rw [areRows]
    exact List.mem_cons_self
  obtain ⟨areSome, areColumns⟩ := solid_of_mem_wordRows columnsRow
  refine ⟨areSome, areColumns, fun title isTitle => ?_⟩
  rw [← areTitles] at isTitle
  obtain ⟨row, isRow, rfl⟩ := List.mem_map.mp isTitle
  have titleRow : row.1 :: row.2 ∈ wordRows text := by
    rw [areRows]
    exact List.mem_cons_of_mem _ (List.mem_map_of_mem isRow)
  exact (solid_of_mem_wordRows titleRow).2 row.1 List.mem_cons_self

/-- What is printed of a cell is a word, and is read as this cell. -/
structure IsEntryOf (resolver : Resolver) (nameOf : Int → Option Text) (entry : Text)
    (cell : List Int) : Prop where
  printed : printCell nameOf cell = some entry
  isRead : readCell resolver entry = .ok cell
  isSolid : IsSolid entry

/-- An empty cell is printed as a dash. -/
theorem isEntryOf_dash (resolver : Resolver) (nameOf : Int → Option Text) :
    IsEntryOf resolver nameOf ['-'] [] where
  printed := rfl
  isRead := rfl
  isSolid := by decide

/-- The entry that a cell was read of is what is printed of it. -/
theorem isEntryOf_of_readCell {names : RuleNames} (areApart : names.AreApart) {entry : Text}
    (isSolid : IsSolid entry) {cell : List Int}
    (isRead : readCell names.resolver entry = .ok cell) :
    IsEntryOf names.resolver names.nameOf? entry cell := by
  refine ⟨?_, isRead, isSolid⟩
  have isCell := readCell_eq_ok.mp isRead
  split at isCell
  · rename_i isDash
    rw [isCell, isDash]
    rfl
  · have areNamed := RuleNames.mapM_nameOf? areApart isCell
    cases cell with
    | nil =>
        have isNone := isCell.length_eq
        exact absurd (List.eq_nil_of_length_eq_zero isNone) (Text.pieces_ne_nil _ _)
    | cons id ids =>
        rw [printCell, areNamed]
        · exact congrArg some (Text.joinWith_splitAt ',' entry)
        · exact List.cons_ne_nil id ids

/-- Each cell of a grid that was read has an entry. -/
theorem exists_isEntryOf {names : RuleNames} (areApart : names.AreApart) {text : Text}
    (isRead : read names.resolver text = .ok grid) {row : List (List Int)}
    (isRow : row ∈ grid.cells) {cell : List Int} (isCell : cell ∈ row) :
    ∃ entry, IsEntryOf names.resolver names.nameOf? entry cell := by
  obtain ⟨rows, areRows, -, areRead⟩ := read_eq_ok.mp isRead
  obtain ⟨⟨title, entries⟩, isTitled, isRead⟩ :=
    Except.exists_of_mem_of_mapM (Except.mapM_eq_ok_iff.mpr areRead) isRow
  obtain ⟨-, cells, areCells, rfl⟩ := readRow_eq_ok.mp isRead
  rcases List.mem_append.mp isCell with isCell | isFilled
  · obtain ⟨entry, isEntry, isRead⟩ := Except.exists_of_mem_of_mapM areCells isCell
    have entryRow : title :: entries ∈ wordRows text := by
      rw [areRows]
      exact List.mem_cons_of_mem _ (List.mem_map_of_mem isTitled)
    have isSolid := (solid_of_mem_wordRows entryRow).2 entry (List.mem_cons_of_mem _ isEntry)
    exact ⟨entry, isEntryOf_of_readCell areApart isSolid isRead⟩
  · rw [List.eq_of_mem_replicate isFilled]
    exact ⟨['-'], isEntryOf_dash _ _⟩

def entryOf (nameOf : Int → Option Text) (cell : List Int) : Text :=
  (printCell nameOf cell).getD []

def rowLine (nameOf : Int → Option Text) (row : Text × List (List Int)) : Text :=
  joinWith [' '] (row.1 :: row.2.map (entryOf nameOf))

/-- The cells of a full grid are those of its rows. -/
theorem IsFull.zip_eq (isFull : grid.IsFull) :
    grid.rowTitles.zip grid.cells = grid.rowTitles.zipIdx.map fun (title, row) =>
      (title, (List.range grid.columnTitles.length).map (grid.cell row)) := by
  refine List.ext_getElem (by simp [isFull.rows]) fun row isRow _ => ?_
  have isThere : row < grid.cells.length := by
    simp only [List.length_zip, isFull.rows, Nat.min_self] at isRow
    rw [isFull.rows]
    exact isRow
  rw [List.getElem_zip, List.getElem_map, List.getElem_zipIdx, Nat.zero_add]
  dsimp only
  refine congrArg (Prod.mk _) (List.ext_getElem ?_ fun column isColumn _ => ?_)
  · rw [isFull.columns _ (List.getElem_mem isThere), List.length_map, List.length_range]
  · rw [List.getElem_map, List.getElem_range, cell, List.getElem?_eq_getElem isThere]
    change _ = (grid.cells[row][column]?).getD []
    rw [List.getElem?_eq_getElem isColumn]
    rfl

theorem entryOf_spec {nameOf : Int → Option Text} {cell : List Int}
    (isPrinted : ∃ entry, IsEntryOf resolver nameOf entry cell) :
    IsEntryOf resolver nameOf (entryOf nameOf cell) cell := by
  obtain ⟨entry, isEntry⟩ := isPrinted
  rwa [entryOf, isEntry.printed]

/-- Rows of words are the rows of words in what they make. -/
theorem wordRows_joinWith {rows : List (List Text)}
    (areRows : ∀ row ∈ rows, row ≠ [] ∧ ∀ word ∈ row, IsSolid word) :
    wordRows (joinWith ['\n'] (rows.map (joinWith [' ']))) = rows := by
  have sameWords : ∀ row ∈ rows, words (joinWith [' '] row) = row := fun row isRow =>
    Text.words_joinWith (areRows row isRow).2
  have sameLines : Text.lines (joinWith ['\n'] (rows.map (joinWith [' ']))) =
      rows.map (joinWith [' ']) := by
    refine Text.lines_joinWith (fun line isLine char isMember => ?_) fun isLast => ?_
    · obtain ⟨row, isRow, rfl⟩ := List.mem_map.mp isLine
      rcases Text.mem_joinWith isMember with isSpace | ⟨word, isWord, isMember⟩
      · rw [List.mem_singleton.mp isSpace]
        decide
      · exact Text.isLineBreak_of_solid (((areRows row isRow).2 word isWord).2 char isMember)
    · obtain ⟨row, isRow, isNone⟩ := List.mem_map.mp (List.mem_of_getLast? isLast)
      have noWords := sameWords row isRow
      rw [isNone] at noWords
      exact (areRows row isRow).1 noWords.symm
  have sameRows : (rows.map (joinWith [' '])).map words = rows := by
    rw [List.map_map]
    exact (List.map_congr_left sameWords).trans (List.map_id' rows)
  unfold wordRows
  rw [sameLines, sameRows, List.filter_eq_self]
  intro row isRow
  simpa using (areRows row isRow).1

section

variable {nameOf : Int → Option Text} (isFull : grid.IsFull)
  (areEntries : ∀ row ∈ grid.cells, ∀ cell ∈ row, ∃ entry, IsEntryOf resolver nameOf entry cell)

include isFull areEntries

/-- A full grid is printed row by row, if each cell has an entry. -/
theorem print_eq :
    grid.print nameOf = some (joinWith ['\n'] (joinWith [' '] grid.columnTitles ::
      (grid.rowTitles.zip grid.cells).map (rowLine nameOf))) := by
  have arePrinted : grid.rowTitles.zipIdx.mapM (fun (title, row) =>
      printRow nameOf grid row title) =
        some ((grid.rowTitles.zip grid.cells).map (rowLine nameOf)) := by
    refine mapM_eq_pure ?_
    rw [isFull.zip_eq, List.map_map, List.forall₂_map_right_iff, List.forall₂_same]
    rintro ⟨title, row⟩ isRow
    have isThere : (List.range grid.columnTitles.length).map (grid.cell row) ∈ grid.cells := by
      have isTitled := List.mem_map_of_mem isRow (f := fun (title, row) =>
        (title, (List.range grid.columnTitles.length).map (grid.cell row)))
      rw [← isFull.zip_eq] at isTitled
      exact (List.of_mem_zip isTitled).2
    have areCells : (List.range grid.columnTitles.length).mapM (fun column =>
        printCell nameOf (grid.cell row column)) =
          some (((List.range grid.columnTitles.length).map (grid.cell row)).map
            (entryOf nameOf)) := by
      refine mapM_eq_pure ?_
      rw [List.map_map, List.forall₂_map_right_iff, List.forall₂_same]
      intro column isColumn
      exact (entryOf_spec (areEntries _ isThere _ (List.mem_map_of_mem isColumn))).printed
    dsimp only
    rw [printRow, areCells]
    rfl
  rw [print, arePrinted]
  rfl

/-- What is printed of a full grid with entries is read as this grid, if there are columns and
all titles are words. -/
theorem read_printed (hasColumns : grid.columnTitles ≠ [])
    (areColumns : ∀ title ∈ grid.columnTitles, IsSolid title)
    (areRows : ∀ title ∈ grid.rowTitles, IsSolid title) :
    read resolver (joinWith ['\n'] (joinWith [' '] grid.columnTitles ::
      (grid.rowTitles.zip grid.cells).map (rowLine nameOf))) = .ok grid := by
  have areSolid : ∀ row ∈ grid.columnTitles :: (grid.rowTitles.zip grid.cells).map
      (fun row => row.1 :: row.2.map (entryOf nameOf)),
      row ≠ [] ∧ ∀ word ∈ row, IsSolid word := by
    refine List.forall_mem_cons.mpr ⟨⟨hasColumns, areColumns⟩, List.forall_mem_map.mpr ?_⟩
    rintro ⟨title, cells⟩ isRow
    obtain ⟨isTitle, isThere⟩ := List.of_mem_zip isRow
    refine ⟨List.cons_ne_nil _ _, List.forall_mem_cons.mpr
      ⟨areRows title isTitle, List.forall_mem_map.mpr fun cell isCell => ?_⟩⟩
    exact (entryOf_spec (areEntries cells isThere cell isCell)).isSolid
  have sameRows : wordRows (joinWith ['\n'] (joinWith [' '] grid.columnTitles ::
      (grid.rowTitles.zip grid.cells).map (rowLine nameOf))) =
        grid.columnTitles :: (grid.rowTitles.zip grid.cells).map fun row =>
          row.1 :: row.2.map (entryOf nameOf) := by
    have joined := wordRows_joinWith areSolid
    rwa [List.map_cons, List.map_map] at joined
  rw [read_eq_ok, sameRows]
  refine ⟨(grid.rowTitles.zip grid.cells).map fun row => (row.1, row.2.map (entryOf nameOf)),
    ?_, ?_, ?_⟩
  · rw [List.map_map]
    rfl
  · rw [List.map_map]
    exact List.map_fst_zip isFull.rows.ge
  · have areRead : List.Forall₂ (fun row cells =>
        readRow resolver grid.columnTitles.length row.1 row.2 = .ok cells)
        ((grid.rowTitles.zip grid.cells).map fun row => (row.1, row.2.map (entryOf nameOf)))
        ((grid.rowTitles.zip grid.cells).map Prod.snd) := by
      rw [List.forall₂_map_left_iff, List.forall₂_map_right_iff, List.forall₂_same]
      rintro ⟨title, cells⟩ isRow
      have isThere := (List.of_mem_zip isRow).2
      have isWide := isFull.columns cells isThere
      refine readRow_eq_ok.mpr ⟨?_, cells, ?_, ?_⟩
      · rw [List.length_map, isWide]
      · rw [Except.mapM_eq_ok_iff, List.forall₂_map_left_iff, List.forall₂_same]
        exact fun cell isCell => (entryOf_spec (areEntries cells isThere cell isCell)).isRead
      · rw [List.length_map, isWide, Nat.sub_self, List.replicate_zero, List.append_nil]
    rwa [List.map_snd_zip isFull.rows.le] at areRead

end

/-- Where no two names share an id, a grid that was read is full and can be printed, and what
is printed is read as this grid again. -/
theorem read_printed_grid {names : RuleNames} (areApart : names.AreApart) {text : Text}
    (isRead : read names.resolver text = .ok grid) :
    grid.IsFull ∧ ∃ printed, grid.print names.nameOf? = some printed ∧
      read names.resolver printed = .ok grid := by
  have isFull := isFull_of_read isRead
  have areEntries : ∀ row ∈ grid.cells, ∀ cell ∈ row,
      ∃ entry, IsEntryOf names.resolver names.nameOf? entry cell :=
    fun row isRow cell isCell => exists_isEntryOf areApart isRead isRow isCell
  obtain ⟨hasColumns, areColumns, areRows⟩ := areSolid_of_read isRead
  exact ⟨isFull, _, print_eq isFull areEntries,
    read_printed isFull areEntries hasColumns areColumns areRows⟩

/-- A rule whose name is a dash, one without a name, and one more. -/
def dashedNames : RuleNames := [("-", 1), ([], 2), ("plural", 3)]

/-- A row without entries, and one of a dash, a list of names and a single name. -/
def dashedText : Text := "  SG DU\tPL\n\nNOM\n GEN  -  -,,plural plural\n"

/-- The grid in which the dash that stands alone is an empty cell. -/
def dashedGrid : Grid where
  rowTitles := ["NOM", "GEN"]
  columnTitles := ["SG", "DU", "PL"]
  cells := [[[], [], []], [[], [1, 2, 3], [3]]]

theorem read_printed_grid_dashed :
    dashedNames.AreApart ∧ read dashedNames.resolver dashedText = .ok dashedGrid ∧
      dashedGrid.IsFull ∧ ∃ printed, dashedGrid.print dashedNames.nameOf? = some printed ∧
        read dashedNames.resolver printed = .ok dashedGrid := by
  have areApart : dashedNames.AreApart := by
    unfold RuleNames.AreApart
    decide
  have isRead : read dashedNames.resolver dashedText = .ok dashedGrid := by
    rw [← Except.toOption_eq_some]
    decide +kernel
  exact ⟨areApart, isRead, read_printed_grid areApart isRead⟩

end Diachrony.Grid
