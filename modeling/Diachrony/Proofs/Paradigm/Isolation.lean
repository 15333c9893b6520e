import Diachrony.Paradigm.Expansion
import Diachrony.Proofs.Derivation.Recording
import Diachrony.Proofs.Graph.Mutation
import Diachrony.Proofs.Paradigm.Grid

/-!
# The cells of an expanded paradigm

Each rule of a cell is tried on the word by itself: one that fails leaves its error, and does
not keep the ones behind it from being tried.  All cells share the inventories that are made on
the way.  As long as every language goes by its own short name, these bear on nothing, so what
is in a cell depends on the rules of this cell alone.
-/
namespace Diachrony

open Work

/-- What belongs to each number below a bound stands at this number. -/
theorem getElem?_of_forall₂_range {α : Type} {Belongs : Nat → α → Prop} {bound place : Nat}
    {values : List α} (belong : List.Forall₂ Belongs (List.range bound) values) {value : α}
    (isThere : values[place]? = some value) : Belongs place value := by
  obtain ⟨isBelow, rfl⟩ := List.getElem?_eq_some_iff.mp isThere
  have isInRange : place < (List.range bound).length := belong.length_eq ▸ isBelow
  have belongs := belong.get isInRange isBelow
  rwa [List.get_eq_getElem, List.getElem_range] at belongs

namespace ExpandedParadigm

def cell? (table : ExpandedParadigm) (row column : Nat) : Option ExpandedCell :=
  (table.cells[row]?).bind fun cells => cells[column]?

/-- A table has one cell for each row title and column title of a grid, in their order. -/
structure Covers (table : ExpandedParadigm) (grid : Grid) : Prop where
  rows : table.cells.length = grid.rowTitles.length
  columns : ∀ cells ∈ table.cells, cells.length = grid.columnTitles.length
  places : ∀ row column cell, table.cell? row column = some cell →
    cell.row = row ∧ cell.column = column

variable {table : ExpandedParadigm} {grid : Grid} {row column : Nat}

theorem cell?_eq_some {cell : ExpandedCell} :
    table.cell? row column = some cell ↔
      ∃ cells, table.cells[row]? = some cells ∧ cells[column]? = some cell :=
  Option.bind_eq_some_iff

/-- There is a cell in each place under the titles, and in no other one. -/
theorem Covers.isSome_cell? (covers : table.Covers grid) :
    (table.cell? row column).isSome = true ↔
      row < grid.rowTitles.length ∧ column < grid.columnTitles.length := by
  rw [Option.isSome_iff_exists, ← covers.rows]
  constructor
  · rintro ⟨cell, isCell⟩
    obtain ⟨cells, areCells, isCell⟩ := cell?_eq_some.mp isCell
    obtain ⟨isRow, rfl⟩ := List.getElem?_eq_some_iff.mp areCells
    obtain ⟨isColumn, -⟩ := List.getElem?_eq_some_iff.mp isCell
    exact ⟨isRow, covers.columns _ (List.getElem_mem isRow) ▸ isColumn⟩
  · rintro ⟨isRow, isColumn⟩
    rw [← covers.columns _ (List.getElem_mem isRow)] at isColumn
    exact ⟨_, cell?_eq_some.mpr
      ⟨_, List.getElem?_eq_getElem isRow, List.getElem?_eq_getElem isColumn⟩⟩

end ExpandedParadigm

def CellForm.made? : Except Error (Rule × Outcome) → Option CellForm
  | .ok (rule, outcome) =>
    if outcome.applied then some ⟨rule.id, rule.name, outcome.form⟩ else none
  | .error _ => none

def Error.of? {α : Type} : Except Error α → Option Error
  | .ok _ => none
  | .error failure => some failure

/-- A cell has the forms of those of some rules that apply to a form, and the errors of those
that fail on it, each rule being tried by itself. -/
structure ExpandedCell.Holds (graph : Graph) (marker : Text) (form : WordForm) (rules : List Int)
    (cell : ExpandedCell) : Prop where
  forms : cell.forms = rules.filterMap fun id =>
    CellForm.made? (SequenceStep.applyUnder graph marker form id).result
  errors : cell.errors = rules.filterMap fun id =>
    Error.of? (SequenceStep.applyUnder graph marker form id).result

namespace Paradigm

def added : Except Error (Rule × Outcome) → Option (CellForm ⊕ Error)
  | .ok (rule, outcome) =>
    if outcome.applied then some (.inl ⟨rule.id, rule.name, outcome.form⟩) else none
  | .error failure => some (.inr failure)

theorem getLeft?_added (result : Except Error (Rule × Outcome)) :
    (added result).bind Sum.getLeft? = CellForm.made? result := by
  cases result with
  | error failure => rfl
  | ok made =>
      unfold added CellForm.made?
      dsimp only
      split <;> rfl

theorem getRight?_added (result : Except Error (Rule × Outcome)) :
    (added result).bind Sum.getRight? = Error.of? result := by
  cases result with
  | error failure => rfl
  | ok made =>
      unfold added
      dsimp only
      split <;> rfl

theorem tryRule_eq (graph : Graph) (form : WordForm) (id : Int) :
    tryRule graph marker form id = (do
      let result ← settle (SequenceStep.applyUnder graph marker form id)
      return added result) := by
  unfold tryRule
  refine bind_congr fun result => ?_
  cases result with
  | error failure => rfl
  | ok made =>
      unfold added
      dsimp only
      split <;> rfl

variable {graph other : Graph} {marker : Text} {paradigm changed : Paradigm} {word : Word}

theorem agree_tryRule (alike : Graph.Alike graph other) (marker : Text) (form : WordForm)
    (id : Int) :
    Agree graph.languages (· = ·) (tryRule graph marker form id)
        (tryRule other marker form id) := by
  rw [tryRule_eq, tryRule_eq]
  exact agree_bind_eq (agree_settle (SequenceStep.agree_applyUnder alike form id marker)) fun _ =>
    agree_pure rfl

theorem agree_expandCell (alike : Graph.Alike graph other) (form : WordForm) {row column : Nat}
    (sameRules : changed.grid.cell row column = paradigm.grid.cell row column) (marker : Text) :
    Agree graph.languages (· = ·) (expandCell graph marker paradigm form row column)
      (expandCell other marker changed form row column) := by
  unfold expandCell
  rw [sameRules]
  exact agree_bind_eq (agree_mapM (agree_tryRule alike marker form) _) fun _ => agree_pure rfl

/-- What is in a cell depends on nothing but its rules. -/
theorem result_expandCell_eq (alike : Graph.Alike graph other) (form : WordForm) {row column : Nat}
    (sameRules : changed.grid.cell row column = paradigm.grid.cell row column) :
    (expandCell other marker changed form row column).result =
      (expandCell graph marker paradigm form row column).result :=
  ((agree_expandCell alike form sameRules marker).result_eq (Inventories.areOf_empty _)).symm

theorem place_of_expandCell {form : WordForm} {row column : Nat} {made left : Inventories}
    {cell : ExpandedCell}
    (gave : (expandCell graph marker paradigm form row column).on made = (.ok cell, left)) :
    cell.row = row ∧ cell.column = column := by
  obtain ⟨results, between, -, gave⟩ := on_bind_eq_ok.mp gave
  cases gave
  exact ⟨rfl, rfl⟩

/-- Whatever the rules do, a table has one cell in each place. -/
theorem covers_of_expand {made left : Inventories} {table : ExpandedParadigm}
    (gave : (paradigm.expand graph word marker).on made = (.ok table, left)) :
    table.Covers paradigm.grid := by
  obtain ⟨-, between, -, gave⟩ := on_bind_eq_ok.mp gave
  obtain ⟨cells, between, areRows, gave⟩ := on_bind_eq_ok.mp gave
  cases gave
  have areRows := forall₂_of_on_mapM areRows
  have areCells : ∀ row cells', cells[row]? = some cells' → List.Forall₂
      (fun column cell => ∃ made left,
        (expandCell graph marker paradigm word.form row column).on made = (.ok cell, left))
      (List.range paradigm.grid.columnTitles.length) cells' := by
    intro row cells' isRow
    obtain ⟨made, left, gave⟩ := getElem?_of_forall₂_range areRows isRow
    exact forall₂_of_on_mapM gave
  refine ⟨?_, fun cells' isMember => ?_, fun row column cell isCell => ?_⟩
  · exact areRows.length_eq.symm.trans List.length_range
  · obtain ⟨row, isRow⟩ := List.mem_iff_getElem?.mp isMember
    exact (areCells row cells' isRow).length_eq.symm.trans List.length_range
  · obtain ⟨cells', isRow, isCell⟩ := ExpandedParadigm.cell?_eq_some.mp isCell
    obtain ⟨made, left, gave⟩ := getElem?_of_forall₂_range (areCells row cells' isRow) isCell
    exact place_of_expandCell gave

section

variable (shortNames : KeepShortNames graph.languages)

include shortNames

theorem eq_added_of_result_tryRule {form : WordForm} {id : Int} {value : Option (CellForm ⊕ Error)}
    (gave : (tryRule graph marker form id).result = .ok value) :
    value = added (SequenceStep.applyUnder graph marker form id).result := by
  rw [tryRule_eq] at gave
  have applies := SequenceStep.agree_applyUnder (Graph.Alike.refl shortNames) form id marker
  obtain ⟨settled, isSettled, isAdded⟩ :=
    result_bind_ok (agree_settle applies) (fun _ => agree_pure rfl) gave
  cases isAdded
  rw [result_settle] at isSettled
  rw [Error.settle_eq_ok isSettled]

/-- A cell that is expanded by itself holds what its rules make, each by itself. -/
theorem holds_of_result_expandCell {form : WordForm} {row column : Nat} {cell : ExpandedCell}
    (gave : (expandCell graph marker paradigm form row column).result = .ok cell) :
    cell.Holds graph marker form (paradigm.grid.cell row column) := by
  have tries := agree_tryRule (Graph.Alike.refl shortNames) marker form
  obtain ⟨results, areTried, gave⟩ :=
    result_bind_ok (agree_mapM tries _) (fun _ => agree_pure rfl) gave
  cases gave
  rw [result_mapM tries] at areTried
  have areAdded := Except.eq_map_of_mapM areTried fun _ _ isTried =>
    eq_added_of_result_tryRule shortNames isTried
  subst areAdded
  constructor
  · exact List.filterMap_map.trans (List.filterMap_congr fun _ _ => getLeft?_added _)
  · exact List.filterMap_map.trans (List.filterMap_congr fun _ _ => getRight?_added _)

/-- Each cell of a table is what expanding it by itself gives. -/
theorem result_expandCell_of_expand {table : ExpandedParadigm}
    (gave : (paradigm.expand graph word marker).result = .ok table) {row column : Nat}
    {cell : ExpandedCell} (isCell : table.cell? row column = some cell) :
    (expandCell graph marker paradigm word.form row column).result = .ok cell := by
  have alike := Graph.Alike.refl shortNames
  have agreeCells := fun row column =>
    agree_expandCell alike word.form (rfl : paradigm.grid.cell row column = _) marker
  have agreeRows := fun row =>
    agree_mapM (agreeCells row) (List.range paradigm.grid.columnTitles.length)
  have agreeTables := agree_mapM agreeRows (List.range paradigm.grid.rowTitles.length)
  unfold expand at gave
  obtain ⟨-, -, gave⟩ := result_bind_ok (agree_liftM (paradigm.checkWord word))
    (fun _ => agree_bind_eq agreeTables fun _ => agree_pure rfl) gave
  obtain ⟨rows, areRows, gave⟩ := result_bind_ok agreeTables (fun _ => agree_pure rfl) gave
  cases gave
  rw [result_mapM agreeRows] at areRows
  obtain ⟨cells, areCells, isCell⟩ := ExpandedParadigm.cell?_eq_some.mp isCell
  have isRow := getElem?_of_forall₂_range (Except.forall₂_of_mapM areRows) areCells
  rw [result_mapM (agreeCells row)] at isRow
  exact getElem?_of_forall₂_range (Except.forall₂_of_mapM isRow) isCell

end

def withCell (paradigm : Paradigm) (row column : Nat) (rules : List Int) : Paradigm :=
  { paradigm with grid := paradigm.grid.withCell row column rules }

end Paradigm

namespace Edit

variable {graph : Graph} {paradigm : Paradigm} {id : Int} {row column : Nat} {rules : List Int}

/-- Rules that are stored can be put into each cell that has titles. -/
theorem on_setCell (isStored : graph.paradigms.get? id = some paradigm)
    (isRow : row < paradigm.grid.rowTitles.length)
    (isColumn : column < paradigm.grid.columnTitles.length)
    (areStored : ∀ rule ∈ rules, graph.rules.contains rule = true) :
    (setCell id row column rules).on graph =
      (.ok (paradigm.withCell row column rules),
        { graph with
          paradigms := graph.paradigms.insert id (paradigm.withCell row column rules) }) := by
  have areFound : (rules.forM fun rule => do let _ ← ask (·.rule rule)).on graph =
      (.ok (), graph) := by
    rw [on_forM_eq_ok fun rule _ => onlyAsks_checkRule rule]
    exact fun rule isMember => on_asked_eq_ok.mpr (exists_found_iff.mpr (areStored rule isMember))
  unfold setCell
  rw [(onlyAsks_ask _).on_bind_eq_ok]
  refine ⟨paradigm, on_ask_eq_ok.mpr (found_iff.mpr isStored), ?_⟩
  rw [(onlyAsks_forM fun rule _ => onlyAsks_checkRule rule).on_bind_eq_ok]
  refine ⟨(), areFound, ?_⟩
  rw [Grid.setCell_eq_ok paradigm.name isRow isColumn]
  rfl

end Edit

namespace Paradigm

variable {graph after : Graph} {marker : Text} {paradigm : Paradigm} {word : Word} {id : Int}
  {row column : Nat} {rules : List Int} {table later : ExpandedParadigm}

theorem covers_of_result_expand (gave : (paradigm.expand graph word marker).result = .ok table) :
    table.Covers paradigm.grid :=
  covers_of_expand (Prod.ext gave rfl)

section

variable (alike : Graph.Alike graph after)
  (gaveLater : ((paradigm.withCell row column rules).expand after word marker).result = .ok later)

include alike gaveLater

/-- Expanding a paradigm again after a cell has been filled gives the same in another cell. -/
theorem cell?_of_withCell (gave : (paradigm.expand graph word marker).result = .ok table)
    {otherRow otherColumn : Nat} (isOther : ¬(otherRow = row ∧ otherColumn = column)) :
    later.cell? otherRow otherColumn = table.cell? otherRow otherColumn := by
  have covers := covers_of_result_expand gave
  have coversLater := covers_of_result_expand gaveLater
  have areBoth : (later.cell? otherRow otherColumn).isSome = true ↔
      (table.cell? otherRow otherColumn).isSome = true :=
    coversLater.isSome_cell?.trans covers.isSome_cell?.symm
  cases isCell : table.cell? otherRow otherColumn with
  | none =>
      rw [isCell] at areBoth
      exact Option.not_isSome_iff_eq_none.mp fun isThere => nomatch areBoth.mp isThere
  | some cell =>
      rw [isCell] at areBoth
      obtain ⟨cellLater, isCellLater⟩ := Option.isSome_iff_exists.mp (areBoth.mpr rfl)
      have sameRules : (paradigm.withCell row column rules).grid.cell otherRow otherColumn =
          paradigm.grid.cell otherRow otherColumn :=
        (Grid.cell_withCell rules otherRow otherColumn).trans (if_neg isOther)
      have shortNames : KeepShortNames after.languages := alike.languages ▸ alike.shortNames
      have same := @result_expandCell_eq _ _ marker _ _ alike word.form _ _ sameRules
      rw [result_expandCell_of_expand alike.shortNames gave isCell,
        result_expandCell_of_expand shortNames gaveLater isCellLater] at same
      rw [isCellLater, Except.ok.inj same]

/-- In the cell that has been filled, the new rules are tried, each by itself. -/
theorem holds_of_withCell (isRow : row < paradigm.grid.rowTitles.length)
    (isColumn : column < paradigm.grid.columnTitles.length) :
    ∃ cell, later.cell? row column = some cell ∧ cell.Holds graph marker word.form rules := by
  have coversLater := covers_of_result_expand gaveLater
  obtain ⟨cell, isCell⟩ :=
    Option.isSome_iff_exists.mp (coversLater.isSome_cell?.mpr ⟨isRow, isColumn⟩)
  have shortNames : KeepShortNames after.languages := alike.languages ▸ alike.shortNames
  have expanded := result_expandCell_of_expand shortNames gaveLater isCell
  rw [result_expandCell_eq alike word.form rfl] at expanded
  have holds := holds_of_result_expandCell alike.shortNames expanded
  have areRules : (paradigm.withCell row column rules).grid.cell row column = rules :=
    (Grid.cell_withCell rules row column).trans (if_pos ⟨rfl, rfl⟩)
  rw [areRules] at holds
  exact ⟨cell, isCell, holds⟩

end

/-- Stored rules can be put into any cell that has titles.  Whenever the paradigm can be expanded
for a word before and after that, both tables have a cell for each row and column.  If each
language goes by the short name it is stored under, the tables differ at most in that one cell,
and there the rules that were put into it have been tried, each by itself: those that apply have
left their forms, and those that fail their errors, in their order. -/
theorem setCell_changes_one_cell (isStored : graph.paradigms.get? id = some paradigm)
    (isRow : row < paradigm.grid.rowTitles.length)
    (isColumn : column < paradigm.grid.columnTitles.length)
    (areStored : ∀ rule ∈ rules, graph.rules.contains rule = true) (word : Word) :
    ∃ changed after, (Edit.setCell id row column rules).on graph = (.ok changed, after) ∧
      after.paradigms.get? id = some changed ∧
      ∀ table later, (paradigm.expand graph word marker).result = .ok table →
        (changed.expand after word marker).result = .ok later →
          table.Covers paradigm.grid ∧ later.Covers paradigm.grid ∧
          (KeepShortNames graph.languages →
            (∀ otherRow otherColumn, ¬(otherRow = row ∧ otherColumn = column) →
              later.cell? otherRow otherColumn = table.cell? otherRow otherColumn) ∧
            ∃ cell, later.cell? row column = some cell ∧
              cell.Holds graph marker word.form rules) := by
  have ran := Edit.on_setCell isStored isRow isColumn areStored
  have alike : KeepShortNames graph.languages → Graph.Alike graph
      { graph with paradigms := graph.paradigms.insert id (paradigm.withCell row column rules) } :=
    fun shortNames => ⟨rfl, rfl, shortNames⟩
  refine ⟨_, _, ran, ?_, fun table later gave gaveLater => ?_⟩
  · exact (Table.get?_insert _ _ _ _).trans (if_pos rfl)
  have coversLater := covers_of_result_expand gaveLater
  refine ⟨covers_of_result_expand gave, ⟨coversLater.rows, coversLater.columns, coversLater.places⟩,
    fun shortNames => ⟨fun _ _ isOther => ?_, ?_⟩⟩
  · exact cell?_of_withCell (alike shortNames) gaveLater gave isOther
  · exact holds_of_withCell (alike shortNames) gaveLater isRow isColumn

/-- A language with a vowel and a paradigm that lacks its second row.  Of the rules, the first one
applies to words that begin with a vowel and the second one to words that end with one; the last
one fails, since the language has no open vowels. -/
def ragged : Graph := .ofRun [
  .addLanguage
    { name := "A", shortName := "a", phonemes := [{ spelling := "x", tags := ["vowel"] }] }
    Mutation.isNamed_a,
  .addRule [("name", .text "s"), ("from_language", .text "a"), ("to_language", .null),
    ("text", .text "word begins with vowel:\n- append 's'"), ("id", .null)] none,
  .addRule [("name", .text "t"), ("from_language", .text "a"), ("to_language", .null),
    ("text", .text "word ends with vowel:\n- append 't'"), ("id", .null)] none,
  .addRule [("name", .text "u"), ("from_language", .text "a"), ("to_language", .null),
    ("text", .text "word ends with open:\n- append 'u'"), ("id", .null)] none,
  .addTemplate {
    id := 0
    name := "p"
    language := "a"
    grid := { rowTitles := ["r", "q"], columnTitles := ["c", "d"], cells := [[[2]]] } }]

def openWord : Word := { id := 7, text := "kx", language := "a" }

theorem setCell_changes_one_cell_ragged :
    ∃ paradigm changed after table later, ragged.paradigms.get? 4 = some paradigm ∧
      (Edit.setCell 4 1 1 [3, 2, 1]).on ragged = (.ok changed, after) ∧
      (paradigm.expand ragged openWord).result = .ok table ∧
      (changed.expand after openWord).result = .ok later ∧
      later.cell? 0 0 = table.cell? 0 0 ∧
      ∃ cell, later.cell? 1 1 = some cell ∧
          cell.Holds ragged Graph.usualMarker openWord.form [3, 2, 1] := by
  have isTitled : (ragged.paradigms.get? 4).map (fun paradigm =>
      (paradigm.grid.rowTitles.length, paradigm.grid.columnTitles.length,
        (paradigm.expand ragged openWord).result.toOption.isSome)) = some (2, 2, true) := by
    decide +kernel
  obtain ⟨paradigm, isStored, isSeen⟩ := Option.map_eq_some_iff.mp isTitled
  simp only [Prod.mk.injEq] at isSeen
  obtain ⟨rows, columns, expands⟩ := isSeen
  have isRow : 1 < paradigm.grid.rowTitles.length := by omega
  have isColumn : 1 < paradigm.grid.columnTitles.length := by omega
  have areStored : ∀ rule ∈ [3, 2, 1], ragged.rules.contains rule = true := by decide +kernel
  obtain ⟨changed, after, ran, -, compares⟩ :=
    setCell_changes_one_cell isStored isRow isColumn areStored openWord
  have ran : (Edit.setCell 4 1 1 [3, 2, 1]).on ragged = (.ok changed, after) := ran
  have expandsLater : (((Edit.setCell 4 1 1 [3, 2, 1]).on ragged).1.toOption.map fun changed =>
      (changed.expand ((Edit.setCell 4 1 1 [3, 2, 1]).on ragged).2
        openWord).result.toOption.isSome) = some true := by decide +kernel
  rw [ran] at expandsLater
  obtain ⟨table, isTable⟩ := Option.isSome_iff_exists.mp expands
  obtain ⟨later, isLater⟩ := Option.isSome_iff_exists.mp (Option.some.inj expandsLater)
  have isTable := Except.toOption_eq_some.mp isTable
  have isLater := Except.toOption_eq_some.mp isLater
  have keepsNames : ragged.KeepsNames :=
    Graph.keepsNames_of_entries (by decide +kernel) (by decide +kernel)
  obtain ⟨others, holds⟩ := (compares table later isTable isLater).2.2 keepsNames.shortNames
  exact ⟨paradigm, changed, after, table, later, isStored, ran, isTable, isLater,
    others 0 0 (by decide), holds⟩

/-- Emptying the first cell of a paradigm changes what the second one is expanded to. -/
def EmptyingChangesOther (graph : Graph) : Prop :=
  ∃ paradigm changed after table later, graph.paradigms.get? 4 = some paradigm ∧
    (Edit.setCell 4 0 0 []).on graph = (.ok changed, after) ∧
    (paradigm.expand graph openWord).result = .ok table ∧
    (changed.expand after openWord).result = .ok later ∧
    later.cell? 0 1 ≠ table.cell? 0 1

/-- How many forms and errors the second cell has before and after the first one is emptied. -/
def countsBesideEmptied (graph : Graph) : Option (Nat × Nat × Nat × Nat) := do
  let paradigm ← graph.paradigms.get? 4
  let (result, after) := (Edit.setCell 4 0 0 []).on graph
  let changed ← result.toOption
  let table ← (paradigm.expand graph openWord).result.toOption
  let later ← (changed.expand after openWord).result.toOption
  let cell ← table.cell? 0 1
  let cellLater ← later.cell? 0 1
  return (cell.forms.length, cell.errors.length, cellLater.forms.length, cellLater.errors.length)

theorem emptyingChangesOther_of_seen {graph : Graph}
    (isSeen : countsBesideEmptied graph = some (1, 0, 0, 1)) : EmptyingChangesOther graph := by
  obtain ⟨paradigm, isStored, isSeen⟩ := Option.bind_eq_some_iff.mp isSeen
  obtain ⟨changed, ran, isSeen⟩ := Option.bind_eq_some_iff.mp isSeen
  obtain ⟨table, isTable, isSeen⟩ := Option.bind_eq_some_iff.mp isSeen
  obtain ⟨later, isLater, isSeen⟩ := Option.bind_eq_some_iff.mp isSeen
  obtain ⟨cell, isCell, isSeen⟩ := Option.bind_eq_some_iff.mp isSeen
  obtain ⟨cellLater, isCellLater, isSeen⟩ := Option.bind_eq_some_iff.mp isSeen
  refine ⟨paradigm, changed, _, table, later, isStored, Edit.on_of_toOption ran,
    Except.toOption_eq_some.mp isTable, Except.toOption_eq_some.mp isLater, fun same => ?_⟩
  rw [isCell, isCellLater] at same
  cases same
  obtain ⟨isOne, isNone, isNoneLater, isOneLater⟩ : cell.forms.length = 1 ∧
      cell.errors.length = 0 ∧ cell.forms.length = 0 ∧ cell.errors.length = 1 := by
    simpa using Option.some.inj isSeen
  exact absurd (isOne.symm.trans isNoneLater) Nat.one_ne_zero

/-- Two languages, of which the second one alone has a vowel and is given the short name of the
first one, and a paradigm of two cells: a rule of the second language, and one of the first. -/
def namesakes : Graph := .ofRun [
  .addLanguage { name := "A", shortName := "a" } Mutation.isNamed_a,
  .addLanguage
    { name := "B", shortName := "b", phonemes := [{ spelling := "x", tags := ["vowel"] }] }
    Mutation.isNamed_b,
  .addRule [("name", .text "s"), ("from_language", .text "b"), ("to_language", .text "a"),
    ("text", .text "word begins with vowel:\n- append 's'"), ("id", .null)] none,
  .addRule [("name", .text "t"), ("from_language", .text "a"), ("to_language", .null),
    ("text", .text "word ends with vowel:\n- append 't'"), ("id", .null)] none,
  .addTemplate {
    id := 4
    name := "p"
    language := "a"
    grid := { rowTitles := ["r"], columnTitles := ["c", "d"], cells := [[[1], [2]]] } },
  .setLanguage "b" "short_name" (.text "a")]

/-- Without the rule in the first cell, the second language is not needed before the first one,
and the rule in the second cell does not find a vowel. -/
theorem setCell_may_change_other_cell : EmptyingChangesOther namesakes :=
  emptyingChangesOther_of_seen (by decide +kernel)

end Paradigm

end Diachrony
