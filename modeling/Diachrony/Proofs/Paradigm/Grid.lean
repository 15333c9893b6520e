import Diachrony.Paradigm
import Diachrony.Proofs.Except

/-!
# Filling the cells of a grid

A grid has a cell in each place under its titles, though it may have been stored with fewer
rows, or with rows that are shorter than others: where there is nothing, there are no rules.
So a cell that is filled may have to come into being first, and that is not to be seen in the
other cells.
-/
namespace Diachrony

variable {α : Type}

theorem lt_length_padTo (place : Nat) (lists : List (List α)) :
    place < (padTo (place : Int) lists).length := by
  unfold padTo
  rw [List.length_append, List.length_replicate]
  omega

/-- What a list is lengthened by is empty, and so is what is not there. -/
theorem getD_padTo (index : Int) (lists : List (List α)) (place : Nat) :
    (padTo index lists).getD place [] = lists.getD place [] := by
  unfold padTo
  rw [List.getD_eq_getElem?_getD, List.getD_eq_getElem?_getD, List.getElem?_append]
  split
  · rfl
  · rename_i isBehind
    rw [List.getElem?_replicate, List.getElem?_eq_none (Nat.le_of_not_lt isBehind)]
    split <;> rfl

theorem getD_set {value fallback : α} {values : List α} {place : Nat}
    (isThere : place < values.length) (index : Nat) :
    (values.set place value).getD index fallback =
      if index = place then value else values.getD index fallback := by
  rw [List.getD_eq_getElem?_getD, List.getD_eq_getElem?_getD, List.getElem?_set]
  by_cases isSame : index = place
  · rw [if_pos isSame.symm, if_pos isSame, if_pos isThere]
    rfl
  · rw [if_neg (Ne.symm isSame), if_neg isSame]

theorem placeIn?_natCast {length place : Nat} (isThere : place < length) :
    placeIn? length (place : Int) = some place := by
  unfold placeIn?
  have notBelow : ¬(place : Int) < 0 := by omega
  simp only [notBelow, if_false]
  rw [if_pos (by simp only [Bool.and_eq_true, decide_eq_true_eq]; omega), Int.toNat_natCast]

namespace Grid

theorem refuseLargeIndex_natCast (place : Nat) : refuseLargeIndex (place : Int) = .ok () :=
  if_neg (by omega)

theorem cell_eq (grid : Grid) (row column : Nat) :
    grid.cell row column = (grid.cells.getD row []).getD column [] := by
  unfold cell
  rw [List.getD_eq_getElem?_getD, List.getD_eq_getElem?_getD]
  cases grid.cells[row]? <;> rfl

def withCell (grid : Grid) (row column : Nat) (rules : List Int) : Grid :=
  let cells := padTo row grid.cells
  { grid with cells := cells.set row ((padTo column (cells.getD row [])).set column rules) }

variable {grid : Grid} {row column : Nat}

/-- A cell is filled, and no other one. -/
theorem cell_withCell (rules : List Int) (otherRow otherColumn : Nat) :
    (grid.withCell row column rules).cell otherRow otherColumn =
      if otherRow = row ∧ otherColumn = column then rules
      else grid.cell otherRow otherColumn := by
  rw [cell_eq, cell_eq]
  unfold withCell
  dsimp only
  rw [getD_set (lt_length_padTo row grid.cells)]
  by_cases sameRow : otherRow = row
  · rw [if_pos sameRow, getD_set (lt_length_padTo column _), getD_padTo, getD_padTo, sameRow]
    by_cases sameColumn : otherColumn = column
    · rw [if_pos sameColumn, if_pos ⟨rfl, sameColumn⟩]
    · rw [if_neg sameColumn, if_neg fun same => sameColumn same.2]
  · rw [if_neg sameRow, if_neg fun same => sameRow same.1, getD_padTo]

/-- In a place under the titles, rules can be put into a cell, whether it is there or not. -/
theorem setCell_eq_ok (name : Text) (isRow : row < grid.rowTitles.length)
    (isColumn : column < grid.columnTitles.length) (rules : List Int) :
    grid.setCell name row column rules = .ok (grid.withCell row column rules) := by
  unfold setCell
  have isInside :
      ¬((grid.rowTitles.length : Int) ≤ row || (grid.columnTitles.length : Int) ≤ column) := by
    simp only [Bool.or_eq_true, decide_eq_true_eq]
    omega
  rw [if_neg isInside]
  dsimp only
  rw [refuseLargeIndex_natCast, refuseLargeIndex_natCast, placeIn?_natCast (lt_length_padTo row _)]
  dsimp only
  rw [placeIn?_natCast (lt_length_padTo column _)]
  rfl

end Grid

end Diachrony
