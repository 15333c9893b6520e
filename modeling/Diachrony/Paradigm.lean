import Diachrony.Error
import Diachrony.Rule
import Diachrony.Text.Blank

/-!
Paradigms: a grid of inflected forms, each cell with the rules that may make the
form, and its written form of one row a line.
-/
namespace Diachrony

open Text (trim words splitAt joinWith numberedLines)

/-- A grid of rules under row and column titles. -/
structure Grid where
  rowTitles : List Text := []
  columnTitles : List Text := []
  cells : List (List (List Int)) := []
  deriving DecidableEq

/-- A paradigm of a language, for some parts of speech or for all. -/
structure Paradigm where
  id : Int
  name : Text
  language : Text
  partsOfSpeech : List Text := []
  grid : Grid := {}

/-- The place that an index stands for in a list; indices below zero count from
the end. -/
def placeIn? (length : Nat) (index : Int) : Option Nat :=
  let place := if index < 0 then length + index else index
  if 0 ≤ place && place < length then some place.toNat else none

def padTo {α : Type} (index : Int) (lists : List (List α)) : List (List α) :=
  lists ++ List.replicate ((index + 1).toNat - lists.length) []

namespace Grid

/-- The rules of a cell. A row may be shorter than the titles; what is missing
is empty. -/
def cell (grid : Grid) (row column : Nat) : List Int :=
  ((grid.cells[row]?).bind fun cells => cells[column]?).getD []

/-- Refuses an index that is so far below zero that it does not fit into a machine
word. -/
def refuseLargeIndex (index : Int) : Except Error Unit :=
  if index < -0x8000000000000000 then .error .indexTooLarge else .ok ()

/-- Puts rules into a cell that has titles. Rows and cells up to it come into
being; indices below zero count from the end of what is there. -/
def setCell (paradigm : Text) (grid : Grid) (row column : Int) (rules : List Int) :
    Except Error Grid := do
  if grid.rowTitles.length ≤ row || grid.columnTitles.length ≤ column then
    throw (.noSuchCell row column paradigm)
  let cells := padTo row grid.cells
  refuseLargeIndex row
  let some rowPlace := placeIn? cells.length row | throw .noSuchRow
  let line := padTo column (cells.getD rowPlace [])
  refuseLargeIndex column
  let some columnPlace := placeIn? line.length column | throw .noSuchColumn
  return { grid with cells := cells.set rowPlace (line.set columnPlace rules) }

def rules (grid : Grid) : List Int := grid.cells.flatten.flatten

def eraseRule (grid : Grid) (rule : Int) : Grid :=
  { grid with
    cells := grid.cells.map fun row => row.map fun cell => cell.filter (· != rule) }

/-- The entry of a cell in a row: its rules, or a dash for none. -/
def printCell {m : Type → Type} [Monad m] (nameOf : Int → m Text) :
    List Int → m Text
  | [] => return ['-']
  | rules => do return joinWith [','] (← rules.mapM nameOf)

def printRow {m : Type → Type} [Monad m] (nameOf : Int → m Text) (grid : Grid)
    (row : Nat) (title : Text) : m Text := do
  let entries ← (List.range grid.columnTitles.length).mapM fun column =>
    printCell nameOf (grid.cell row column)
  return joinWith [' '] (title :: entries)

def print {m : Type → Type} [Monad m] (nameOf : Int → m Text) (grid : Grid) :
    m Text := do
  let rows ← grid.rowTitles.zipIdx.mapM fun (title, row) =>
    printRow nameOf grid row title
  return joinWith ['\n'] (joinWith [' '] grid.columnTitles :: rows)

def readCell (resolver : Resolver) (entry : Text) : Except ParadigmFault (List Int) :=
  if entry = ['-'] then .ok []
  else (splitAt ',' entry).mapM fun name =>
    match resolver name with
    | some rule => .ok rule.id
    | none => .error (.noSuchRule name)

def readRow (resolver : Resolver) (columns : Nat) (title : Text)
    (entries : List Text) : Except ParadigmFault (List (List Int)) := do
  if columns < entries.length then
    throw (.tooManyCells title entries.length columns)
  let cells ← entries.mapM (readCell resolver)
  return cells ++ List.replicate (columns - cells.length) []

def wordLines (text : Text) : List (Nat × Text × List Text) :=
  (numberedLines text).filterMap fun (number, line) =>
    match words line with
    | [] => none
    | word :: rest => some (number, word, rest)

/-- Reads a grid. The first line has the column titles, every further one a row
title and up to one entry a column. -/
def read (resolver : Resolver) (text : Text) : Except Error Grid :=
  match wordLines text with
  | [] => .error (.inParadigm .noColumns 1)
  | (_, column, columns) :: lines => do
    let columnTitles := column :: columns
    let cells ← lines.mapM fun (number, title, entries) =>
      (readRow resolver columnTitles.length title entries).mapError
        fun fault => .inParadigm fault number
    return { rowTitles := lines.map fun (_, title, _) => title, columnTitles, cells }

end Grid

def Paradigm.isApplicable (paradigm : Paradigm) (partOfSpeech : Option Text) : Bool :=
  paradigm.partsOfSpeech.isEmpty ||
    partOfSpeech.any paradigm.partsOfSpeech.contains

end Diachrony
