import Diachrony.Application

/-!
Expanding a paradigm: every rule of every cell is tried on a word, and each form
that comes out is kept with its rule. A rule that fails leaves its error in the
cell.
-/
namespace Diachrony

structure CellForm where
  rule : Int
  ruleName : Text
  form : WordForm

structure ExpandedCell where
  row : Nat
  column : Nat
  forms : List CellForm
  errors : List Error

structure ExpandedParadigm where
  paradigm : Paradigm
  word : Word
  cells : List (List ExpandedCell)

namespace Paradigm

/-- What a rule adds to a cell: a form, an error, or neither. -/
def tryRule (graph : Graph) (marker : Text) (form : WordForm) (id : Int) :
    Session (Option (CellForm ⊕ Error)) := do
  let result ← Work.settle do
    let rule ← graph.rule id
    return (rule, ← graph.apply rule form marker)
  match result with
  | .error failure => return some (.inr failure)
  | .ok (rule, outcome) =>
    if outcome.applied then return some (.inl ⟨rule.id, rule.name, outcome.form⟩)
    else return none

def expandCell (graph : Graph) (marker : Text) (paradigm : Paradigm) (form : WordForm)
    (row column : Nat) : Session ExpandedCell := do
  let results ← (paradigm.grid.cell row column).mapM (tryRule graph marker form)
  return {
    row
    column
    forms := results.filterMap fun result => result.bind Sum.getLeft?
    errors := results.filterMap fun result => result.bind Sum.getRight? }

/-- Refuses a word of another language or of a part of speech that a paradigm is
not for. -/
def checkWord (paradigm : Paradigm) (word : Word) : Except Error Unit := do
  if word.language ≠ paradigm.language then
    throw (.inconsistent (.paradigmLanguage paradigm.name paradigm.id paradigm.language
      word.id word.language))
  if !paradigm.isApplicable word.partOfSpeech then
    throw (.inconsistent (.paradigmPartOfSpeech paradigm.name paradigm.id word.id
      word.partOfSpeech))

def expand (graph : Graph) (paradigm : Paradigm) (word : Word)
    (marker : Text := Graph.usualMarker) : Session ExpandedParadigm := do
  paradigm.checkWord word
  let cells ← (List.range paradigm.grid.rowTitles.length).mapM fun row =>
    (List.range paradigm.grid.columnTitles.length).mapM fun column =>
      expandCell graph marker paradigm word.form row column
  return { paradigm, word, cells }

end Paradigm

/-- The paradigms of a word's language that are for its part of speech. -/
def Graph.applicableParadigms (graph : Graph) (word : Word) : List Paradigm :=
  (graph.paradigmsOf (some word.language)).filter fun paradigm =>
    paradigm.isApplicable word.partOfSpeech

end Diachrony
