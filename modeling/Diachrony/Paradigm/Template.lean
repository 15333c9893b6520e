import Diachrony.Error
import Diachrony.Language
import Diachrony.Paradigm

/-!
Templates: empty paradigms whose rows and columns run through the values of
grammatical categories.
-/
namespace Diachrony

open Text (joinWith)

namespace Paradigm

/-- The abbreviations of a category's values. A part of speech, if one is given,
has to be one that the category is for. -/
def dimension (language : Language) (partOfSpeech : Option Text) (name : Text) :
    Except Error (List Text) :=
  match language.categories.find? fun category => category.name == name with
  | none => .error (.undefinedName .categoryValue name language.shortName none)
  | some category =>
    match partOfSpeech with
    | some part =>
      if category.partsOfSpeech.isEmpty || category.partsOfSpeech.contains part then
        .ok (category.entries.map CategoryEntry.abbreviation)
      else
        .error (.inconsistent (.categoryPartOfSpeech name part language.shortName))
    | none => .ok (category.entries.map CategoryEntry.abbreviation)

/-- All ways of choosing one item from each of some lists; the last choice changes
first. -/
def combinations : List (List Text) → List (List Text)
  | [] => [[]]
  | items :: lists =>
    items.flatMap fun item => (combinations lists).map fun rest => item :: rest

/-- The titles that run through the values of some categories. Without categories
there is one empty title. -/
def titles (language : Language) (partOfSpeech : Option Text) (names : List Text) :
    Except Error (List Text) := do
  let dimensions ← names.mapM (dimension language partOfSpeech)
  return (combinations dimensions).map (joinWith ['.'])

/-- An empty paradigm whose rows and columns run through the values of some
categories. A single part of speech has to suit all of them. -/
def template (id : Int) (name : Text) (language : Language) (partsOfSpeech : List Text)
    (rowCategories columnCategories : List Text) : Except Error Paradigm := do
  let partOfSpeech := match partsOfSpeech with
    | [part] => some part
    | _ => none
  let rowTitles ← titles language partOfSpeech rowCategories
  let columnTitles ← titles language partOfSpeech columnCategories
  return {
    id, name, partsOfSpeech
    language := language.shortName
    grid := {
      rowTitles, columnTitles
      cells := rowTitles.map fun _ => columnTitles.map fun _ => [] } }

end Paradigm

end Diachrony
