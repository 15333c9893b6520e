import Diachrony.Text.Basic
import Diachrony.Text.LetterCase

/-!
Words as a graph stores them, and the word forms that rules work on.

A form is a snapshot: every step of a rule makes a new one, and a form of
another text has no stress unless one is given.
-/
namespace Diachrony

structure Word where
  id : Int
  text : Text
  language : Text
  gloss : Option Text := none
  partOfSpeech : Option Text := none
  classes : List Text := []
  stressedIndex : Option Int := none
  reconstructed : Bool := false
  source : Option Text := none
  notes : Option Text := none

structure CategoryValue where
  category : Text
  value : Text
  deriving DecidableEq

/-- A form of a word in a language. The stress is given as the index of a
segment. -/
structure WordForm where
  text : Text
  language : Text
  categories : List CategoryValue := []
  classes : List Text := []
  gloss : Option Text := none
  partOfSpeech : Option Text := none
  stressedIndex : Option Int := none
  wordId : Option Int := none
  deriving DecidableEq

def Word.form (word : Word) : WordForm :=
  { text := word.text
    language := word.language
    classes := word.classes
    gloss := word.gloss
    partOfSpeech := word.partOfSpeech
    stressedIndex := word.stressedIndex
    wordId := some word.id }

namespace WordForm

def withText (form : WordForm) (text : Text) (stressedIndex : Option Int := none) :
    WordForm :=
  { form with text, stressedIndex }

/-- The abbreviations of the category values, each behind a dot. -/
def abbreviations (form : WordForm) : Text :=
  form.categories.flatMap fun assigned => '.' :: assigned.value

end WordForm

/-- The text that a comparison of words looks at: lower case, without the
morpheme marks at the end. The marks are the characters of `marker`. -/
def comparable (marker text : Text) : Text :=
  Text.stripEnd marker.contains (Text.lower text)

end Diachrony
