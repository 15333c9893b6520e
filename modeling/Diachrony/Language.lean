import Diachrony.Phoneme

/-!
Languages: a sound inventory and the grammatical categories, word classes and
rules that a language designates.
-/
namespace Diachrony

/-- One value of a category, with the abbreviation it is cited by. -/
structure CategoryEntry where
  name : Text
  abbreviation : Text

/-- A grammatical category or a word class: a name, the parts of speech it is
for (none listed: all), and its values in order. -/
structure Category where
  name : Text
  partsOfSpeech : List Text := []
  entries : List CategoryEntry := []

def Category.entry? (category : Category) (key : Text) : Option CategoryEntry :=
  category.entries.find? fun entry =>
    entry.abbreviation == key || entry.name == key

/-- A language. The rule ids designate the rules for stress, for permitted
sound sequences and for spelling. -/
structure Language where
  name : Text
  shortName : Text
  phonemes : List Phoneme := []
  diphthongs : List Text := []
  partsOfSpeech : List Text := []
  categories : List Category := []
  wordClasses : List Category := []
  stressRule : Option Int := none
  phonotacticsRule : Option Int := none
  orthographyRule : Option Int := none

namespace Language

def entryAmong? (categories : List Category) (key : Text) :
    Option (Category × CategoryEntry) :=
  categories.findSome? fun category =>
    (category.entry? key).map fun entry => (category, entry)

/-- The grammatical category value under an abbreviation or a name. -/
def categoryEntry? (language : Language) (key : Text) :
    Option (Category × CategoryEntry) :=
  entryAmong? language.categories key

def wordClassEntry? (language : Language) (key : Text) :
    Option (Category × CategoryEntry) :=
  entryAmong? language.wordClasses key

def designatedRules (language : Language) : List Int :=
  [language.stressRule, language.phonotacticsRule,
    language.orthographyRule].filterMap id

end Language

end Diachrony
