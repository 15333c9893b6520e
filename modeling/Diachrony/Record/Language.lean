import Diachrony.Language
import Diachrony.Record
import Diachrony.Text.SetOrder

namespace Diachrony

open Record

/-- The fields of a phoneme. There has to be a spelling. -/
def Phoneme.known : Assign Phoneme := fun phoneme name data =>
  among name [
    ("graphemes", do
      match ← asTexts "graphemes" data with
      | [] => throw (.invalidValue "graphemes")
      | spelling :: otherSpellings => return { phoneme with spelling, otherSpellings }),
    ("sound", do return { phoneme with sound := ← orNull (asText "sound") data }),
    ("classes", do return { phoneme with tags := ← asTexts "classes" data }),
    ("historical", do return { phoneme with historical := ← asFlag "historical" data })]

def Phoneme.ofData (data : Data) : Except Error Phoneme := do
  build known { spelling := [] } ["graphemes"] (← asFields "phoneme" data)

/-- The record of a phoneme. Its tags are a set, and are listed in some order. -/
def Phoneme.toData (phoneme : Phoneme) (order : SetOrder := .sorted) : Data :=
  .record [
    ("graphemes", .ofTexts phoneme.graphemes),
    ("sound", .ofText? phoneme.sound),
    ("classes", .ofTexts (order.listed phoneme.tags)),
    ("historical", .flag phoneme.historical)]

def CategoryEntry.known : Assign CategoryEntry := fun entry name data =>
  among name [
    ("name", do return { entry with name := ← asText "name" data }),
    ("abbreviation", do return { entry with abbreviation := ← asText "abbreviation" data })]

def CategoryEntry.ofData (data : Data) : Except Error CategoryEntry := do
  build known ⟨[], []⟩ ["name", "abbreviation"] (← asFields "value" data)

def CategoryEntry.toData (entry : CategoryEntry) : Data :=
  .record [("name", .text entry.name), ("abbreviation", .text entry.abbreviation)]

def Category.known : Assign Category := fun category name data =>
  among name [
    ("name", do return { category with name := ← asText "name" data }),
    ("pos", do return { category with partsOfSpeech := ← asTexts "pos" data }),
    ("values", do
      return { category with entries := ← asList "values" CategoryEntry.ofData data })]

def Category.ofData (data : Data) : Except Error Category := do
  build known { name := [] } ["name"] (← asFields "category" data)

def Category.toData (category : Category) : Data :=
  .record [
    ("name", .text category.name),
    ("pos", .ofTexts category.partsOfSpeech),
    ("values", .list (category.entries.map CategoryEntry.toData))]

namespace Language

def shortNameOf (data : Data) : Except Error Text := do
  match ← asText "short_name" data with
  | [] => throw (.invalidValue "short_name")
  | char :: name => return char :: name

def known : Assign Language := fun language name data =>
  among name [
    ("name", do return { language with name := ← asText "name" data }),
    ("short_name", do return { language with shortName := ← shortNameOf data }),
    ("phonemes", do
      return { language with phonemes := ← asList "phonemes" Phoneme.ofData data }),
    ("diphthongs", do return { language with diphthongs := ← asTexts "diphthongs" data }),
    ("pos", do return { language with partsOfSpeech := ← asTexts "pos" data }),
    ("grammatical_categories", do
      return { language with
        categories := ← asList "grammatical_categories" Category.ofData data }),
    ("word_classes", do
      return { language with wordClasses := ← asList "word_classes" Category.ofData data }),
    ("stress_rule_id", do
      return { language with stressRule := ← orNull (asInt "stress_rule_id") data }),
    ("phonotactics_rule_id", do
      return { language with
        phonotacticsRule := ← orNull (asInt "phonotactics_rule_id") data }),
    ("orthography_rule_id", do
      return { language with
        orthographyRule := ← orNull (asInt "orthography_rule_id") data })]

def ofData (data : Data) : Except Error Language := do
  build known { name := [], shortName := [] } ["name", "short_name"]
    (← asFields "language" data)

def toData (language : Language) (order : SetOrder := .sorted) : Data :=
  .record [
    ("name", .text language.name),
    ("short_name", .text language.shortName),
    ("phonemes", .list (language.phonemes.map fun phoneme => phoneme.toData order)),
    ("diphthongs", .ofTexts language.diphthongs),
    ("pos", .ofTexts language.partsOfSpeech),
    ("grammatical_categories", .list (language.categories.map Category.toData)),
    ("word_classes", .list (language.wordClasses.map Category.toData)),
    ("stress_rule_id", .ofInt? language.stressRule),
    ("phonotactics_rule_id", .ofInt? language.phonotacticsRule),
    ("orthography_rule_id", .ofInt? language.orthographyRule)]

end Language

end Diachrony
