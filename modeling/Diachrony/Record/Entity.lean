import Diachrony.Link
import Diachrony.Logic.Reader
import Diachrony.Paradigm
import Diachrony.Record
import Diachrony.Rule
import Diachrony.Sequence
import Diachrony.Word

namespace Diachrony

open Record

namespace Word

def known : Assign Word := fun word name data =>
  among name [
    ("id", do return { word with id := ← asInt "id" data }),
    ("text", do return { word with text := ← asText "text" data }),
    ("language", do return { word with language := ← asText "language" data }),
    ("gloss", do return { word with gloss := ← orNull (asText "gloss") data }),
    ("pos", do return { word with partOfSpeech := ← orNull (asText "pos") data }),
    ("classes", do return { word with classes := ← asTexts "classes" data }),
    ("stressed_phoneme_index", do
      return { word with
        stressedIndex := ← orNull (asInt "stressed_phoneme_index") data }),
    ("reconstructed", do
      return { word with reconstructed := ← asFlag "reconstructed" data }),
    ("source", do return { word with source := ← orNull (asText "source") data }),
    ("notes", do return { word with notes := ← orNull (asText "notes") data })]

def toData (word : Word) : Data :=
  .record [
    ("id", .integer word.id),
    ("text", .text word.text),
    ("language", .text word.language),
    ("gloss", .ofText? word.gloss),
    ("pos", .ofText? word.partOfSpeech),
    ("classes", .ofTexts word.classes),
    ("stressed_phoneme_index", .ofInt? word.stressedIndex),
    ("reconstructed", .flag word.reconstructed),
    ("source", .ofText? word.source),
    ("notes", .ofText? word.notes)]

end Word

namespace Rule

def known : Assign Rule := fun rule name data =>
  among name [
    ("id", do return { rule with id := ← asInt "id" data }),
    ("name", do return { rule with name := ← asText "name" data }),
    ("from_language", do
      return { rule with fromLanguage := ← asText "from_language" data }),
    ("to_language", do return { rule with toLanguage := ← asText "to_language" data }),
    ("added_categories", do
      return { rule with
        addedCategories := ← orNull (asText "added_categories") data }),
    ("replaced_categories", do
      return { rule with
        replacedCategories := ← orNull (asText "replaced_categories") data }),
    ("source_text", do
      return { rule with sourceText := ← orNull (asText "source_text") data }),
    ("source", do return { rule with source := ← orNull (asText "source") data }),
    ("notes", do return { rule with notes := ← orNull (asText "notes") data })]

/-- The fields that a rule may be given when it is added. -/
def detailsKnown : Assign Rule := fun rule name data =>
  if (["added_categories", "replaced_categories", "source", "notes"] : List Text).contains name
  then known rule name data else none

/-- The text that a rule is archived as: what it was read from, or else its
printed logic, if that can be printed. -/
def archivedText (rule : Rule) : Except Error Text :=
  match rule.sourceText with
  | some text => .ok text
  | none => rule.logic.printed

def fields (rule : Rule) : Fields :=
  [
    ("id", .integer rule.id),
    ("name", .text rule.name),
    ("from_language", .text rule.fromLanguage),
    ("to_language", .text rule.toLanguage),
    ("added_categories", .ofText? rule.addedCategories),
    ("replaced_categories", .ofText? rule.replacedCategories),
    ("source", .ofText? rule.source),
    ("notes", .ofText? rule.notes)]

def toData (rule : Rule) : Except Error Data := do
  return .record (("text", .text (← rule.archivedText)) :: rule.fields)

end Rule

def SequenceStep.known : Assign SequenceStep := fun step name data =>
  among name [
    ("rule_id", do return { step with rule := ← asInt "rule_id" data }),
    ("alternative_id", do
      return { step with alternative := ← orNull (asInt "alternative_id") data }),
    ("optional", do return { step with optional := ← asFlag "optional" data }),
    ("dispreferred", do return { step with dispreferred := ← asFlag "dispreferred" data })]

def SequenceStep.ofData (data : Data) : Except Error SequenceStep := do
  build known { rule := 0 } ["rule_id"] (← asFields "step" data)

def SequenceStep.toData (step : SequenceStep) : Data :=
  .record [
    ("rule_id", .integer step.rule),
    ("alternative_id", .ofInt? step.alternative),
    ("optional", .flag step.optional),
    ("dispreferred", .flag step.dispreferred)]

/-- The fields of a sequence that say nothing about its languages and steps. -/
def RuleSequence.known : Assign RuleSequence := fun sequence name data =>
  among name [
    ("name", do return { sequence with name := ← asText "name" data }),
    ("source", do return { sequence with source := ← orNull (asText "source") data }),
    ("notes", do return { sequence with notes := ← orNull (asText "notes") data })]

def RuleSequence.toData (sequence : RuleSequence) : Data :=
  .record [
    ("id", .integer sequence.id),
    ("name", .text sequence.name),
    ("from_language", .text sequence.fromLanguage),
    ("to_language", .text sequence.toLanguage),
    ("steps", .list (sequence.steps.map SequenceStep.toData)),
    ("source", .ofText? sequence.source),
    ("notes", .ofText? sequence.notes)]

def Grid.known : Assign Grid := fun grid name data =>
  among name [
    ("row_titles", do return { grid with rowTitles := ← asTexts "row_titles" data }),
    ("column_titles", do
      return { grid with columnTitles := ← asTexts "column_titles" data }),
    ("cells", do
      return { grid with cells := ← asList "cells" (asList "cells" (asInts "cells")) data })]

def Paradigm.known : Assign Paradigm := fun paradigm name data =>
  match Grid.known paradigm.grid name data with
  | some grid => some do return { paradigm with grid := ← grid }
  | none =>
    among name [
      ("id", do return { paradigm with id := ← asInt "id" data }),
      ("name", do return { paradigm with name := ← asText "name" data }),
      ("language", do return { paradigm with language := ← asText "language" data }),
      ("pos", do return { paradigm with partsOfSpeech := ← asTexts "pos" data })]

def Paradigm.ofData (data : Data) : Except Error Paradigm := do
  build known { id := 0, name := [], language := [] } ["id", "name", "language"]
    (← asFields "paradigm" data)

def Paradigm.toData (paradigm : Paradigm) : Data :=
  .record [
    ("id", .integer paradigm.id),
    ("name", .text paradigm.name),
    ("language", .text paradigm.language),
    ("pos", .ofTexts paradigm.partsOfSpeech),
    ("row_titles", .ofTexts paradigm.grid.rowTitles),
    ("column_titles", .ofTexts paradigm.grid.columnTitles),
    ("cells", .list (paradigm.grid.cells.map fun row => .list (row.map Data.ofInts)))]

namespace Link

/-- The kind of link that a name stands for; any other name is an invalid value. -/
def kindOf (data : Data) : Except Error LinkKind := do
  match LinkKind.ofName? (← asText "type" data) with
  | some kind => return kind
  | none => throw (.invalidValue "type")

/-- The kind of link that a value names; it has to be one. -/
def requireKind (data : Data) : Except Error LinkKind :=
  match data with
  | .text name =>
    match LinkKind.ofName? name with
    | some kind => .ok kind
    | none => .error (.unknownLinkType name)
  | data => .error (.unknownLinkType data.label)

def known : Assign Link := fun link name data =>
  among name [
    ("from_id", do return { link with source := ← asInt "from_id" data }),
    ("to_id", do return { link with target := ← asInt "to_id" data }),
    ("type", do return { link with kind := ← kindOf data }),
    ("rule_ids", do return { link with rules := ← asInts "rule_ids" data }),
    ("sequence_id", do
      return { link with sequence := ← orNull (asInt "sequence_id") data }),
    ("source", do return { link with reference := ← orNull (asText "source") data }),
    ("notes", do return { link with notes := ← orNull (asText "notes") data })]

def ofFields (fields : Fields) : Except Error Link :=
  build known { source := 0, target := 0 } ["from_id", "to_id"] fields

def ofData (data : Data) : Except Error Link := do
  ofFields (← asFields "link" data)

def toData (link : Link) : Data :=
  .record [
    ("from_id", .integer link.source),
    ("to_id", .integer link.target),
    ("type", .text link.kind.name),
    ("rule_ids", .ofInts link.rules),
    ("sequence_id", .ofInt? link.sequence),
    ("source", .ofText? link.reference),
    ("notes", .ofText? link.notes)]

end Link

def Compound.toData (compound : Compound) : Data :=
  .record [
    ("id", .integer compound.id),
    ("compound_id", .integer compound.whole),
    ("component_ids", .ofInts compound.components)]

end Diachrony
