import Diachrony.Proofs.Except
import Diachrony.Proofs.Text.Basic
import Diachrony.Record.Entity
import Diachrony.Record.Language

/-!
# Records that are read back

What is written as a record is read from it again, field by field; only the tags of
phonemes come back in the order in which they were listed.
-/
namespace Diachrony

namespace Record

variable {α β : Type}

theorem asText_text (field text : Text) : asText field (.text text) = .ok text := rfl

theorem asInt_integer (field : Text) (number : Int) : asInt field (.integer number) = .ok number := rfl

theorem asFlag_flag (field : Text) (isSet : Bool) : asFlag field (.flag isSet) = .ok isSet := rfl

theorem orNull_asText (field : Text) (text? : Option Text) :
    orNull (asText field) (.ofText? text?) = .ok text? := by
  cases text? <;> rfl

theorem orNull_asInt (field : Text) (number? : Option Int) :
    orNull (asInt field) (.ofInt? number?) = .ok number? := by
  cases number? <;> rfl

/-- A list whose items are read back is read back. -/
theorem asList_map (field : Text) {read : Data → Except Error β} {write : α → Data} {make : α → β}
    (reads : ∀ item, read (write item) = .ok (make item)) (items : List α) :
    asList field read (.list (items.map write)) = .ok (items.map make) := by
  change (items.map write).mapM read = _
  rw [List.mapM_map]
  exact Except.mapM_ok fun item _ => reads item

theorem asTexts_ofTexts (field : Text) (texts : List Text) :
    asTexts field (.ofTexts texts) = .ok texts := by
  have areRead := asList_map field (asText_text field) texts
  rwa [List.map_id'] at areRead

theorem asInts_ofInts (field : Text) (numbers : List Int) :
    asInts field (.ofInts numbers) = .ok numbers := by
  have areRead := asList_map field (asInt_integer field) numbers
  rwa [List.map_id'] at areRead

/-- What is built from a record is built from its fields. -/
theorem asFields_record (field : Text) (fields : Fields) (next : Fields → Except Error α) :
    (asFields field (.record fields) >>= next) = next fields := rfl

/-- The first field is assigned first. -/
theorem assignKnown_cons {known : Assign α} {value next : α} {name : Text} {data : Data}
    (isNext : known value name data = some (.ok next)) (fields : Fields) :
    assignKnown known value ((name, data) :: fields) = assignKnown known next fields := by
  unfold assignKnown
  rw [List.foldlM_cons]
  change ((known value name data).getD (.ok value) >>= fun next => List.foldlM _ next fields) = _
  rw [isNext]
  rfl

/-- A field that is not known is passed over. -/
theorem assignKnown_unknown {known : Assign α} {value : α} {name : Text} {data : Data}
    (isUnknown : known value name data = none) (fields : Fields) :
    assignKnown known value ((name, data) :: fields) = assignKnown known value fields := by
  unfold assignKnown
  rw [List.foldlM_cons]
  change ((known value name data).getD (.ok value) >>= fun next => List.foldlM _ next fields) = _
  rw [isUnknown]
  rfl

/-- What was read of a field is put in its place. -/
theorem known_of_read {known : Assign α} {value : α} {name : Text} {data : Data}
    {read : Data → Except Error β} {given : β} {put : β → α} (isRead : read data = .ok given)
    (isKnown : known value name data = some (do return put (← read data))) :
    known value name data = some (.ok (put given)) := by
  rw [isKnown, isRead]
  rfl

theorem assignKnown_read {known : Assign α} {value : α} {name : Text} {data : Data}
    {read : Data → Except Error β} {given : β} {put : β → α} (isRead : read data = .ok given)
    (isKnown : known value name data = some (do return put (← read data))) (fields : Fields) :
    assignKnown known value ((name, data) :: fields) = assignKnown known (put given) fields :=
  assignKnown_cons (known_of_read isRead isKnown) fields

theorem build_eq_assignKnown {known : Assign α} {start : α} {required : List Text} {fields : Fields}
    (areThere : refuseWithout required fields = .ok ()) :
    build known start required fields = assignKnown known start fields := by
  unfold build
  rw [areThere]
  rfl

end Record

open Record

def Word.fields (word : Word) : Fields :=
  [
    ("id", .integer word.id),
    ("text", .text word.text),
    ("language", .text word.language),
    ("gloss", .ofText? word.gloss),
    ("pos", .ofText? word.partOfSpeech),
    ("classes", .ofTexts word.classes),
    ("stressed_phoneme_index", .ofInt? word.stressedIndex),
    ("reconstructed", .flag word.reconstructed),
    ("source", .ofText? word.source),
    ("notes", .ofText? word.notes)]

theorem Word.assignKnown_fields (word : Word) :
    assignKnown known { id := word.id, language := word.language, text := [] }
      (("text", .text word.text) :: without ["id", "text", "language"] word.fields) = .ok word := by
  have areOthers : without ["id", "text", "language"] word.fields = word.fields.drop 3 := rfl
  rw [areOthers]
  unfold fields
  rw [assignKnown_read (asText_text "text" word.text) rfl]
  simp only [List.drop_succ_cons, List.drop_zero]
  rw [assignKnown_read (orNull_asText "gloss" word.gloss) rfl]
  rw [assignKnown_read (orNull_asText "pos" word.partOfSpeech) rfl]
  rw [assignKnown_read (asTexts_ofTexts "classes" word.classes) rfl]
  rw [assignKnown_read (orNull_asInt "stressed_phoneme_index" word.stressedIndex) rfl]
  rw [assignKnown_read (asFlag_flag "reconstructed" word.reconstructed) rfl]
  rw [assignKnown_read (orNull_asText "source" word.source) rfl]
  rw [assignKnown_read (orNull_asText "notes" word.notes) rfl]
  rfl

/-- The details of a rule are read back; the other fields of its record are passed over. -/
theorem Rule.assignKnown_fields (rule : Rule) (text : Data) :
    assignKnown detailsKnown
      { rule with addedCategories := none, replacedCategories := none, source := none, notes := none }
      (("text", text) :: rule.fields) = .ok rule := by
  unfold fields
  iterate 5 rw [assignKnown_unknown rfl]
  rw [assignKnown_read (orNull_asText "added_categories" rule.addedCategories) rfl]
  rw [assignKnown_read (orNull_asText "replaced_categories" rule.replacedCategories) rfl]
  rw [assignKnown_read (orNull_asText "source" rule.source) rfl]
  rw [assignKnown_read (orNull_asText "notes" rule.notes) rfl]
  rfl

theorem SequenceStep.ofData_toData (step : SequenceStep) : ofData step.toData = .ok step := by
  unfold ofData toData
  rw [asFields_record, build_eq_assignKnown rfl]
  rw [assignKnown_read (asInt_integer "rule_id" step.rule) rfl]
  rw [assignKnown_read (orNull_asInt "alternative_id" step.alternative) rfl]
  rw [assignKnown_read (asFlag_flag "optional" step.optional) rfl]
  rw [assignKnown_read (asFlag_flag "dispreferred" step.dispreferred) rfl]
  rfl

def RuleSequence.fields (sequence : RuleSequence) : Fields :=
  [
    ("id", .integer sequence.id),
    ("name", .text sequence.name),
    ("from_language", .text sequence.fromLanguage),
    ("to_language", .text sequence.toLanguage),
    ("steps", .list (sequence.steps.map SequenceStep.toData)),
    ("source", .ofText? sequence.source),
    ("notes", .ofText? sequence.notes)]

theorem RuleSequence.assignKnown_fields (sequence : RuleSequence) :
    assignKnown known { sequence with source := none, notes := none } sequence.fields =
      .ok sequence := by
  unfold fields
  rw [assignKnown_unknown rfl]
  rw [assignKnown_read (asText_text "name" sequence.name) rfl]
  iterate 3 rw [assignKnown_unknown rfl]
  rw [assignKnown_read (orNull_asText "source" sequence.source) rfl]
  rw [assignKnown_read (orNull_asText "notes" sequence.notes) rfl]
  rfl

theorem Paradigm.assignKnown_grid {paradigm : Paradigm} {name : Text} {data : Data} {grid : Grid}
    (isGrid : Grid.known paradigm.grid name data = some (.ok grid)) (fields : Fields) :
    assignKnown known paradigm ((name, data) :: fields) =
      assignKnown known { paradigm with grid } fields := by
  refine assignKnown_cons ?_ fields
  unfold known
  rw [isGrid]
  rfl

theorem Paradigm.ofData_toData (paradigm : Paradigm) : ofData paradigm.toData = .ok paradigm := by
  have areCells : asList "cells" (asList "cells" (asInts "cells"))
      (.list (paradigm.grid.cells.map fun row => .list (row.map Data.ofInts))) =
        .ok paradigm.grid.cells := by
    have areRows := asList_map "cells" (fun row => asList_map "cells" (asInts_ofInts "cells") row)
      paradigm.grid.cells
    simpa using areRows
  unfold ofData toData
  rw [asFields_record, build_eq_assignKnown rfl]
  rw [assignKnown_read (asInt_integer "id" paradigm.id) rfl]
  rw [assignKnown_read (asText_text "name" paradigm.name) rfl]
  rw [assignKnown_read (asText_text "language" paradigm.language) rfl]
  rw [assignKnown_read (asTexts_ofTexts "pos" paradigm.partsOfSpeech) rfl]
  rw [assignKnown_grid (known_of_read (asTexts_ofTexts "row_titles" paradigm.grid.rowTitles) rfl)]
  rw [assignKnown_grid
    (known_of_read (asTexts_ofTexts "column_titles" paradigm.grid.columnTitles) rfl)]
  rw [assignKnown_grid (known_of_read areCells rfl)]
  rfl

theorem Link.kindOf_name (kind : LinkKind) : kindOf (.text kind.name) = .ok kind := by
  cases kind <;> rfl

theorem Link.requireKind_name (kind : LinkKind) : requireKind (.text kind.name) = .ok kind := by
  cases kind <;> rfl

def Link.fields (link : Link) : Fields :=
  [
    ("from_id", .integer link.source),
    ("to_id", .integer link.target),
    ("type", .text link.kind.name),
    ("rule_ids", .ofInts link.rules),
    ("sequence_id", .ofInt? link.sequence),
    ("source", .ofText? link.reference),
    ("notes", .ofText? link.notes)]

/-- The rules may also be given in front of the other fields. -/
theorem Link.ofFields_fields (link : Link) :
    ofFields (("rule_ids", .ofInts link.rules) :: without ["rule_ids"] link.fields) = .ok link := by
  have areOthers : without ["rule_ids"] link.fields = link.fields.take 3 ++ link.fields.drop 4 := rfl
  rw [areOthers]
  unfold ofFields fields
  simp only [List.take_succ_cons, List.take_zero, List.drop_succ_cons, List.drop_zero,
    List.cons_append, List.nil_append]
  rw [build_eq_assignKnown rfl]
  rw [assignKnown_read (asInts_ofInts "rule_ids" link.rules) rfl]
  rw [assignKnown_read (asInt_integer "from_id" link.source) rfl]
  rw [assignKnown_read (asInt_integer "to_id" link.target) rfl]
  rw [assignKnown_read (kindOf_name link.kind) rfl]
  rw [assignKnown_read (orNull_asInt "sequence_id" link.sequence) rfl]
  rw [assignKnown_read (orNull_asText "source" link.reference) rfl]
  rw [assignKnown_read (orNull_asText "notes" link.notes) rfl]
  rfl

def Compound.fields (compound : Compound) : Fields :=
  [
    ("id", .integer compound.id),
    ("compound_id", .integer compound.whole),
    ("component_ids", .ofInts compound.components)]

def Phoneme.listedIn (order : SetOrder) (phoneme : Phoneme) : Phoneme :=
  { phoneme with tags := order.listed phoneme.tags }

def Language.listedIn (order : SetOrder) (language : Language) : Language :=
  { language with phonemes := language.phonemes.map (Phoneme.listedIn order) }

theorem Phoneme.known_graphemes (phoneme : Phoneme) (spelling : Text) (others : List Text) :
    known phoneme "graphemes" (.ofTexts (spelling :: others)) =
      some (.ok { phoneme with spelling, otherSpellings := others }) := by
  change some (asTexts "graphemes" (.ofTexts (spelling :: others)) >>= _) = _
  rw [asTexts_ofTexts]
  rfl

theorem Phoneme.ofData_toData (order : SetOrder) (phoneme : Phoneme) :
    ofData (phoneme.toData order) = .ok (phoneme.listedIn order) := by
  unfold ofData toData graphemes
  rw [asFields_record, build_eq_assignKnown rfl]
  rw [assignKnown_cons (known_graphemes _ phoneme.spelling phoneme.otherSpellings)]
  rw [assignKnown_read (orNull_asText "sound" phoneme.sound) rfl]
  rw [assignKnown_read (asTexts_ofTexts "classes" (order.listed phoneme.tags)) rfl]
  rw [assignKnown_read (asFlag_flag "historical" phoneme.historical) rfl]
  rfl

theorem CategoryEntry.ofData_toData (entry : CategoryEntry) : ofData entry.toData = .ok entry := by
  unfold ofData toData
  rw [asFields_record, build_eq_assignKnown rfl]
  rw [assignKnown_read (asText_text "name" entry.name) rfl]
  rw [assignKnown_read (asText_text "abbreviation" entry.abbreviation) rfl]
  rfl

theorem Category.ofData_toData (category : Category) : ofData category.toData = .ok category := by
  unfold ofData toData
  rw [asFields_record, build_eq_assignKnown rfl]
  rw [assignKnown_read (asText_text "name" category.name) rfl]
  rw [assignKnown_read (asTexts_ofTexts "pos" category.partsOfSpeech) rfl]
  rw [assignKnown_read (asList_map "values" CategoryEntry.ofData_toData category.entries) rfl]
  rw [List.map_id']
  rfl

theorem Language.shortNameOf_text {name : Text} (isNamed : name ≠ []) :
    shortNameOf (.text name) = .ok name := by
  cases name with
  | nil => exact absurd rfl isNamed
  | cons char name => rfl

theorem Language.ofData_toData (order : SetOrder) {language : Language}
    (isNamed : language.shortName ≠ []) :
    ofData (language.toData order) = .ok (language.listedIn order) := by
  have areCategories : ∀ (field : Text) (categories : List Category),
      asList field Category.ofData (.list (categories.map Category.toData)) = .ok categories := by
    intro field categories
    have areRead := asList_map field Category.ofData_toData categories
    rwa [List.map_id'] at areRead
  unfold ofData toData
  rw [asFields_record, build_eq_assignKnown rfl]
  rw [assignKnown_read (asText_text "name" language.name) rfl]
  rw [assignKnown_read (shortNameOf_text isNamed) rfl]
  rw [assignKnown_read (asList_map "phonemes" (Phoneme.ofData_toData order) language.phonemes) rfl]
  rw [assignKnown_read (asTexts_ofTexts "diphthongs" language.diphthongs) rfl]
  rw [assignKnown_read (asTexts_ofTexts "pos" language.partsOfSpeech) rfl]
  rw [assignKnown_read (areCategories "grammatical_categories" language.categories) rfl]
  rw [assignKnown_read (areCategories "word_classes" language.wordClasses) rfl]
  rw [assignKnown_read (orNull_asInt "stress_rule_id" language.stressRule) rfl]
  rw [assignKnown_read (orNull_asInt "phonotactics_rule_id" language.phonotacticsRule) rfl]
  rw [assignKnown_read (orNull_asInt "orthography_rule_id" language.orthographyRule) rfl]
  rfl

/-- What has come back is listed as a set of what was listed. -/
theorem Language.toData_listedIn (order later : SetOrder) (language : Language) :
    (language.listedIn order).toData later = language.toData (later.after order) := by
  have samePhonemes : (language.listedIn order).phonemes.map (fun phoneme => phoneme.toData later) =
      language.phonemes.map fun phoneme => phoneme.toData (later.after order) := by
    change (language.phonemes.map (Phoneme.listedIn order)).map _ = _
    rw [List.map_map]
    rfl
  unfold toData
  rw [samePhonemes]
  rfl

end Diachrony
