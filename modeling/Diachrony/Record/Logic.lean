import Diachrony.Logic
import Diachrony.Record

/-!
The logic of rules as records, part by part.

A record says which kind of thing a part is and lists what there is of it; what is
absent is left out. Nothing is checked that a written rule has to keep to, so a record
may stand for a logic that no text is read as.
-/
namespace Diachrony

open Record

namespace Record

def present (fields : Fields) : Fields :=
  fields.filter fun field =>
    match field.2 with
    | .null => false
    | _ => true

def part? {α : Type} (read : Data → Except Error α) (fields : Fields) (name : Text) :
    Except Error (Option α) :=
  orNull read (getOrNull fields name)

/-- A list of parts; where there is none, it is empty. -/
def parts {α : Type} (read : Data → Except Error α) (fields : Fields) (name : Text) :
    Except Error (List α) := do
  return (← part? (asList name read) fields name).getD []

def text? (fields : Fields) (name : Text) : Except Error (Option Text) :=
  part? (asText name) fields name

def int? (fields : Fields) (name : Text) : Except Error (Option Int) :=
  part? (asInt name) fields name

def isSet (fields : Fields) (name : Text) : Except Error Bool := do
  return (← part? (asFlag name) fields name).getD false

def named {α : Type} (name : α → Text) (every : List α) (data : Data) : Except Error α := do
  let wanted ← asText "kind" data
  match every.find? fun value => name value == wanted with
  | some value => return value
  | none => throw (.unknownKind wanted)

end Record

/-- The record of a pattern: its literal, or else its class. -/
def SoundPattern.toData (pattern : SoundPattern) : Data :=
  match pattern.literal with
  | some text => .record [("literal", .text text)]
  | none => .record [("class", .ofText? pattern.soundClass)]

def SoundPattern.ofData (data : Data) : Except Error SoundPattern := do
  let fields ← asFields "pattern" data
  return { literal := ← text? fields "literal", soundClass := ← text? fields "class" }

/-- The record of the n-th sound of a class. -/
def SeekTarget.toData (target : SeekTarget) : Data :=
  .record [("ordinal", .integer target.ordinal), ("class", .ofText? target.soundClass)]

/-- The n-th sound of a class from its record. -/
def SeekTarget.ofData (data : Data) : Except Error SeekTarget := do
  let fields ← asFields "seek" data
  return {
    ordinal := ← asInt "ordinal" (← require fields "ordinal")
    soundClass := ← text? fields "class" }

def Test.every : List Test :=
  [.otherwise, .sound .here, .sound .next, .sound .previous, .atEdge .beginning,
    .atEdge .ending, .inStressedSyllable, .wordEdge .ending, .wordEdge .beginning,
    .wordClass, .syllableCount, .stressOn, .syllable .anywhere, .syllable .ending, .seek]

def Test.name : Test → Text
  | .otherwise => "otherwise"
  | .sound .here => "sound is"
  | .sound .next => "next sound is"
  | .sound .previous => "previous sound is"
  | .atEdge edge => edge.place
  | .inStressedSyllable => "syllable is stressed"
  | .wordEdge .ending => "word ends with"
  | .wordEdge .beginning => "word begins with"
  | .wordClass => "word is"
  | .syllableCount => "number of syllables is"
  | .stressOn => "stress is on"
  | .syllable .anywhere => "syllable contains"
  | .syllable .ending => "syllable ends with"
  | .seek => "seek is"

def Comparison.every : List Comparison := [.equal, .different, .atLeast]

def Comparison.name : Comparison → Text
  | .equal => "is"
  | .different => "is not"
  | .atLeast => "is at least"

/-- The record of a predicate. A comparison is told only where numbers are compared. -/
def Predicate.toData (predicate : Predicate) : Data :=
  let comparison : Data :=
    if predicate.test = .syllableCount then .text predicate.comparison.name else .null
  let given : Fields := present [
    ("pattern", (predicate.pattern.map SoundPattern.toData).getD .null),
    ("seek", (predicate.seek.map SeekTarget.toData).getD .null),
    ("comparison", comparison),
    ("value", .ofText? predicate.value),
    ("number", .ofInt? predicate.number),
    ("ordinal", .ofInt? predicate.ordinal)]
  .record (("kind", .text predicate.test.name) :: ("negated", .flag predicate.negated) :: given)

def Predicate.ofFields (fields : Fields) : Except Error Predicate := do
  return {
    test := ← named Test.name Test.every (← require fields "kind")
    negated := ← isSet fields "negated"
    pattern := ← part? SoundPattern.ofData fields "pattern"
    value := ← text? fields "value"
    number := ← int? fields "number"
    comparison :=
      (← part? (named Comparison.name Comparison.every) fields "comparison").getD .equal
    ordinal := ← int? fields "ordinal"
    seek := ← part? SeekTarget.ofData fields "seek" }

namespace Condition

mutual

def toData : Condition → Data
  | holds predicate => predicate.toData
  | all members => .record [("all", .list (membersToData members))]
  | any members => .record [("any", .list (membersToData members))]

def membersToData : List Condition → List Data
  | [] => []
  | member :: members => toData member :: membersToData members

end

mutual

/-- A condition from its record: an "all" or an "any" if it has such members, or else a
predicate. -/
def ofData : Data → Except Error Condition
  | .record fields =>
    match membersUnder "all" fields, membersUnder "any" fields with
    | some members, _ => members.map all
    | none, some members => members.map any
    | none, none => (Predicate.ofFields fields).map holds
  | _ => .error (.invalidValue "condition")

def membersUnder (name : Text) :
    List (Text × Data) → Option (Except Error (List Condition))
  | [] => none
  | (known, .list members) :: fields =>
    if known = name then some (membersOfData members) else membersUnder name fields
  | _ :: fields => membersUnder name fields

def membersOfData : List Data → Except Error (List Condition)
  | [] => .ok []
  | member :: members => do
    return (← ofData member) :: (← membersOfData members)

end

end Condition

/-- The record of a slot: the edge, or else the literal sounds, or else the features. -/
def Slot.toData (slot : Slot) : Data :=
  if slot.boundary then .record [("boundary", .flag true)]
  else match slot.literal with
    | some text => .record [("literal", .text text)]
    | none => .record [("features", .ofTexts slot.features)]

def Slot.ofData (data : Data) : Except Error Slot := do
  let fields ← asFields "slot" data
  return {
    boundary := ← isSet fields "boundary"
    literal := ← text? fields "literal"
    features := ← parts (asText "features") fields "features" }

def SoundChange.toData (change : SoundChange) : Data :=
  let slots (row : List Slot) : Data := .list (row.map Slot.toData)
  .record [
    ("before", slots change.before),
    ("after", slots change.after),
    ("preceding", slots change.preceding),
    ("following", slots change.following)]

def SoundChange.ofData (data : Data) : Except Error SoundChange := do
  let slots := parts Slot.ofData (← asFields "sound change" data)
  return {
    before := ← slots "before"
    after := ← slots "after"
    preceding := ← slots "preceding"
    following := ← slots "following" }

def RuleRef.givenId (rule : RuleRef) : Data :=
  if rule.isFlag then .flag (rule.id != 0) else .integer rule.id

/-- The record of a reference: the id of the rule and its name. -/
def RuleRef.toData (rule : RuleRef) : Data := .list [rule.givenId, .text rule.name]

def RuleRef.ofData : Data → Except Error RuleRef
  | .list [id, name] => do
    return { id := ← asInt "rule" id, name := ← asText "rule" name }
  | _ => .error (.invalidValue "rule")

def Instruction.toData (instruction : Instruction) : Data :=
  .record (("kind", .text instruction.kind.name) :: present [
    ("argument", .ofText? instruction.argument),
    ("target", .ofText? instruction.target),
    ("ordinal", .ofInt? instruction.ordinal),
    ("seek", (instruction.seek.map SeekTarget.toData).getD .null),
    ("rule", (instruction.rule.map RuleRef.toData).getD .null),
    ("spe", (instruction.change.map SoundChange.toData).getD .null)])

def Instruction.ofData (data : Data) : Except Error Instruction := do
  let fields ← asFields "instruction" data
  return {
    kind := ← named InstructionKind.name InstructionKind.every (← require fields "kind")
    argument := ← text? fields "argument"
    target := ← text? fields "target"
    ordinal := ← int? fields "ordinal"
    seek := ← part? SeekTarget.ofData fields "seek"
    rule := ← part? RuleRef.ofData fields "rule"
    change := ← part? SoundChange.ofData fields "spe" }

def Instruction.rowData (instructions : List Instruction) : Data :=
  .list (instructions.map Instruction.toData)

def Instruction.rowOfData : Data → Except Error (List Instruction) :=
  asList "instructions" Instruction.ofData

def Branch.toData (branch : Branch) : Data :=
  .record [
    ("condition", branch.condition.toData),
    ("instructions", Instruction.rowData branch.instructions),
    ("comment", .ofText? branch.comment)]

def Branch.ofData (data : Data) : Except Error Branch := do
  let fields ← asFields "branch" data
  return {
    condition := ← Condition.ofData (← require fields "condition")
    instructions := ← Instruction.rowOfData (← require fields "instructions")
    comment := ← text? fields "comment" }

namespace Logic

/-- The record of a logic. It says of branches whether they ask anything of a sound. -/
def toData : Logic → Data
  | sequential instructions => .record [("sequential", Instruction.rowData instructions)]
  | branching opening branches =>
    .record [
      ("pre", Instruction.rowData opening),
      ("branches", .list (branches.map Branch.toData)),
      ("segment_level", .flag (branching opening branches).isSegmental)]

def ofData (data : Data) : Except Error Logic := do
  let fields ← asFields "logic" data
  match ← part? Instruction.rowOfData fields "sequential" with
  | some instructions => return sequential instructions
  | none =>
    return branching (← parts Instruction.ofData fields "pre")
      (← asList "branches" Branch.ofData (← require fields "branches"))

end Logic

end Diachrony
