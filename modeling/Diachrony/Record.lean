import Diachrony.Error
import Diachrony.Table
import Diachrony.Text.Numeral

/-!
Reading the fields of records.

A field that has to be there and is not, and a value that does not suit the field,
are two different errors. Numbers and flags may be written in several ways; texts and
lists are taken as they are. Fields that nobody knows are passed over where a record
is read, and refused where a single field is assigned.
-/
namespace Diachrony

/-- The fields of a record, in order. -/
abbrev Fields := List (Text × Data)

namespace Record

def asText (field : Text) : Data → Except Error Text
  | .text value => .ok value
  | _ => .error (.invalidValue field)

def isInsideWord (number : Int) : Bool :=
  -0x8000000000000000 < number && number < 0x8000000000000000

def wholeNumber? : Data → Option Int
  | .integer value => some value
  | .flag isSet => some (if isSet then 1 else 0)
  | .decimal value => value.toInt?.filter isInsideWord
  | .text value => Text.toPlainInt? value
  | _ => none

def asInt (field : Text) (data : Data) : Except Error Int :=
  match wholeNumber? data with
  | some number => .ok number
  | none => .error (.invalidValue field)

def setWords : List Text := ["1", "on", "t", "true", "y", "yes"]

def unsetWords : List Text := ["0", "off", "f", "false", "n", "no"]

def flagOfWord? (word : Text) : Option Bool :=
  let word := word.map Char.toLower
  if setWords.contains word then some true
  else if unsetWords.contains word then some false
  else none

/-- The flag that a value stands for, if it stands for one. -/
def flag? : Data → Option Bool
  | .flag isSet => some isSet
  | .text word => flagOfWord? word
  | data =>
    match data.number? with
    | some 0 => some false
    | some 1 => some true
    | _ => none

def asFlag (field : Text) (data : Data) : Except Error Bool :=
  match flag? data with
  | some isSet => .ok isSet
  | none => .error (.invalidValue field)

def orNull {α : Type} (read : Data → Except Error α) : Data → Except Error (Option α)
  | .null => .ok none
  | data => do return some (← read data)

def asList {α : Type} (field : Text) (read : Data → Except Error α) :
    Data → Except Error (List α)
  | .list items => items.mapM read
  | _ => .error (.invalidValue field)

def asTexts (field : Text) : Data → Except Error (List Text) := asList field (asText field)

def asInts (field : Text) : Data → Except Error (List Int) := asList field (asInt field)

def asFields (field : Text) : Data → Except Error Fields
  | .record fields => .ok fields
  | _ => .error (.invalidValue field)

def get? (fields : Fields) (name : Text) : Option Data := fields.lookup name

def require (fields : Fields) (name : Text) : Except Error Data :=
  match get? fields name with
  | some data => .ok data
  | none => .error (.missingField name)

def getOrNull (fields : Fields) (name : Text) : Data := (get? fields name).getD .null

def without (names : List Text) (fields : Fields) : Fields :=
  fields.filter fun field => !names.contains field.1

/-- The things that a value is made of: the items of a list, the names of a record,
the characters of a text. Other values are not made of anything. -/
def itemsOf (field : Text) : Data → Except Error (List Data)
  | .list items => .ok items
  | .record fields => .ok (fields.map fun entry => .text entry.1)
  | .text value => .ok (value.map fun char => .text [char])
  | _ => .error (.unusableValue field)

def items (fields : Fields) (name : Text) : Except Error (List Data) :=
  match get? fields name with
  | none => .ok []
  | some data => itemsOf name data

def fieldOfPair (data : Data) : Except Error (Text × Data) := do
  match ← itemsOf "field" data with
  | [name, value] => return (name.label, value)
  | _ => throw .unpairedField

/-- The fields of a record, which may also be given as a list of pairs. A name that is
given twice takes its last value. -/
def fieldsOrPairs : Data → Except Error Fields
  | .record fields => .ok fields
  | data => do
    let pairs ← (← itemsOf "fields" data).mapM fieldOfPair
    return pairs.foldl (fun known (name, value) => Table.insertEntry name value known) []

def refuseWithout (names : List Text) (fields : Fields) : Except Error Unit :=
  match names.find? fun name => (get? fields name).isNone with
  | some name => .error (.invalidValue name)
  | none => .ok ()

/-- What assigning a field does to a value; nothing is known of other fields. -/
abbrev Assign (α : Type) := α → Text → Data → Option (Except Error α)

/-- Assigns one field, which has to be known. A name with an underscore in front is a note
of whoever assigns it, and changes nothing. -/
def assign {α : Type} (known : Assign α) (value : α) (name : Text) (data : Data) :
    Except Error α :=
  if name.head? = some '_' then .ok value
  else (known value name data).getD (.error (.invalidValue name))

def assignKnown {α : Type} (known : Assign α) (value : α) (fields : Fields) :
    Except Error α :=
  fields.foldlM (fun value (name, data) => (known value name data).getD (.ok value)) value

/-- Builds a value from the known ones of some fields, of which those with the
given names have to be there. -/
def build {α : Type} (known : Assign α) (start : α) (required : List Text)
    (fields : Fields) : Except Error α := do
  refuseWithout required fields
  assignKnown known start fields

def among {α : Type} (name : Text) (known : List (Text × Except Error α)) :
    Option (Except Error α) :=
  known.lookup name

end Record

end Diachrony
