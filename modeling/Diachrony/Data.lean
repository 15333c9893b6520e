import Diachrony.Data.Double

/-!
Plain data: what a graph is archived as, and what the particulars of an error
are made of.
-/
namespace Diachrony

open Text (ofInt)

/-- A value without behaviour. A record keeps its fields in order. -/
inductive Data where
  | null
  | flag (value : Bool)
  | integer (value : Int)
  | decimal (value : Double)
  | text (value : Text)
  | list (items : List Data)
  | record (fields : List (Text × Data))

/-- What things are looked up by. A flag is the same key as the number it counts as, and
so is a number with a point that is whole. -/
inductive Key where
  | absent
  | number (value : Int)
  | fraction (value : Double)
  | text (value : Text)
  deriving DecidableEq

namespace Data

def ofText? : Option Text → Data
  | some value => text value
  | none => null

def ofInt? : Option Int → Data
  | some value => integer value
  | none => null

def ofTexts (values : List Text) : Data := list (values.map text)

def ofInts (values : List Int) : Data := list (values.map integer)

/-- The whole number that a value is, if it is one. A flag counts as zero or one. -/
def number? : Data → Option Int
  | integer number => some number
  | flag isSet => some (if isSet then 1 else 0)
  | decimal number => number.toInt?
  | _ => none

/-- What a value is looked up by. Nothing is looked up by lists and records. -/
def key? : Data → Option Key
  | null => some .absent
  | flag isSet => some (.number (if isSet then 1 else 0))
  | integer number => some (.number number)
  | decimal number => some ((number.toInt?.map .number).getD (.fraction number))
  | text value => some (.text value)
  | _ => none

def isText : Data → Bool
  | text _ => true
  | _ => false

def label : Data → Text
  | null => Text.absent
  | flag isSet => if isSet then "True" else "False"
  | integer number => ofInt number
  | decimal number => number.print
  | text value => value
  | list _ => "a list"
  | record _ => "a record"

/-- Whether a value says nothing: it is absent, empty, zero or unset. -/
def isBlank : Data → Bool
  | null => true
  | flag isSet => !isSet
  | integer number => number == 0
  | decimal number => number.mantissa == 0
  | text value => value.isEmpty
  | list items => items.isEmpty
  | record fields => fields.isEmpty

/-- Whether a whole number fits into a machine word, with or without a sign. -/
def fitsWord (number : Int) : Bool :=
  -0x8000000000000000 ≤ number && number < 0x10000000000000000

mutual

def fitsWords : Data → Bool
  | integer number => fitsWord number
  | list items => allFitWords items
  | record fields => fieldsFitWords fields
  | _ => true

def allFitWords : List Data → Bool
  | [] => true
  | item :: items => fitsWords item && allFitWords items

def fieldsFitWords : List (Text × Data) → Bool
  | [] => true
  | (_, value) :: fields => fitsWords value && fieldsFitWords fields

end

end Data

end Diachrony
