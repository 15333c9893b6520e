import Diachrony.Data

/-!
Ids as they were given.

An id is a whole number. It may be given as a flag, which counts as zero or one, or as a
number with a point; where it is shown it looks as it was given, and where it is looked
up it is the number that it stands for.
-/
namespace Diachrony

/-- An id as it was given. A number with a point need not be whole, though nothing is
stored under one that is not. -/
inductive GivenId where
  | whole (number : Int)
  | flag (isSet : Bool)
  | decimal (number : Double)
  deriving DecidableEq

namespace GivenId

def toData : GivenId → Data
  | whole number => .integer number
  | flag isSet => .flag isSet
  | decimal number => .decimal number

def ofData? : Data → Option GivenId
  | .integer number => some (whole number)
  | .flag isSet => some (flag isSet)
  | .decimal number => some (decimal number)
  | _ => none

def number? (id : GivenId) : Option Int := id.toData.number?

def label (id : GivenId) : Text := id.toData.label

/-- The least id that is free once all ids up to this one are taken. -/
def next : GivenId → Int
  | whole number => number + 1
  | flag isSet => if isSet then 2 else 1
  | decimal number => number.ceiling + 1

def isFlag : GivenId → Bool
  | flag _ => true
  | _ => false

/-- What was given is what is shown. -/
@[simp] theorem ofData?_toData (id : GivenId) : ofData? id.toData = some id := by
  cases id <;> rfl

end GivenId

end Diachrony
