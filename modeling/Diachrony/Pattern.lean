import Diachrony.ReadingFault
import Diachrony.Text.Blank

/-!
The smallest parts of a written rule: sounds and sound classes, ordinals, and
the n-th sound of a class. Each has one printed form, and is read from that
form and from the looser spellings that rule writers use.

What is read is always complete. Parts that were put together in another way need
not be: they may say too much or too little, and every part of the library says what
it makes of that.
-/
namespace Diachrony

open Text (after? before? quoteMark quoted trim squeeze isBlank joinWith)

/-- The content of a quoted text that holds no further quote mark. -/
def unquoted? : Text → Option Text
  | [] => none
  | mark :: rest =>
    if mark = quoteMark then
      (before? [quoteMark] rest).filter fun content => !content.contains quoteMark
    else none

def readLiteral (text : Text) : Except ReadingFault Text :=
  match unquoted? (trim text) with
  | some content => .ok content
  | none => .error (.literalExpected (trim text))

/-- What a sound is compared with: a literal, or a class expression, which is a
row of class names that must all hold. Where both are given, the literal counts. -/
structure SoundPattern where
  literal : Option Text := none
  soundClass : Option Text := none
  deriving DecidableEq

def afterArticle? (text : Text) : Option Text :=
  (["a", "an"] : List Text).findSome? fun article =>
    match after? article text with
    | some (char :: rest) =>
      if isBlank char then some (rest.dropWhile isBlank) else none
    | _ => none

def dropArticle (text : Text) : Text := (afterArticle? text).getD text

namespace SoundPattern

/-- The printed form: a literal between quote marks, a class as it is. -/
def print (pattern : SoundPattern) : Text :=
  match pattern.literal with
  | some text => quoted text
  | none => pattern.soundClass.getD []

/-- Reads a non-empty quoted literal or a class expression, before which an
article may stand. -/
def read (text : Text) : Except ReadingFault SoundPattern :=
  let text := trim text
  if text.head? = some quoteMark then
    match unquoted? text with
    | some (char :: content) => .ok { literal := some (char :: content) }
    | _ => .error (.malformedLiteral text)
  else
    let name := squeeze (dropArticle text)
    if name.isEmpty || name.contains quoteMark then .error (.soundExpected text)
    else .ok { soundClass := some name }

end SoundPattern

/-- A place counted from the beginning or from the end. -/
inductive Ordinal where
  | first | second | third | last | secondToLast | thirdToLast
  deriving DecidableEq

namespace Ordinal

def name : Ordinal → Text
  | first => "first"
  | second => "second"
  | third => "third"
  | last => "last"
  | secondToLast => "second to last"
  | thirdToLast => "third to last"

/-- The place as a number: from one upwards from the beginning, from minus one
downwards from the end. -/
def number : Ordinal → Int
  | first => 1
  | second => 2
  | third => 3
  | last => -1
  | secondToLast => -2
  | thirdToLast => -3

/-- All ordinals, those with longer names first, so that the name found first
at the beginning of a text is the longest one there. -/
def longestFirst : List Ordinal :=
  [secondToLast, thirdToLast, second, first, third, last]

def ofNumber? (number : Int) : Option Ordinal :=
  longestFirst.find? fun ordinal => ordinal.number == number

def nameOf? (number : Option Int) : Option Text :=
  (number.bind ofNumber?).map name

/-- The words for a number. Other numbers than those of ordinals have none. -/
def nameOf (number : Option Int) : Text := (nameOf? number).getD []

def ofName? (name : Text) : Option Ordinal :=
  longestFirst.find? fun ordinal => ordinal.name == name

/-- Every way of reading an ordinal and a space off the beginning of a text,
the longest name first. -/
def leads (text : Text) : List (Ordinal × Text) :=
  longestFirst.filterMap fun ordinal =>
    (after? (ordinal.name ++ [' ']) text).map fun rest => (ordinal, rest)

end Ordinal

/-- The offset among `count` places that a number stands for: from one upwards
counted from the beginning, otherwise an offset from the end. -/
def placeAmong? (number : Int) (count : Nat) : Option Nat :=
  let place := if 0 < number then number - 1 else count + number
  if 0 ≤ place && place < count then some place.toNat else none

/-- The n-th sound of a class, or of all sounds where no class is given. Sounds are
counted as by an ordinal. -/
structure SeekTarget where
  ordinal : Int
  soundClass : Option Text := none
  deriving DecidableEq

namespace SeekTarget

def anySound : Text := "sound"

/-- The printed form: the ordinal and the class. -/
def print (target : SeekTarget) : Text :=
  let name := match target.soundClass with
    | some (char :: name) => char :: name
    | _ => anySound
  Ordinal.nameOf target.ordinal ++ ' ' :: name

/-- Reads an ordinal and a class, before which an article may stand. -/
def read (text : Text) : Except ReadingFault SeekTarget :=
  let text := squeeze text
  let found? := (Ordinal.leads text).find? fun (_, name) => !name.isEmpty
  match found? with
  | none => .error (.seekTargetExpected text)
  | some (ordinal, name) =>
    let name := dropArticle name
    .ok ⟨ordinal.number, if name = anySound then none else some name⟩

end SeekTarget

end Diachrony
