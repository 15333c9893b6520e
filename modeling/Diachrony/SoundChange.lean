import Diachrony.Phoneme
import Diachrony.ReadingFault
import Diachrony.Text.Blank

/-!
Sound changes in the arrow notation: what becomes what, and between which
neighbours, as in `t -> d / V_V`.
-/
namespace Diachrony

open Text (after? cut? joinWith splitAt words isBlank occursIn)

/-- One slot of a sound change: the edge of the word, a run of literal sounds, or one
sound with the listed features. Where a slot is several of these, the edge counts
first and the literal sounds second. -/
structure Slot where
  boundary : Bool := false
  literal : Option Text := none
  features : List Text := []
  deriving DecidableEq

/-- A sound change: `before` becomes `after` between `preceding` and
`following`. -/
structure SoundChange where
  before : List Slot
  after : List Slot
  preceding : List Slot := []
  following : List Slot := []
  deriving DecidableEq

namespace Slot

def edge : Slot := { boundary := true }

def sounds (text : Text) : Slot := { literal := some text }

def featured (names : List Text) : Slot := { features := names }

/-- The capital letters that stand for one class each. -/
def shorthand? (char : Char) : Option Slot :=
  if char = 'C' then some (featured [consonantClass])
  else if char = 'V' then some (featured [vowelClass])
  else none

def printFeatures (names : List Text) : Text :=
  if names = [consonantClass] then "C"
  else if names = [vowelClass] then "V"
  else '[' :: joinWith "," names ++ [']']

def print (slot : Slot) : Text :=
  if slot.boundary then "#" else slot.literal.getD (printFeatures slot.features)

def printAll (slots : List Slot) : Text := slots.flatMap print

def printSide (slots : List Slot) : Text :=
  if (printAll slots).isEmpty then "0" else printAll slots

def closeRun (run : Text) (slots : List Slot) : List Slot :=
  if run.isEmpty then slots else sounds run :: slots

def readFeatures (content : Text) : Except ReadingFault Slot :=
  let names := splitAt ',' content
  if names.any List.isEmpty then
    .error (.emptyFeature ('[' :: content ++ [']']))
  else .ok (featured names)

/-- Reads slots behind a run of literal sounds. The first argument is the part
of an open feature list that has been read, if one is open. -/
def readBehind : Option Text → Text → Text → Except ReadingFault (List Slot)
  | some _, _, [] => .error .missingBracket
  | none, run, [] => .ok (closeRun run [])
  | some content, run, char :: text =>
    if char = ']' then do
      let slot ← readFeatures content
      return closeRun run (slot :: (← readBehind none [] text))
    else readBehind (some (content ++ [char])) run text
  | none, run, char :: text =>
    if char = '[' then readBehind (some []) run text
    else if char = '#' then do
      return closeRun run (edge :: (← readBehind none [] text))
    else match shorthand? char with
      | some slot => do
        return closeRun run (slot :: (← readBehind none [] text))
      | none =>
        if char = ']' || char = '_' || char = '/' || char = Text.quoteMark then
          .error (.unexpectedInSoundChange char)
        else readBehind none (run ++ [char]) text

/-- Reads a row of slots. Blanks mean nothing, and a zero is an empty row. -/
def readAll (text : Text) : Except ReadingFault (List Slot) :=
  let text := (words text).flatten
  if text = "0" then .ok [] else readBehind none [] text

end Slot

namespace SoundChange

def slots (change : SoundChange) : List Slot :=
  change.before ++ change.after ++ change.preceding ++ change.following

/-- The printed form; a context is printed where there is one. -/
def print (change : SoundChange) : Text :=
  let context : Text :=
    if change.preceding.isEmpty && change.following.isEmpty then []
    else " / ".toList ++ Slot.printAll change.preceding ++
      '_' :: Slot.printAll change.following
  Slot.printSide change.before ++ " -> ".toList ++ Slot.printSide change.after ++
    context

def readContext (text : Text) : Except ReadingFault (List Slot) :=
  if text.all isBlank then .ok [] else Slot.readAll text

/-- Cuts what stands behind the arrow into the new sounds and the two sides of
the context, if there is a context. -/
def cutContext (text : Text) :
    Except ReadingFault (Text × Option (Text × Text)) :=
  match cut? "/" text with
  | none => .ok (text, none)
  | some (after, context) =>
    match cut? "_" context with
    | none => .error .missingFocus
    | some sides => .ok (after, some sides)

/-- Refuses the sound changes that could not be carried out: without sounds,
with a word edge among the sounds, or with features for a sound that has no
counterpart before the change. -/
def checkSounds (before after : List Slot) : Except ReadingFault Unit :=
  if before.isEmpty && after.isEmpty then .error .noSounds
  else if (before ++ after).any Slot.boundary then
    .error .boundaryOutsideContext
  else
    match (after.drop before.length).find? fun slot => !slot.features.isEmpty with
    | some slot => .error (.featuresWithoutSound slot.print)
    | none => .ok ()

def read (text : Text) : Except ReadingFault SoundChange :=
  match cut? "->" text with
  | none => .error .missingArrow
  | some (beforeText, rest) => do
    let (afterText, context?) ← cutContext rest
    let before ← Slot.readAll beforeText
    let after ← Slot.readAll afterText
    let (precedingText, followingText) := context?.getD ([], [])
    let preceding ← readContext precedingText
    let following ← readContext followingText
    checkSounds before after
    return { before, after, preceding, following }

end SoundChange

end Diachrony
