import Diachrony.Pattern
import Diachrony.SoundChange

/-!
Instructions: the single steps of a rule, with their printed form and the
reader for the text of an instruction line.
-/
namespace Diachrony

open Text (after? before? cut? endsWith squeeze trim quoteMark quoted splitAt occursIn
  absent)

/-- A rule that another rule refers to. The reference was made by name, and the
id is what is followed. It shows as a flag if it was given as one. -/
structure RuleRef where
  id : Int
  name : Text
  isFlag : Bool := false
  deriving DecidableEq

/-- Finds the rule that a name refers to. -/
abbrev Resolver := Text → Option RuleRef

/-- The two sides of a word or of a sound in it. -/
inductive Side where
  | before | after
  deriving DecidableEq

inductive InstructionKind where
  | noChange | changeSound | dropSound | changeClass | changeEnding
  | attach (side : Side)
  | insert (side : Side)
  | stress | markClass | addCategory | replaceCategory
  | applyRule | applySoundRule | soundChange
  deriving DecidableEq

namespace InstructionKind

def isSegmental : InstructionKind → Bool
  | changeSound | dropSound | changeClass => true
  | _ => false

/-- Whether instructions of a kind are about a whole word. Those that change nothing
are about neither. -/
def isWordLevel (kind : InstructionKind) : Bool :=
  !kind.isSegmental && kind != noChange

def name : InstructionKind → Text
  | noChange => "no change"
  | changeSound => "new sound is"
  | dropSound => "sound disappears"
  | changeClass => "becomes"
  | changeEnding => "change ending to"
  | attach .after => "append"
  | attach .before => "prepend"
  | insert .before => "insert before"
  | insert .after => "insert after"
  | stress => "stress is on"
  | markClass => "mark word as"
  | addCategory => "add category"
  | replaceCategory => "replace category with"
  | applyRule => "apply rule"
  | applySoundRule => "apply sound rule"
  | soundChange => "sound change"

def every : List InstructionKind :=
  [noChange, changeSound, dropSound, changeClass, changeEnding, attach .after,
    attach .before, insert .before, insert .after, stress, markClass, addCategory,
    replaceCategory, applyRule, applySoundRule, soundChange]

end InstructionKind

/-- A single step of a rule: what it does, and what with. The argument is the text, the
class or the category values that come in, and the target is the class that replaces
another one. An attached sound is a copy of the sought one if one is sought. Parts that
a kind has no use for mean nothing, except that a rule always counts as referred to and
a sought class has to exist. -/
structure Instruction where
  kind : InstructionKind
  argument : Option Text := none
  target : Option Text := none
  ordinal : Option Int := none
  seek : Option SeekTarget := none
  rule : Option RuleRef := none
  change : Option SoundChange := none
  deriving DecidableEq

namespace Instruction

def sideLead : Side → Text
  | .before => " before "
  | .after => " after "

def printedOrdinals (instruction : Instruction) : List (Option Int) :=
  match instruction.kind with
  | .stress => [instruction.ordinal]
  | .attach _ | .insert _ | .applySoundRule =>
    instruction.seek.toList.map fun place => some place.ordinal
  | _ => []

def print (instruction : Instruction) : Text :=
  let name := instruction.kind.name
  let argument := instruction.argument.getD absent
  let place := (instruction.seek.map SeekTarget.print).getD absent
  let rule := quoted ((instruction.rule.map RuleRef.name).getD absent)
  match instruction.kind with
  | .noChange | .dropSound => name
  | .changeSound | .changeEnding => name ++ ' ' :: quoted argument
  | .changeClass => argument ++ " becomes ".toList ++ instruction.target.getD absent
  | .attach _ =>
    name ++ ' ' :: if instruction.seek.isSome then place else quoted argument
  | .insert side => "insert ".toList ++ quoted argument ++ sideLead side ++ place
  | .stress => name ++ ' ' :: Ordinal.nameOf instruction.ordinal ++ " syllable".toList
  | .markClass => name ++ ' ' :: argument
  | .addCategory | .replaceCategory => name ++ " .".toList ++ argument
  | .applyRule => name ++ ' ' :: rule
  | .applySoundRule => name ++ ' ' :: rule ++ " to ".toList ++ place
  | .soundChange => (instruction.change.map SoundChange.print).getD absent

/-- What a form of the notation makes of a line: nothing if the line is not of
this form, otherwise the instruction or what is wrong with it. -/
abbrev Form := Text → Option (Except ReadingFault Instruction)

def cutQuoted? : Text → Option (Text × Text)
  | [] => none
  | mark :: rest => if mark = quoteMark then cut? [quoteMark] rest else none

/-- A line that is one of the fixed phrases. -/
def readPhrase : Form := fun text =>
  ([InstructionKind.noChange, .dropSound].find? fun kind => kind.name == text).map
    fun kind => .ok { kind }

def readWithLiteral (verb : Text) (kind : InstructionKind) : Form := fun text => do
  let rest ← after? verb text
  return (readLiteral rest).map fun text => { kind, argument := some text }

def readAttach (side : Side) (verb : Text) : Form := fun text => do
  let rest ← after? verb text
  if rest.head? = some quoteMark then
    return (readLiteral rest).map fun text =>
      { kind := .attach side, argument := some text }
  else
    return (SeekTarget.read rest).map fun source =>
      { kind := .attach side, seek := some source }

def readInsert : Form := fun text => do
  let (content, rest) ← (after? "insert " text).bind cutQuoted?
  [Side.before, .after].findSome? fun side => do
    let place ← after? (sideLead side) rest
    if place.isEmpty then none
    else
      return (SeekTarget.read place).map fun place =>
        { kind := .insert side, argument := some content, seek := some place }

def readStress : Form := fun text => do
  let rest ← after? "stress is on " text
  let ordinal ← (before? " syllable" rest).bind Ordinal.ofName?
  return .ok { kind := .stress, ordinal := some ordinal.number }

def readMarkClass : Form := fun text => do
  let name ← after? "mark word as " text
  if name.isEmpty || name.contains quoteMark then
    return .error (.wordClassToMarkExpected name)
  else return .ok { kind := .markClass, argument := some name }

def readCategories (text : Text) : Except ReadingFault Text :=
  let names := (trim text).dropWhile (· == '.')
  if (splitAt '.' names).any List.isEmpty || names.contains ' ' then
    .error (.malformedCategory (trim text))
  else .ok names

def readWithCategories (verb : Text) (kind : InstructionKind) : Form := fun text => do
  let rest ← after? verb text
  return (readCategories rest).map fun names => { kind, argument := some names }

def resolve (resolver : Resolver) (name : Text) : Except ReadingFault RuleRef :=
  match resolver name with
  | some rule => .ok rule
  | none => .error (.noSuchRule name)

def readApplySoundRule (resolver : Resolver) : Form := fun text => do
  let (name, rest) ← (after? "apply sound rule " text).bind cutQuoted?
  let place ← after? " to " rest
  if place.isEmpty then none
  else return do
    let rule ← resolve resolver name
    let place ← SeekTarget.read place
    return { kind := .applySoundRule, rule := some rule, seek := some place }

def readApplyRule (resolver : Resolver) : Form := fun text => do
  let rest ← after? "apply rule " text
  return do
    let rule ← resolve resolver (← readLiteral rest)
    return { kind := .applyRule, rule := some rule }

def readSoundChange : Form := fun text =>
  if occursIn "->" text then
    some ((SoundChange.read text).map fun change =>
      { kind := .soundChange, change := some change })
  else none

/-- Cuts a line at the first "becomes", behind at least one character, that has
something to its right. -/
def cutAtBecomes? : Text → Option (Text × Text)
  | [] => none
  | char :: text =>
    match after? " becomes " text with
    | some (next :: target) => some ([char], next :: target)
    | _ => (cutAtBecomes? text).map fun (source, target) => (char :: source, target)

def readChangeClass : Form := fun text =>
  if text.contains quoteMark then none
  else (cutAtBecomes? text).map fun (source, target) =>
    .ok { kind := .changeClass, argument := some source, target := some target }

/-- The forms of the notation, in the order in which they are tried. -/
def forms (resolver : Resolver) : List Form :=
  [readPhrase, readWithLiteral "new sound is " .changeSound,
    readWithLiteral "change ending to " .changeEnding, readAttach .after "append ",
    readAttach .before "prepend ", readInsert, readStress, readMarkClass,
    readWithCategories "add category " .addCategory,
    readWithCategories "replace category with " .replaceCategory,
    readApplySoundRule resolver, readApplyRule resolver, readSoundChange,
    readChangeClass]

/-- Reads the text of an instruction line. Blanks between its words count as one
space, also inside quote marks. -/
def read (resolver : Resolver) (text : Text) : Except ReadingFault Instruction :=
  let line := squeeze text
  ((forms resolver).findSome? fun form => form line).getD
    (.error (.unknownInstruction line))

end Instruction

end Diachrony
