import Diachrony.Error
import Diachrony.Language
import Diachrony.Text.Blank
import Diachrony.Text.LetterCase

/-!
The inventory of a language: how its spelling cuts a text into segments, and
which class names it knows.

Cutting is greedy. At each place the longest spelling that stands there makes a
segment, of equally long ones the first in the inventory, and where none stands
a single character does.
-/
namespace Diachrony

open Text (lower startsWith words joinWith)

/-- One sound of a text: its spelling there, its offset, and the phoneme it
is, unless the language has none for it. -/
structure Segment where
  text : Text
  offset : Nat
  phoneme : Option Phoneme

namespace Segment

/-- The classes of the phoneme; a segment without a phoneme is in none. -/
def classes (segment : Segment) : List Text :=
  match segment.phoneme with
  | some phoneme => phoneme.classes
  | none => []

def hasClass (segment : Segment) (name : Text) : Bool :=
  segment.classes.contains name

def isVowel (segment : Segment) : Bool := segment.hasClass vowelClass

/-- Whether a segment is meant by a literal: the spelling agrees, if need be in
lower case, or the literal is a spelling or the sound of the phoneme. -/
def matchesLiteral (segment : Segment) (literal : Text) : Bool :=
  segment.text == literal || lower segment.text == lower literal ||
    match segment.phoneme with
    | some phoneme =>
      phoneme.graphemes.contains literal || phoneme.sound == some literal
    | none => false

end Segment

/-- The classes that depend on where a segment stands in its word. -/
inductive PositionalClass where
  | diphthong | stressed | wordInitial | wordFinal
  | syllableInitial | syllableFinal | geminate
  deriving DecidableEq

namespace PositionalClass

def name : PositionalClass → Text
  | diphthong => "diphthong"
  | stressed => "stressed"
  | wordInitial => "word-initial"
  | wordFinal => "word-final"
  | syllableInitial => "syllable-initial"
  | syllableFinal => "syllable-final"
  | geminate => "geminate"

def every : List PositionalClass :=
  [diphthong, stressed, wordInitial, wordFinal, syllableInitial, syllableFinal,
    geminate]

def ofName? (name : Text) : Option PositionalClass :=
  every.find? fun positional => positional.name == name

end PositionalClass

/-- What a class name asks of a segment: a tag of its phoneme, a position, or
the opposite of something. -/
inductive ClassTerm where
  | tag (name : Text)
  | positional (kind : PositionalClass)
  | non (term : ClassTerm)
  deriving DecidableEq

/-- A language with what is worked out from its phonemes. -/
structure Inventory where
  language : Language
  /-- The lower-case spellings with their phonemes, longest first. -/
  spellings : List (Text × Phoneme)
  /-- The classes that some phoneme is in. -/
  tags : List Text

namespace Inventory

/-- The inventory of a language. Spellings of one length stay in the order of
the phonemes. -/
def ofLanguage (language : Language) : Inventory :=
  let spellings := language.phonemes.flatMap fun phoneme =>
    phoneme.graphemes.map fun grapheme => (lower grapheme, phoneme)
  { language
    spellings := (spellings.filter fun entry => !entry.1.isEmpty).mergeSort
      fun left right => right.1.length ≤ left.1.length
    tags := (language.phonemes.flatMap Phoneme.classes).eraseDups }

def spellingAt? (inventory : Inventory) (key : Text) : Option (Text × Phoneme) :=
  inventory.spellings.find? fun entry => startsWith entry.1 key

/-- Cuts a text, given along with the form of it in which spellings are looked
up, from an offset on. -/
def segmentsFrom (inventory : Inventory) (offset : Nat) :
    Text → Text → List Segment
  | [], _ => []
  | char :: text, key =>
    match inventory.spellingAt? key with
    | some (spelling, phoneme) =>
      { text := char :: text.take (spelling.length - 1), offset, phoneme := some phoneme } ::
        segmentsFrom inventory (offset + spelling.length)
          (text.drop (spelling.length - 1)) (key.drop spelling.length)
    | none =>
      { text := [char], offset, phoneme := none } ::
        segmentsFrom inventory (offset + 1) text (key.drop 1)
termination_by text => text.length
decreasing_by
  · simp only [List.length_drop, List.length_cons]
    omega
  · simp only [List.length_cons]
    omega

/-- The form of a text in which spellings are looked up: lower case, unless that
would change the number of characters. -/
def lookupForm (text : Text) : Text :=
  if (lower text).length = text.length then lower text else text

def segments (inventory : Inventory) (text : Text) : List Segment :=
  inventory.segmentsFrom 0 text (lookupForm text)

def hasClass (inventory : Inventory) (name : Text) : Bool :=
  inventory.tags.contains name || (PositionalClass.ofName? name).isSome

def classNames (inventory : Inventory) : List Text :=
  Text.sortedSet (inventory.tags ++ PositionalClass.every.map PositionalClass.name)

def undefinedClass (inventory : Inventory) (name : Text) : Error :=
  .undefinedName .phonemeClass (some name) inventory.language.shortName none

/-- What a single class name asks of a segment. A leading "non-" denies the name
behind it, unless it is part of the name of a class. -/
def classTerm (inventory : Inventory) : Text → Except Error ClassTerm
  | 'n' :: 'o' :: 'n' :: '-' :: inner =>
    if inventory.tags.contains ("non-".toList ++ inner) then
      .ok (.tag ("non-".toList ++ inner))
    else (inventory.classTerm inner).map .non
  | name =>
    match PositionalClass.ofName? name with
    | some positional => .ok (.positional positional)
    | none =>
      if inventory.tags.contains name then .ok (.tag name)
      else .error (inventory.undefinedClass name)

/-- What a class expression asks of a segment: everything that its names ask. -/
def classTerms (inventory : Inventory) (expression : Text) :
    Except Error (List ClassTerm) :=
  match words expression with
  | [] => .error (inventory.undefinedClass expression)
  | names => names.mapM inventory.classTerm

/-- The class name that a feature stands for. A sign in front of the name of a
class means the class or its opposite; any other feature is a name as it is. -/
def featureName (inventory : Inventory) (feature : Text) : Except Error Text :=
  let plain : Except Error Text :=
    if inventory.hasClass feature then .ok feature
    else .error (inventory.undefinedClass feature)
  match feature with
  | '+' :: char :: name =>
    if inventory.hasClass (char :: name) then .ok (char :: name) else plain
  | '-' :: char :: name =>
    if inventory.hasClass (char :: name) then .ok ("non-".toList ++ char :: name)
    else plain
  | _ => plain

def featureTerms (inventory : Inventory) (features : List Text) :
    Except Error (List ClassTerm) := do
  inventory.classTerms (joinWith " " (← features.mapM inventory.featureName))

end Inventory

end Diachrony
