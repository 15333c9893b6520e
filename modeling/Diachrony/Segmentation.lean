import Diachrony.Pattern
import Diachrony.Session
import Diachrony.Syllable

/-!
A word cut into segments and syllables, and the questions that conditions ask about
it: which classes a segment is in, where the syllables and the stress are, and where
the n-th sound of a class stands.

Which segment is stressed may have to be worked out by a rule, which may fail and may
make inventories on the way. So it is worked out only when a question depends on it,
and then the failure is the answer to that question.
-/
namespace Diachrony

open Text (endsWith occursIn)

/-- A word cut into segments and syllables by the inventory of a language. -/
structure Segmentation (σ : Type := Inventories) where
  inventory : Inventory
  text : Text
  segments : List Segment
  syllables : List Syllable
  /-- Works out the index of the stressed segment. -/
  stress : Work σ (Option Int)

/-- A stretch of text: its offset and its length. -/
structure Stretch where
  offset : Nat
  length : Nat
  deriving DecidableEq

namespace Segmentation

variable {σ : Type}

def ofText (inventory : Inventory) (text : Text)
    (stress : Work σ (Option Int)) : Segmentation σ :=
  let segments := inventory.segments text
  { inventory, text, segments, stress
    syllables := Syllable.ofSegments inventory.language.diphthongs segments }

def unstressed (inventory : Inventory) (text : Text) : Segmentation σ :=
  ofText inventory text (pure none)

def length (word : Segmentation σ) : Nat := word.segments.length

def segment? (word : Segmentation σ) (index : Int) : Option Segment :=
  match index with
  | .ofNat index => word.segments[index]?
  | .negSucc _ => none

def segmentText? (word : Segmentation σ) (index : Int) : Option Text :=
  (word.segment? index).map fun segment => segment.text

/-- The text from one segment up to another one. Indices below zero count from
the end. -/
def span (word : Segmentation σ) (start stop : Int) : Text :=
  let bound (index : Int) : Nat :=
    (if index < 0 then index + word.length else index).toNat
  ((word.segments.take (bound stop)).drop (bound start)).flatMap
    fun segment => segment.text

def syllableAt? (word : Segmentation σ) (index : Int) : Option Syllable :=
  word.syllables.find? fun syllable => syllable.holds index

/-- The n-th syllable, counted from the end for numbers that are not positive. -/
def syllableByNumber? (word : Segmentation σ) (number : Int) : Option Syllable :=
  (placeAmong? number word.syllables.length).bind fun place =>
    word.syllables[place]?

def firstVowel? (word : Segmentation σ) (syllable : Syllable) : Option Nat :=
  (List.range' syllable.start (syllable.stop - syllable.start)).find? fun index =>
    (word.segment? index).any Segment.isVowel

def inDiphthong (word : Segmentation σ) (index : Nat) : Bool :=
  let isDiphthong (text : Text) := word.inventory.language.diphthongs.contains text
  match word.segmentText? index with
  | none => false
  | some text =>
    isDiphthong text ||
      (word.segmentText? (index + 1)).any (fun next => isDiphthong (text ++ next)) ||
      (word.segmentText? (index - 1)).any fun previous => isDiphthong (previous ++ text)

/-- Whether a neighbour of a segment has the same text. -/
def isGeminate (word : Segmentation σ) (index : Nat) : Bool :=
  match word.segmentText? index with
  | none => false
  | some text =>
    word.segmentText? (index - 1) == some text ||
      word.segmentText? (index + 1) == some text

def inPositional (word : Segmentation σ) (index : Nat) : PositionalClass → Work σ Bool
  | .diphthong => return word.inDiphthong index
  | .stressed => do return (← word.stress) == some (index : Int)
  | .wordInitial => return index == 0
  | .wordFinal => return index + 1 == word.length
  | .syllableInitial =>
    return (word.syllableAt? index).any fun syllable => syllable.start == index
  | .syllableFinal =>
    return (word.syllableAt? index).any fun syllable => syllable.stop == index + 1
  | .geminate => return word.isGeminate index

def satisfies (word : Segmentation σ) (index : Nat) : ClassTerm → Work σ Bool
  | .tag name => return (word.segment? index).any fun segment => segment.hasClass name
  | .positional kind => word.inPositional index kind
  | .non term => do return !(← word.satisfies index term)

def satisfiesAll (word : Segmentation σ) (index : Nat) : List ClassTerm → Work σ Bool
  | [] => return true
  | term :: terms => do
    if ← word.satisfies index term then word.satisfiesAll index terms
    else return false

def patternTerms (inventory : Inventory) (pattern : SoundPattern) :
    Except Error (List ClassTerm) :=
  match pattern.soundClass with
  | some expression => inventory.classTerms expression
  | none => .error (.missingPart "class")

/-- Whether the segment at an index matches a pattern. No pattern matches
outside the word. -/
def matchesAt (word : Segmentation σ) (index : Int) (pattern : SoundPattern) :
    Work σ Bool :=
  match word.segment? index, pattern.literal with
  | none, _ => return false
  | some segment, some text => return segment.matchesLiteral text
  | some _, none => do
    word.satisfiesAll index.toNat (← patternTerms word.inventory pattern)

def matchesAmong (word : Segmentation σ) (pattern : SoundPattern) :
    List Int → Work σ Bool
  | [] => return false
  | index :: indices => do
    if ← word.matchesAt index pattern then return true
    else word.matchesAmong pattern indices

def indicesFrom (start stop : Int) : List Int :=
  (List.range (stop - start).toNat).map fun offset : Nat => start + (offset : Int)

/-- Whether a segment from one index up to another one matches a pattern. A
literal may also stand anywhere in the text of the whole span. -/
def matchesSpan (word : Segmentation σ) (start stop : Int) (pattern : SoundPattern) :
    Work σ Bool :=
  let inSpan := pattern.literal.any fun text => occursIn text (word.span start stop)
  if inSpan then return true
  else word.matchesAmong pattern (indicesFrom start stop)

/-- The indices of the segments that are all that a class expression asks for,
from a given index on. -/
def placesFrom (word : Segmentation σ) (terms : List ClassTerm) :
    Nat → List Segment → Work σ (List Nat)
  | _, [] => return []
  | index, _ :: segments => do
    let found ← word.satisfiesAll index terms
    let places ← word.placesFrom terms (index + 1) segments
    return if found then index :: places else places

/-- The indices at which a sought class is found. -/
def places (word : Segmentation σ) : Option Text → Work σ (List Nat)
  | none => return List.range word.length
  | some expression => do
    word.placesFrom (← word.inventory.classTerms expression) 0 word.segments

/-- The index of the n-th sound of a class. -/
def seek (word : Segmentation σ) (target : SeekTarget) : Work σ (Option Nat) := do
  let places ← word.places target.soundClass
  return (placeAmong? target.ordinal places.length).bind fun place => places[place]?

def stretchOf? (word : Segmentation σ) (index : Int) : Option Stretch :=
  (word.segment? index).map fun segment => ⟨segment.offset, segment.text.length⟩

def stressedStretch? (word : Segmentation σ) : Work σ (Option Stretch) := do
  return (← word.stress).bind word.stretchOf?

end Segmentation

end Diachrony
