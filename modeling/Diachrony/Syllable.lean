import Diachrony.Inventory

/-!
Syllables: the stretches of a row of segments that each hold one nucleus.

A nucleus is a vowel, or two neighbouring vowels that make a diphthong. Of the
consonants between two nuclei a single one opens the later syllable; of more,
the first closes the earlier one. What stands before the first nucleus or behind
the last one belongs to it.
-/
namespace Diachrony

/-- A stretch of segments from `start` up to, and without, `stop`. -/
structure Syllable where
  start : Nat
  stop : Nat
  deriving DecidableEq

def Syllable.holds (syllable : Syllable) (index : Int) : Bool :=
  syllable.start ≤ index && index < syllable.stop

namespace Syllable

/-- Syllables under construction: those found, last first, where the next one
will start, the consonants since the last nucleus, and the vowel just read if a
diphthong could begin with it. -/
structure Draft where
  found : List Syllable := []
  start : Nat := 0
  consonants : Nat := 0
  vowel : Option Text := none

namespace Draft

def lengthen (draft : Draft) : Draft :=
  match draft.found with
  | [] => draft
  | syllable :: found =>
    { draft with
      found := { syllable with stop := syllable.stop + 1 } :: found
      start := draft.start + 1 }

/-- Reads a vowel at an index: the second half of a diphthong, or a nucleus. -/
def addVowel (diphthongs : List Text) (draft : Draft) (index : Nat) (text : Text) :
    Draft :=
  let closesDiphthong := draft.vowel.any fun vowel => diphthongs.contains (vowel ++ text)
  if closesDiphthong then { draft.lengthen with vowel := none }
  else
    { found := ⟨draft.start, index + 1⟩ :: draft.found
      start := index + 1
      consonants := 0
      vowel := some text }

/-- Reads a consonant. The second one since a nucleus shows that the first one
closes the syllable of that nucleus. -/
def addConsonant (draft : Draft) : Draft :=
  let counted := { draft with consonants := draft.consonants + 1, vowel := none }
  if counted.consonants = 2 then counted.lengthen else counted

def addSegments (diphthongs : List Text) : Draft → Nat → List Segment → Draft
  | draft, _, [] => draft
  | draft, index, segment :: segments =>
    let draft :=
      if segment.isVowel then draft.addVowel diphthongs index segment.text
      else draft.addConsonant
    addSegments diphthongs draft (index + 1) segments

/-- The syllables of a finished draft; the last one reaches to the end. -/
def finish (draft : Draft) (length : Nat) : List Syllable :=
  match draft.found with
  | [] => []
  | syllable :: found => ({ syllable with stop := length } :: found).reverse

end Draft

def ofSegments (diphthongs : List Text) (segments : List Segment) : List Syllable :=
  (Draft.addSegments diphthongs {} 0 segments).finish segments.length

end Syllable

end Diachrony
