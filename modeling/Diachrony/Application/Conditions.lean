import Diachrony.Application.Frame

/-!
Conditions asked of a form, or of one segment of it.

The answer to a test may be that there is nothing to test: no such syllable, no
such sound. A predicate over such a test fails, whether it is denied or not.
-/
namespace Diachrony

open Text (lower endsWith startsWith)

/-- What a condition is asked of: a form, the segments of it, and the index of
the segment under consideration, if there is one. -/
structure Question (σ : Type := Inventories) where
  form : WordForm
  word : Segmentation σ
  index : Option Nat

namespace Question

variable {σ : Type}

def position (question : Question σ) : Except Error Nat :=
  match question.index with
  | some index => .ok index
  | none => .error .soundRequired

def endsLike (word : Segmentation σ) (pattern : SoundPattern) : Work σ Bool :=
  match pattern.literal with
  | some text => return endsWith (lower text) (lower word.text)
  | none => word.matchesAt (word.length - 1) pattern

def beginsLike (word : Segmentation σ) (pattern : SoundPattern) : Work σ Bool :=
  match pattern.literal with
  | some text => return startsWith (lower text) (lower word.text)
  | none => word.matchesAt 0 pattern

def syllableLike (word : Segmentation σ) (syllable : Syllable) (pattern : SoundPattern) :
    SyllablePart → Work σ Bool
  | .anywhere => word.matchesSpan syllable.start syllable.stop pattern
  | .ending =>
    match pattern.literal with
    | some text =>
      return endsWith (lower text) (lower (word.span syllable.start syllable.stop))
    | none => word.matchesAt (syllable.stop - 1) pattern

def stressLiesIn (syllable? : Option Syllable) (stressed? : Option Int) : Option Bool :=
  match syllable?, stressed? with
  | some syllable, some stressed => some (syllable.holds stressed)
  | _, _ => none

def placeOffset : SoundPlace → Int
  | .here => 0
  | .next => 1
  | .previous => -1

/-- Compares a number of syllables with another number. Where there is no other
number, the two are different. -/
def compareCount (comparison : Comparison) (count : Nat) (number : Option Int) :
    Except Error Bool :=
  match comparison with
  | .equal => .ok (number.any (· == (count : Int)))
  | .different => .ok (!number.any (· == (count : Int)))
  | .atLeast => do return (← needed "number" number) ≤ count

/-- Whether the sound at a place matches a pattern. There may be no such sound. -/
def soundLike (question : Question σ) (place : SoundPlace) (pattern : Option SoundPattern) :
    Work σ Bool := do
  let index := (← question.position) + placeOffset place
  if (question.word.segment? index).isNone then return false
  else question.word.matchesAt index (← needed "pattern" pattern)

def syllableAt? (question : Question σ) (ordinal : Option Int) :
    Except Error (Option Syllable) := do
  return question.word.syllableByNumber? (← needed "ordinal" ordinal)

/-- The answer to what a predicate asks, if there is something to ask it of. -/
def answer (frame : Frame σ) (question : Question σ) (predicate : Predicate) :
    Work σ (Option Bool) := do
  match predicate.test with
  | .otherwise => return some true
  | .sound place => return some (← question.soundLike place predicate.pattern)
  | .atEdge .beginning => return some ((← question.position) == 0)
  | .atEdge .ending => return some ((← question.position) + 1 == question.word.length)
  | .inStressedSyllable =>
    let syllable? := question.word.syllableAt? (← question.position)
    return some ((stressLiesIn syllable? (← question.word.stress)).getD false)
  | .wordEdge .ending =>
    return some (← endsLike question.word (← needed "pattern" predicate.pattern))
  | .wordEdge .beginning =>
    return some (← beginsLike question.word (← needed "pattern" predicate.pattern))
  | .wordClass => return some (question.form.isIn (← frame.wordClass predicate.value))
  | .syllableCount =>
    return some (← compareCount predicate.comparison question.word.syllables.length
      predicate.number)
  | .stressOn =>
    let syllable? ← question.syllableAt? predicate.ordinal
    return stressLiesIn syllable? (← question.word.stress)
  | .syllable part =>
    match ← question.syllableAt? predicate.ordinal with
    | none => return none
    | some syllable =>
      let pattern ← needed "pattern" predicate.pattern
      return some (← syllableLike question.word syllable pattern part)
  | .seek =>
    match ← question.word.seek (← needed "seek" predicate.seek) with
    | none => return none
    | some index =>
      return some (← question.word.matchesAt index (← needed "pattern" predicate.pattern))

def satisfiesPredicate (frame : Frame σ) (question : Question σ) (predicate : Predicate) :
    Work σ Bool := do
  match ← question.answer frame predicate with
  | none => return false
  | some held => return held != predicate.negated

mutual

/-- Whether a condition holds. Members are asked in order until one decides. -/
def satisfies (frame : Frame σ) (question : Question σ) : Condition → Work σ Bool
  | .holds predicate => question.satisfiesPredicate frame predicate
  | .all members => satisfiesEach frame question members
  | .any members => satisfiesSome frame question members

def satisfiesEach (frame : Frame σ) (question : Question σ) :
    List Condition → Work σ Bool
  | [] => return true
  | member :: members => do
    if ← satisfies frame question member then satisfiesEach frame question members
    else return false

def satisfiesSome (frame : Frame σ) (question : Question σ) :
    List Condition → Work σ Bool
  | [] => return false
  | member :: members => do
    if ← satisfies frame question member then return true
    else satisfiesSome frame question members

end

def firstBranch? (frame : Frame σ) (question : Question σ) :
    List Branch → Work σ (Option Branch)
  | [] => return none
  | branch :: branches => do
    if ← question.satisfies frame branch.condition then return some branch
    else question.firstBranch? frame branches

end Question

/-- What a form as a whole is asked. -/
def Frame.questionOf {σ : Type} (frame : Frame σ) (form : WordForm) : Work σ (Question σ) := do
  return { form, word := ← frame.segmentation form, index := none }

end Diachrony
