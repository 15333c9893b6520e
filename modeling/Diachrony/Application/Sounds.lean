import Diachrony.Application.Conditions
import Diachrony.Application.References

/-!
Sound rules: every segment of a form is visited, and the first branch whose
condition holds there says what becomes of it.

Conditions always see the segments of the form before the rule, so all changes
happen at once.
-/
namespace Diachrony

namespace Frame

variable {σ : Type}

/-- The first phoneme of the language, by its primary spelling, whose tags are
exactly the given ones. -/
def phonemeTagged? (frame : Frame σ) (tags : List Text) : Option Text :=
  (frame.language.phonemes.find? fun phoneme => phoneme.tagged tags).map
    Phoneme.spelling

/-- The spelling of the phoneme that has one tag in exchange for another and
otherwise those of the segment at an index. -/
def exchangeClass? (frame : Frame σ) (word : Segmentation σ) (index : Nat)
    (source target : Text) : Except Error (Option Text) :=
  match word.segment? index with
  | none => .error (.noSuchSound index)
  | some segment =>
    match segment.phoneme with
    | none => .ok none
    | some phoneme =>
      if phoneme.tags.contains source then
        .ok (frame.phonemeTagged?
          (target :: phoneme.tags.filter fun tag => tag != source))
      else .ok none

/-- What an instruction makes of the segment at an index, which has become the
given text or has been dropped. Instructions about whole words change nothing. -/
def changeSegment (frame : Frame σ) (word : Segmentation σ) (index : Nat)
    (current : Option Text) (instruction : Instruction) : Work σ (Option Text) := do
  match instruction.kind with
  | .changeSound =>
    if index < word.length then return instruction.argument
    else throw (.noSuchSound index)
  | .dropSound =>
    if index < word.length then return none else throw (.noSuchSound index)
  | .changeClass =>
    frame.checkClassName instruction.argument
    frame.checkClassName instruction.target
    let source ← needed "class" instruction.argument
    let target ← needed "class" instruction.target
    match ← frame.exchangeClass? word index source target with
    | some replacement => return some replacement
    | none => return current
  | _ => return current

/-- What becomes of the segment at an index, if some branch is about it: its new
text, or nothing where it is dropped. -/
def segmentOutcome? (frame : Frame σ) (word : Segmentation σ) (form : WordForm)
    (branches : List Branch) (index : Nat) : Work σ (Option (Option Text)) := do
  match ← Question.firstBranch? frame { form, word, index := some index } branches with
  | none => return none
  | some branch =>
    let result ← branch.instructions.foldlM (frame.changeSegment word index)
      (word.segmentText? index)
    return some result

/-- What becomes of the segments at some indices, for those that some branch is
about. -/
def segmentOutcomes (frame : Frame σ) (word : Segmentation σ) (form : WordForm)
    (branches : List Branch) : List Nat → Work σ (List (Nat × Option Text))
  | [] => return []
  | index :: indices => do
    let outcome? ← frame.segmentOutcome? word form branches index
    let outcomes ← frame.segmentOutcomes word form branches indices
    match outcome? with
    | none => return outcomes
    | some outcome => return (index, outcome) :: outcomes

end Frame

/-- The stress of a form, an index that may count from the end, after some of its
segments were dropped: nothing if the stressed one was, otherwise moved by those
dropped before it. -/
def stressAfterDrops (results : List (Option Text)) (stressed : Int) :
    Except Error (Option Int) :=
  if results.length ≤ stressed then .ok none
  else match placeIn? results.length stressed with
    | none => .error (.noSuchSound stressed)
    | some place =>
      if (results[place]?).join.isNone then .ok none
      else .ok (some (stressed - ((results.take place).filter Option.isNone).length))

namespace Frame

variable {σ : Type}

def runSounds (frame : Frame σ) (branches : List Branch) (form : WordForm)
    (indices : Option (List Nat)) : Work σ Outcome := do
  let word ← frame.segmentation form
  let outcomes ← frame.segmentOutcomes word form branches
    (indices.getD (List.range word.length))
  if outcomes.isEmpty then return ⟨false, form⟩
  let results := word.segments.zipIdx.map fun (segment, index) =>
    (outcomes.lookup index).getD (some segment.text)
  let stressed ← match form.stressedIndex with
    | none => pure none
    | some index => stressAfterDrops results index
  let text := (results.filterMap id).flatten
  return ⟨true, form.withText (frame.withMarkOf form text) stressed⟩

end Frame

end Diachrony
