import Diachrony.Application.Categories
import Diachrony.Application.Conditions
import Diachrony.Application.SoundChanges

namespace Diachrony

namespace Frame

variable {σ : Type}

/-- The part of a text before a given ending was taken off by length. A length
beyond that of the text counts from the end again. -/
def stemOf (text : Text) (endingLength : Nat) : Text :=
  if endingLength ≤ text.length then text.take (text.length - endingLength)
  else text.take (2 * text.length - endingLength)

def stemBefore (word : Segmentation σ) (pattern : SoundPattern) : Text :=
  match pattern.literal with
  | some text => stemOf word.text text.length
  | none => word.text.take ((word.segments.getLast?.map Segment.offset).getD 0)

def firstStem? (word : Segmentation σ) : List SoundPattern → Work σ (Option Text)
  | [] => return none
  | pattern :: patterns => do
    if ← Question.endsLike word pattern then return some (stemBefore word pattern)
    else firstStem? word patterns

/-- Exchanges the ending that the condition of the branch asked for. -/
def changeEnding (frame : Frame σ) (branch : Option Branch) (ending : Option Text)
    (form : WordForm) : Work σ WordForm :=
  match branch with
  | none => return form
  | some branch => do
    let endings := branch.condition.predicates.filterMap Predicate.endingPattern?
    match ← firstStem? (← frame.segmentation form) endings with
    | some stem => return form.withText (stem ++ (← needed "ending" ending))
    | none => return form

/-- The text that is attached to a form: the given one or a copy of the sought sound, if
there is such a sound. -/
def affix? (frame : Frame σ) (instruction : Instruction) (form : WordForm) :
    Work σ (Option Text) :=
  match instruction.seek with
  | none => do return some (← needed "text" instruction.argument)
  | some source => do
    let word ← frame.segmentation form
    return (← word.seek source).bind fun index => word.segmentText? index

/-- Attaches text to a form, in place of the morpheme mark at its end. -/
def attach (frame : Frame σ) (side : Side) (instruction : Instruction) (form : WordForm) :
    Work σ WordForm := do
  let bare := bareText frame.marker form.text
  match ← frame.affix? instruction form, side with
  | none, _ => return form
  | some addition, .after => return form.withText (bare ++ addition)
  | some addition, .before => return form.withText (addition ++ bare)

def insert (frame : Frame σ) (side : Side) (instruction : Instruction) (form : WordForm) :
    Work σ WordForm := do
  let word ← frame.segmentation form
  let place ← needed "seek" instruction.seek
  match (← word.seek place).bind fun index => word.segment? index with
  | none => return form
  | some segment =>
    let text ← needed "text" instruction.argument
    let offset := match side with
      | .before => segment.offset
      | .after => segment.offset + segment.text.length
    return form.withText (Text.replaceAt offset 0 text form.text)

def moveStress (frame : Frame σ) (ordinal : Int) (form : WordForm) : Work σ WordForm := do
  let word ← frame.segmentation form
  match (word.syllableByNumber? ordinal).bind word.firstVowel? with
  | none => return form
  | some index => return { form with stressedIndex := some (index : Int) }

def markClass (frame : Frame σ) (key : Option Text) (form : WordForm) :
    Except Error WordForm := do
  let wordClass ← frame.wordClass key
  if form.isIn wordClass then return form
  else return { form with classes := form.classes ++ [wordClass.abbreviation] }

def callRule (frame : Frame σ) (rule : Int) (extent : Extent) (form : WordForm) :
    Work σ WordForm := do
  return (← frame.call rule extent form).form

/-- Applies a sound rule at a sought sound only. Any other rule is applied to the
word. -/
def applySoundRule (frame : Frame σ) (rule : Int) (place : Option SeekTarget)
    (form : WordForm) : Work σ WordForm := do
  if (← frame.graph.rule rule).logic.isSegmental then
    match ← (← frame.segmentation form).seek (← needed "seek" place) with
    | none => return form
    | some index => frame.callRule rule (.oneSound index) form
  else frame.callRule rule .wholeWord form

def changeByCitation (frame : Frame σ)
    (change : List CategoryValue → CategoryValue → List CategoryValue)
    (instruction : Instruction) (form : WordForm) : Except Error WordForm :=
  changeCategories change frame.language [] form (citedCategories instruction.argument)

def carryOut (frame : Frame σ) (branch : Option Branch) (form : WordForm)
    (instruction : Instruction) : Work σ WordForm := do
  match instruction.kind with
  | .noChange => return form
  | .changeEnding => frame.changeEnding branch instruction.argument form
  | .attach side => frame.attach side instruction form
  | .insert side => frame.insert side instruction form
  | .stress => frame.moveStress (← needed "ordinal" instruction.ordinal) form
  | .markClass => frame.markClass instruction.argument form
  | .addCategory => frame.changeByCitation addCategory instruction form
  | .replaceCategory => frame.changeByCitation replaceCategory instruction form
  | .applyRule => frame.callRule (← needed "rule" instruction.rule).id .wholeWord form
  | .applySoundRule =>
    frame.applySoundRule (← needed "rule" instruction.rule).id instruction.seek form
  | .soundChange => frame.changeSounds (← needed "sound change" instruction.change) form
  | .changeSound | .dropSound | .changeClass =>
    throw (.notAboutWords instruction.kind.name)

def carryOutAll (frame : Frame σ) (branch : Option Branch) (form : WordForm)
    (instructions : List Instruction) : Work σ WordForm :=
  instructions.foldlM (frame.carryOut branch) form

end Frame

end Diachrony
