import Diachrony.Application.Frame

/-!
Sound changes in the arrow notation, carried out on a form.

The form is searched from left to right for places where the old sounds stand
between the right neighbours; matches do not overlap. Sounds and neighbours are
those of the form before the change.
-/
namespace Diachrony

/-- A piece of the text after a sound change, and the index of the segment it
continues, if it continues one. -/
structure Piece where
  source : Option Nat
  text : Text
  deriving DecidableEq

namespace Frame

variable {σ : Type}

/-- One slot for each segment: runs of literal sounds are cut like words. -/
def splitSlots (frame : Frame σ) (slots : List Slot) : List Slot :=
  slots.flatMap fun slot =>
    match slot.literal with
    | some text => (frame.inventory.segments text).map fun segment => .sounds segment.text
    | none => [slot]

def fillsSlot (frame : Frame σ) (word : Segmentation σ) (slot : Slot) (index : Nat) :
    Work σ Bool :=
  match slot.literal with
  | some text =>
    return (word.segment? index).any fun segment => segment.matchesLiteral text
  | none => do
    word.satisfiesAll index (← frame.inventory.featureTerms slot.features)

def matchForward? (frame : Frame σ) (word : Segmentation σ) :
    List Slot → Nat → Work σ (Option Nat)
  | [], index => return some index
  | slot :: slots, index => do
    if slot.boundary then
      if index = word.length then frame.matchForward? word slots index else return none
    else if index < word.length then
      if ← frame.fillsSlot word slot index then
        frame.matchForward? word slots (index + 1)
      else return none
    else return none

/-- Whether segments fill some slots, given last first, up to an index. -/
def matchesBackward (frame : Frame σ) (word : Segmentation σ) :
    List Slot → Nat → Work σ Bool
  | [], _ => return true
  | slot :: slots, index => do
    if slot.boundary then
      if index = 0 then frame.matchesBackward word slots index else return false
    else match index with
      | 0 => return false
      | index + 1 =>
        if ← frame.fillsSlot word slot index then
          frame.matchesBackward word slots index
        else return false

/-- The primary spelling among some phonemes that has all features when it
stands alone, and that is closest to a phoneme; the first of those. -/
def closestSpelling? (frame : Frame σ) (terms : List ClassTerm) (phoneme : Phoneme)
    (phonemes : List Phoneme) : Work σ (Option (Nat × Text)) :=
  phonemes.foldlM (fun best candidate => do
    let alone := (Segmentation.unstressed frame.inventory candidate.spelling : Segmentation σ)
    if alone.length = 1 then
      if ← alone.satisfiesAll 0 terms then
        let distance := candidate.distance phoneme
        if best.all fun found => distance < found.1 then
          return some (distance, candidate.spelling)
    return best) none

/-- What a slot of the new sounds writes for the segment it continues: its literal
sounds, or the spelling of the phoneme closest to that of the segment that has the
features. -/
def slotOutput (frame : Frame σ) (word : Segmentation σ) (slot : Slot)
    (source : Option Nat) : Work σ Text :=
  match slot.literal, source with
  | some text, _ => return text
  | none, none => throw (.inRule (.featuresWithoutSound slot.print) .null none)
  | none, some index =>
    match word.segment? index with
    | none => throw (.noSuchSound index)
    | some segment =>
      match segment.phoneme with
      | none => return segment.text
      | some phoneme => do
        let terms ← frame.inventory.featureTerms slot.features
        let closest? ← frame.closestSpelling? terms phoneme
          frame.inventory.language.phonemes
        return (closest?.map Prod.snd).getD segment.text

/-- The pieces that the new sounds write for a match at an index. The k-th new
sound continues the k-th old one, while there are old ones. -/
def outputPieces (frame : Frame σ) (word : Segmentation σ) (index : Nat) :
    Nat → List Slot → Work σ (List Piece)
  | _, [] => return []
  | 0, slot :: slots => do
    let text ← frame.slotOutput word slot none
    return ⟨none, text⟩ :: (← frame.outputPieces word index 0 slots)
  | old + 1, slot :: slots => do
    let text ← frame.slotOutput word slot (some index)
    return ⟨some index, text⟩ :: (← frame.outputPieces word (index + 1) old slots)

/-- The end of a match at an index, if there is one. The slots of the left
neighbours are given last first. -/
def matchAt? (frame : Frame σ) (word : Segmentation σ) (change : SoundChange)
    (index : Nat) : Work σ (Option Nat) := do
  match ← frame.matchForward? word change.before index with
  | none => return none
  | some stop =>
    match ← frame.matchForward? word change.following stop with
    | none => return none
    | some _ =>
      if ← frame.matchesBackward word change.preceding index then return some stop
      else return none

def copiedPiece (word : Segmentation σ) (index : Nat) : List Piece :=
  (word.segmentText? index).toList.map fun text => ⟨some index, text⟩

/-- Changes a word from an index on: whether something matched, and the pieces.
A match that covers no segment is an insertion, behind which the segment at the
index is copied. -/
def changeFrom (frame : Frame σ) (word : Segmentation σ) (change : SoundChange)
    (index : Nat) : Work σ (Bool × List Piece) := do
  if index ≤ word.length then
    match ← frame.matchAt? word change index with
    | none =>
      let (matched, pieces) ← frame.changeFrom word change (index + 1)
      return (matched, copiedPiece word index ++ pieces)
    | some stop =>
      let output ← frame.outputPieces word index change.before.length change.after
      if _covers : index < stop then
        let (_, pieces) ← frame.changeFrom word change stop
        return (true, output ++ pieces)
      else
        let (_, pieces) ← frame.changeFrom word change (index + 1)
        return (true, output ++ copiedPiece word index ++ pieces)
  else return (false, [])
termination_by word.length + 1 - index

end Frame

def Piece.placeOf? (pieces : List Piece) (index : Int) : Option Int :=
  (pieces.zipIdx.reverse.find? fun entry => entry.1.source.any (· == index)).map
    fun entry => (entry.2 : Int)

/-- A form with the sounds changed wherever the change matches. The stress stays
with the segment it is on, if a piece continues that segment. -/
def Frame.changeSounds {σ : Type} (frame : Frame σ) (change : SoundChange) (form : WordForm) :
    Work σ WordForm := do
  let word ← frame.segmentation form
  let prepared : SoundChange :=
    { before := frame.splitSlots change.before
      after := frame.splitSlots change.after
      preceding := (frame.splitSlots change.preceding).reverse
      following := frame.splitSlots change.following }
  let (matched, pieces) ← frame.changeFrom word prepared 0
  if matched then
    let text := pieces.flatMap Piece.text
    return form.withText (frame.withMarkOf form text)
      (form.stressedIndex.bind (Piece.placeOf? pieces))
  else return form

end Diachrony
