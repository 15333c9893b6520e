import Diachrony.Inventory
import Diachrony.Proofs.Text.Basic

/-!
# How a text is cut

The segments of a text, one behind the other, are that text, and each one stands where the
segments in front of it end.
-/
namespace Diachrony

open Text (startsWith startsWith_iff)

namespace Inventory

def SpellsOut (inventory : Inventory) : Prop :=
  ∀ entry ∈ inventory.spellings, entry.1 ≠ []

theorem spellsOut_ofLanguage (language : Language) : (ofLanguage language).SpellsOut := by
  intro entry isMember
  have isKept := List.mem_filter.mp (List.mem_mergeSort.mp isMember)
  simpa using isKept.2

variable {inventory : Inventory} {offset : Nat} {text key : Text}

/-- A spelling that is found takes at least one character, and no more than there are. -/
theorem length_spellingAt? (spellsOut : inventory.SpellsOut) {spelling : Text}
    {phoneme : Phoneme} (isFound : inventory.spellingAt? key = some (spelling, phoneme)) :
    0 < spelling.length ∧ spelling.length ≤ key.length := by
  have isSpelling : spelling ≠ [] := spellsOut _ (List.mem_of_find?_eq_some isFound)
  unfold spellingAt? at isFound
  have isLead := List.find?_some isFound
  obtain ⟨rest, rfl⟩ := startsWith_iff.mp isLead
  simp [List.length_pos_iff.mpr isSpelling]

/-- Behind a spelling that is found, as much is left of a text as of the form in which spellings
are looked up. -/
theorem length_behind_spelling (spellsOut : inventory.SpellsOut) {spelling : Text}
    {phoneme : Phoneme} (isFound : inventory.spellingAt? key = some (spelling, phoneme))
    (sameLength : key.length = text.length + 1) :
    (key.drop spelling.length).length = (text.drop (spelling.length - 1)).length := by
  obtain ⟨isLong, fits⟩ := length_spellingAt? spellsOut isFound
  simp only [List.length_drop]
  omega

theorem length_lookupForm (text : Text) : (lookupForm text).length = text.length := by
  unfold lookupForm
  split
  · assumption
  · rfl

/-- The segments of a text make up the text. -/
theorem flatMap_segmentsFrom (spellsOut : inventory.SpellsOut)
    (sameLength : key.length = text.length) :
    (inventory.segmentsFrom offset text key).flatMap Segment.text = text := by
  induction offset, text, key using segmentsFrom.induct inventory with
  | case1 offset key => simp [segmentsFrom]
  | case2 offset char text key spelling phoneme isFound inductionHypothesis =>
      have sameRest := length_behind_spelling spellsOut isFound sameLength
      rw [segmentsFrom, isFound]
      simp [inductionHypothesis sameRest]
  | case3 offset char text key isNone inductionHypothesis =>
      have sameRest : (key.drop 1).length = text.length := by
        simp [sameLength]
      rw [segmentsFrom, isNone, List.flatMap_cons, inductionHypothesis sameRest]
      rfl

/-- Each segment stands where those in front of it end. -/
theorem offset_segmentsFrom (spellsOut : inventory.SpellsOut)
    (sameLength : key.length = text.length) {index : Nat} {segment : Segment}
    (isSegment : (inventory.segmentsFrom offset text key)[index]? = some segment) :
    segment.offset = offset +
      (((inventory.segmentsFrom offset text key).take index).flatMap Segment.text).length := by
  induction offset, text, key using segmentsFrom.induct inventory generalizing index with
  | case1 offset key => simp [segmentsFrom] at isSegment
  | case2 offset char text key spelling phoneme isFound inductionHypothesis =>
      obtain ⟨isLong, fits⟩ := length_spellingAt? spellsOut isFound
      have sameRest := length_behind_spelling spellsOut isFound sameLength
      rw [List.length_cons] at sameLength
      rw [segmentsFrom, isFound] at isSegment ⊢
      cases index with
      | zero =>
          cases isSegment
          simp
      | succ index =>
          have isOffset := inductionHypothesis sameRest isSegment
          have taken : spelling.length - 1 ≤ text.length := by omega
          simp only [List.take_succ_cons, List.flatMap_cons, List.length_append,
            List.length_cons, List.length_take_of_le taken, isOffset]
          omega
  | case3 offset char text key isNone inductionHypothesis =>
      have sameRest : (key.drop 1).length = text.length := by
        simp [sameLength]
      rw [segmentsFrom, isNone] at isSegment ⊢
      cases index with
      | zero =>
          cases isSegment
          simp
      | succ index =>
          have isOffset := inductionHypothesis sameRest isSegment
          simp only [List.take_succ_cons, List.flatMap_cons, List.length_append,
            List.length_cons, List.length_nil, isOffset]
          omega

theorem flatMap_segments (spellsOut : inventory.SpellsOut) (text : Text) :
    (inventory.segments text).flatMap Segment.text = text :=
  flatMap_segmentsFrom spellsOut (length_lookupForm text)

theorem offset_segments (spellsOut : inventory.SpellsOut) {index : Nat} {segment : Segment}
    (isSegment : (inventory.segments text)[index]? = some segment) :
    segment.offset = (((inventory.segments text).take index).flatMap Segment.text).length := by
  have isOffset := offset_segmentsFrom spellsOut (length_lookupForm text) isSegment
  rwa [Nat.zero_add] at isOffset

end Inventory

end Diachrony
