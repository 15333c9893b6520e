import Diachrony.Segmentation

/-!
Offsets in text with morpheme marks.

A stress is found in plain text and shown in the text with its marks. Marks
before the stressed stretch move it, and marks inside it make it longer.
-/
namespace Diachrony.MarkedText

/-- The offset in marked text behind a number of unmarked characters, and behind
all marks that stand there. -/
def offsetAfter (isMark : Char → Bool) : Nat → Text → Nat
  | _, [] => 0
  | 0, char :: text => if isMark char then 1 + offsetAfter isMark 0 text else 0
  | count + 1, char :: text =>
    1 + offsetAfter isMark (if isMark char then count + 1 else count) text

/-- The length of the shortest beginning of marked text that holds a number of
unmarked characters. -/
def lengthCovering (isMark : Char → Bool) : Nat → Text → Nat
  | 0, _ => 0
  | _, [] => 0
  | count + 1, char :: text =>
    1 + lengthCovering isMark (if isMark char then count + 1 else count) text

def reindex (isMark : Char → Bool) (offset length : Int) (text : Text) : Stretch :=
  let start := offsetAfter isMark offset.toNat text
  ⟨start, lengthCovering isMark length.toNat (text.drop start)⟩

end Diachrony.MarkedText
