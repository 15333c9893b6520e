import Diachrony.Text.Basic
import Diachrony.Text.CharTable

/-!
Lower case for text of every script.

Each character lowers on its own, to one character or, for the capital I with a
dot, to two. Only the capital sigma looks around itself: at the end of a word it
takes its final form.
-/
namespace Diachrony.Text

/-- Whether a character is a letter that has case. -/
def isCased (char : Char) : Bool :=
  CharTable.inRanges CharTable.casedRanges char.toNat

/-- Whether letter case looks through a character. -/
def isCaseIgnorable (char : Char) : Bool :=
  CharTable.inRanges CharTable.caseIgnorableRanges char.toNat

def lowerChar (char : Char) : Text :=
  if char.toNat < 0x80 then [char.toLower]
  else if char.toNat = 0x130 then [Char.ofNat 0x69, Char.ofNat 0x307]
  else
    let run? := CharTable.lowerRuns.find? fun run =>
      run.first ≤ char.toNat && char.toNat ≤ run.last &&
        (char.toNat - run.first) % run.step == 0
    match run? with
    | some run => [Char.ofNat ((char.toNat : Int) + run.distance).toNat]
    | none => [char]

/-- Whether the next character that letter case does not look through is a
cased letter. -/
def facesCased (text : Text) : Bool :=
  match text.dropWhile isCaseIgnorable with
  | [] => false
  | char :: _ => isCased char

def capitalSigma : Char := Char.ofNat 0x3A3

/-- The lower-case form of a capital sigma between what stands before it, read
backwards, and what follows: final behind a letter with no letter to come. -/
def lowerSigma (before following : Text) : Char :=
  if facesCased before && !facesCased following then Char.ofNat 0x3C2
  else Char.ofNat 0x3C3

/-- Lowers a text behind what has gone before it, read backwards. -/
def lowerBehind : Text → Text → Text
  | _, [] => []
  | before, char :: text =>
    (if char = capitalSigma then [lowerSigma before text] else lowerChar char) ++
      lowerBehind (char :: before) text

def lower (text : Text) : Text := lowerBehind [] text

end Diachrony.Text
