import Diachrony.Text.Basic

/-!
Blank space and line breaks, and the operations on text that look at them:
trimming, words, and lines.
-/
namespace Diachrony.Text

/-- The blank characters: the spaces, the line and paragraph breaks, and the
control characters that separate information. -/
def isBlank (char : Char) : Bool :=
  let code := char.toNat
  (0x09 ≤ code && code ≤ 0x0D) || (0x1C ≤ code && code ≤ 0x20) ||
    code == 0x85 || code == 0xA0 || code == 0x1680 ||
    (0x2000 ≤ code && code ≤ 0x200A) || code == 0x2028 || code == 0x2029 ||
    code == 0x202F || code == 0x205F || code == 0x3000

def isLineBreak (char : Char) : Bool :=
  let code := char.toNat
  (0x0A ≤ code && code ≤ 0x0D) || (0x1C ≤ code && code ≤ 0x1E) ||
    code == 0x85 || code == 0x2028 || code == 0x2029

def trim (text : Text) : Text := stripBoth isBlank text

def trimEnd (text : Text) : Text := stripEnd isBlank text

/-- Whether a character may stand around a number: a blank that is none of the
control characters that separate information. -/
def isAroundNumber (char : Char) : Bool :=
  isBlank char && !(0x1C ≤ char.toNat && char.toNat ≤ 0x1F)

def trimNumber (text : Text) : Text := stripBoth isAroundNumber text

def words (text : Text) : List Text :=
  (pieces isBlank text).filter fun piece => !piece.isEmpty

/-- The words of a text with one space between neighbours. -/
def squeeze (text : Text) : Text := joinWith " " (words text)

/-- The lines of a text. A break ends the line before it, so a break at the
very end opens no further line; a carriage return and the line feed behind it
are one break. -/
def lines : Text → List Text
  | [] => []
  | '\r' :: '\n' :: text => [] :: lines text
  | char :: text =>
    if isLineBreak char then [] :: lines text
    else match lines text with
      | [] => [[char]]
      | line :: rest => (char :: line) :: rest

def numberedLines (text : Text) : List (Nat × Text) :=
  (lines text).zipIdx.map fun (line, index) => (index + 1, line)

/-- The content of a text that is one line and not empty. The line may be
ended by a line feed; no other character is held back. -/
def singleLine? (text : Text) : Option Text :=
  let line := text.takeWhile (· != '\n')
  if line.isEmpty then none
  else match text.dropWhile (· != '\n') with
    | [] | ['\n'] => some line
    | _ => none

def isLineEnd (text : Text) : Bool := text = [] || text = ['\n']

end Diachrony.Text
