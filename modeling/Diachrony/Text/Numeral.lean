import Diachrony.Text.Basic
import Diachrony.Text.Blank
import Diachrony.Text.CharTable

/-!
Decimal digits of every script, and numbers written with them.
-/
namespace Diachrony.Text

def digitValue? (char : Char) : Option Nat :=
  (CharTable.decimalRanges.find? fun range =>
      range.1 ≤ char.toNat && char.toNat ≤ range.2).map
    fun range => (char.toNat - range.1) % 10

/-- Whether a character is a digit of any kind, superscripts and circled
digits among them. -/
def isDigit (char : Char) : Bool :=
  (digitValue? char).isSome ||
    CharTable.inRanges CharTable.otherDigitRanges char.toNat

/-- The number of digits up to which numbers are read. -/
def digitLimit : Nat := 4300

/-- The number that a row of decimal digits writes. There is at least one digit,
and there are no more than `digitLimit`. -/
def toNat? (text : Text) : Option Nat :=
  if text.isEmpty || digitLimit < text.length then none
  else text.foldlM (fun number char => do
    return 10 * number + (← digitValue? char)) 0

/-- A text without its underscores, each of which has to stand between two other
characters. -/
def joinGroups (text : Text) : Option Text :=
  let groups := splitAt '_' text
  if groups.any List.isEmpty then none else some groups.flatten

/-- Reads the digits of a number between which single underscores may stand. -/
def groupedNat? (text : Text) : Option Nat := (joinGroups text).bind toNat?

/-- Cuts a number into its sign and what is behind it; no sign means a plus. -/
def cutSign : Text → Bool × Text
  | '-' :: digits => (true, digits)
  | '+' :: digits => (false, digits)
  | digits => (false, digits)

def signed (isNegative : Bool) (number : Nat) : Int :=
  if isNegative then -(number : Int) else number

/-- Reads a whole number: blanks around it, a sign before it and single
underscores between its digits are allowed. -/
def toInt? (text : Text) : Option Int :=
  let (isNegative, digits) := cutSign (trimNumber text)
  (groupedNat? digits).map (signed isNegative)

/-- A number without the zeros in front of it, among which there may be underscores; the
character before the text counts as one of them. The last zero stays in front of a point
and where nothing else is left. A minus may follow the zeros. -/
def behindZeros (last : Char) : Text → Option Text
  | [] => some [last]
  | char :: text =>
    if char == '0' || char == '_' then behindZeros char text
    else if char == '.' then some (last :: char :: text)
    else if char == '-' || ('1' ≤ char && char ≤ '9') then some (char :: text)
    else none

/-- A number that begins with a digit, without the zeros in front of it. -/
def dropLeadingZeros : Text → Option Text
  | [] => none
  | char :: text =>
    if char == '0' then behindZeros char text
    else if '1' ≤ char && char ≤ '9' then some (char :: text)
    else none

/-- A text without the point in it and the zeros behind that point, if there is nothing
else behind it. -/
def dropZeroFraction (text : Text) : Text :=
  match cut? ['.'] text with
  | some (whole, fraction) =>
    if !fraction.isEmpty && fraction.all (· == '0') then whole else text
  | none => text

/-- Reads a whole number in plain digits, with no zero in front of others and with a minus
at most. The minus counts among the `digitLimit` characters. -/
def toBareInt? (text : Text) : Option Int :=
  let (isNegative, digits) := match text with
    | '-' :: digits => (true, digits)
    | digits => (false, digits)
  let hasZeroInFront := digits.head? == some '0' && digits != ['0']
  if hasZeroInFront || digitLimit < text.length || !digits.all (·.toNat < 0x80) then none
  else (toNat? digits).map (signed isNegative)

/-- Reads a whole number in plain digits. There may be blanks around it, a sign and zeros
in front of it, single underscores between its digits, and a point and zeros behind
it. -/
def toPlainInt? (text : Text) : Option Int := do
  let (sign, digits) := match trimNumber text with
    | '-' :: digits => (['-'], digits)
    | '+' :: digits => ([], digits)
    | digits => ([], digits)
  let digits ← joinGroups (dropZeroFraction (← dropLeadingZeros digits))
  toBareInt? (sign ++ digits)

end Diachrony.Text
