import Diachrony.Data
import Diachrony.Table
import Diachrony.Text.Numeral

/-!
Reading data from JSON text.

A text holds one value and nothing around it but blanks, no control characters
in texts, no surrogates without their partner, and no number beyond all numbers with a
point. A name that a record has twice keeps its first place and takes its last value.
How many lists and records may be inside each other, and which whole numbers stay whole
where others become numbers with a point, is up to the `Limits` of the reader.

Values nest, so the readers carry a bound; every call uses up a character or is
followed by one that does, and the bound that `Data.readWith?` starts with is more than
that takes.
-/
namespace Diachrony

namespace Data

/-- Whether a character may stand between tokens. -/
def isSpace (char : Char) : Bool :=
  char == ' ' || char == '\t' || char == '\n' || char == '\r'

def skipBlanks (source : Text) : Text := source.dropWhile isSpace

def readWord (word : Text) (value : Data) (source : Text) : Option (Data × Text) :=
  (Text.after? word source).map fun rest => (value, rest)

def isDigit (char : Char) : Bool := '0' ≤ char && char ≤ '9'

def numberOf (digits : Text) : Nat :=
  digits.foldl (fun number digit => 10 * number + (digit.toNat - '0'.toNat)) 0

def readDigits (source : Text) : Option (Text × Text) :=
  match source.span isDigit with
  | ([], _) => none
  | (digits, rest) => some (digits, rest)

/-- The digits behind the point, if there is a point. -/
def readFraction : Text → Option (Option Text × Text)
  | '.' :: rest => (readDigits rest).map fun (digits, rest) => (some digits, rest)
  | rest => some (none, rest)

def readExponent : Text → Option (Option Int × Text)
  | [] => some (none, [])
  | char :: rest =>
    if char == 'e' || char == 'E' then do
      let (isNegative, rest) := Text.cutSign rest
      let (digits, rest) ← readDigits rest
      return (some (Text.signed isNegative (numberOf digits)), rest)
    else some (none, char :: rest)

/-- The digits in front of the point: no zero comes before another digit. -/
def readWhole (source : Text) : Option (Text × Text) := do
  let (digits, rest) ← readDigits source
  if 1 < digits.length && digits.head? == some '0' then none
  else some (digits, rest)

/-- What a reader puts up with. Without a depth, lists and records may be inside each other
as often as they like. -/
structure Limits where
  depth : Option Nat
  staysWhole : Int → Bool

/-- The limits of archives: whole numbers have to fit into a machine word. -/
def Limits.strict : Limits := ⟨some 1024, fitsWord⟩

def Limits.lenient : Limits := ⟨none, fun _ => true⟩

/-- The value of a number: whole if it is written so and may stay so. -/
def ofParts? (staysWhole : Int → Bool) (isNegative : Bool) (whole : Text) (fraction : Option Text)
    (exponent : Option Int) : Option Data :=
  let digits := numberOf (whole ++ fraction.getD [])
  let power := exponent.getD 0 - (fraction.getD []).length
  let number := Text.signed isNegative digits
  if fraction.isNone && exponent.isNone && staysWhole number then some (integer number)
  else (Double.ofDecimal? isNegative digits power).map decimal

def readUnsigned (staysWhole : Int → Bool) (isNegative : Bool) (source : Text) : Option (Data × Text) := do
  let (whole, rest) ← readWhole source
  let (fraction, rest) ← readFraction rest
  let (exponent, rest) ← readExponent rest
  return (← ofParts? staysWhole isNegative whole fraction exponent, rest)

def readNumber (staysWhole : Int → Bool) : Text → Option (Data × Text)
  | '-' :: rest => readUnsigned staysWhole true rest
  | source => readUnsigned staysWhole false source

def hexValue? (char : Char) : Option Nat :=
  if isDigit char then some (char.toNat - '0'.toNat)
  else if 'a' ≤ char && char ≤ 'f' then some (char.toNat - 'a'.toNat + 10)
  else if 'A' ≤ char && char ≤ 'F' then some (char.toNat - 'A'.toNat + 10)
  else none

def hexNumber? (first second third fourth : Char) : Option Nat := do
  return ((← hexValue? first) * 16 + (← hexValue? second)) * 256 +
    ((← hexValue? third) * 16 + (← hexValue? fourth))

/-- The character that a letter behind a backslash stands for. -/
def escaped? : Char → Option Char
  | '\x22' => some '\x22'
  | '\\' => some '\\'
  | '/' => some '/'
  | 'b' => some '\x08'
  | 'f' => some '\x0c'
  | 'n' => some '\n'
  | 'r' => some '\r'
  | 't' => some '\t'
  | _ => none

/-- The code units of a text up to its closing quote. An escaped number is one
unit, and so is any character. -/
def readUnits : Text → Option (List Nat × Text)
  | [] => none
  | '\x22' :: rest => some ([], rest)
  | '\\' :: 'u' :: first :: second :: third :: fourth :: rest => do
    let unit ← hexNumber? first second third fourth
    let (units, rest) ← readUnits rest
    return (unit :: units, rest)
  | '\\' :: char :: rest => do
    let char ← escaped? char
    let (units, rest) ← readUnits rest
    return (char.toNat :: units, rest)
  | char :: rest =>
    if char.toNat < 0x20 then none
    else do
      let (units, rest) ← readUnits rest
      return (char.toNat :: units, rest)

/-- Whether a unit is the first half of a character. -/
def isHighUnit (unit : Nat) : Bool := 0xd800 ≤ unit && unit < 0xdc00

/-- Whether a unit is the second half of a character. -/
def isLowUnit (unit : Nat) : Bool := 0xdc00 ≤ unit && unit < 0xe000

/-- The text that code units stand for. Two halves make a character; a half on its
own makes none. -/
def joinUnits : List Nat → Option Text
  | [] => some []
  | high :: low :: units =>
    if isHighUnit high && isLowUnit low then do
      let char := Char.ofNat (0x10000 + (high - 0xd800) * 0x400 + (low - 0xdc00))
      return char :: (← joinUnits units)
    else if isHighUnit high || isLowUnit high then none
    else do return Char.ofNat high :: (← joinUnits (low :: units))
  | [unit] =>
    if isHighUnit unit || isLowUnit unit then none else some [Char.ofNat unit]

def readText (source : Text) : Option (Text × Text) := do
  let (units, rest) ← readUnits source
  return (← joinUnits units, rest)

def ofFields (fields : List (Text × Data)) : Data :=
  record (fields.foldl (fun known (name, value) => Table.insertEntry name value known) [])

mutual

/-- Reads a value. The first number bounds the calls, the second one the lists and
records inside each other. -/
def readValue (staysWhole : Int → Bool) : Nat → Nat → Text → Option (Data × Text)
  | 0, _, _ => none
  | bound + 1, depth, char :: rest =>
    match char, depth with
    | '\x22', _ => (readText rest).map fun (value, rest) => (text value, rest)
    | '[', depth + 1 =>
      match skipBlanks rest with
      | ']' :: rest => some (list [], rest)
      | rest => (readItems staysWhole bound depth rest).map fun (items, rest) => (list items, rest)
    | '\x7b', depth + 1 =>
      match skipBlanks rest with
      | '\x7d' :: rest => some (record [], rest)
      | rest =>
        (readFields staysWhole bound depth rest).map fun (fields, rest) =>
          (ofFields fields, rest)
    | 'n', _ => readWord "null" null (char :: rest)
    | 't', _ => readWord "true" (flag true) (char :: rest)
    | 'f', _ => readWord "false" (flag false) (char :: rest)
    | _, _ => readNumber staysWhole (char :: rest)
  | _, _, [] => none

def readItems (staysWhole : Int → Bool) : Nat → Nat → Text → Option (List Data × Text)
  | 0, _, _ => none
  | bound + 1, depth, source => do
    let (item, rest) ← readValue staysWhole bound depth (skipBlanks source)
    match skipBlanks rest with
    | ',' :: rest =>
      let (items, rest) ← readItems staysWhole bound depth rest
      return (item :: items, rest)
    | ']' :: rest => return ([item], rest)
    | _ => none

def readFields (staysWhole : Int → Bool) :
    Nat → Nat → Text → Option (List (Text × Data) × Text)
  | 0, _, _ => none
  | bound + 1, depth, source =>
    match skipBlanks source with
    | '\x22' :: rest => do
      let (name, rest) ← readText rest
      match skipBlanks rest with
      | ':' :: rest =>
        let (value, rest) ← readValue staysWhole bound depth (skipBlanks rest)
        match skipBlanks rest with
        | ',' :: rest =>
          let (fields, rest) ← readFields staysWhole bound depth rest
          return ((name, value) :: fields, rest)
        | '\x7d' :: rest => return ([(name, value)], rest)
        | _ => none
      | _ => none
    | _ => none

end

def readWith? (limits : Limits) (source : Text) : Option Data :=
  let depth := limits.depth.getD source.length
  let start := skipBlanks source
  match readValue limits.staysWhole (2 * source.length + 2) depth start with
  | some (value, rest) => if (skipBlanks rest).isEmpty then some value else none
  | none => none

def read? (source : Text) : Option Data := readWith? .strict source

end Data

end Diachrony
