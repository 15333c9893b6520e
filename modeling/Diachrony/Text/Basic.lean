/-!
Text as the list of its code points, with the ways of taking it apart that the
notations of this library are read with, and of putting it together again.

Every length, index and offset of the library counts code points, so text is a
list and its operations are structural: what `after?` takes off a text is what
`++` puts in front of it, and `pieces` undoes `joinWith`.
-/
namespace Diachrony

/-- Text is the list of its code points. -/
abbrev Text := List Char

instance : Coe String Text := ⟨String.toList⟩

namespace Text

/-- The rest of a text behind a given beginning, if it begins so. -/
def after? : Text → Text → Option Text
  | [], text => some text
  | _ :: _, [] => none
  | mark :: lead, char :: text => if mark = char then after? lead text else none

def before? (ending text : Text) : Option Text :=
  (after? ending.reverse text.reverse).map List.reverse

def startsWith (lead text : Text) : Bool := (after? lead text).isSome

def endsWith (ending text : Text) : Bool := (before? ending text).isSome

def stripEnd (inClass : Char → Bool) (text : Text) : Text :=
  (text.reverse.dropWhile inClass).reverse

def stripBoth (inClass : Char → Bool) (text : Text) : Text :=
  stripEnd inClass (text.dropWhile inClass)

/-- Puts a separator between the items of a list and runs them together. -/
def joinWith (separator : Text) : List Text → Text
  | [] => []
  | [item] => item
  | item :: next :: items => item ++ separator ++ joinWith separator (next :: items)

/-- Cuts a text at every character of a class; there is one piece more than
there are such characters. -/
def pieces (inClass : Char → Bool) : Text → List Text
  | [] => [[]]
  | char :: text =>
    if inClass char then [] :: pieces inClass text
    else match pieces inClass text with
      | [] => [[char]]
      | piece :: rest => (char :: piece) :: rest

def splitAt (separator : Char) (text : Text) : List Text :=
  pieces (· == separator) text

/-- Cuts a text at the first occurrence of a mark, which is left out. -/
def cut? (mark : Text) : Text → Option (Text × Text)
  | [] => if mark = [] then some ([], []) else none
  | char :: text =>
    match after? mark (char :: text) with
    | some rest => some ([], rest)
    | none => (cut? mark text).map fun (head, rest) => (char :: head, rest)

def occursIn (piece text : Text) : Bool := (cut? piece text).isSome

def offsetsOf (piece text : Text) : List Nat :=
  (List.range text.length).filter fun offset => startsWith piece (text.drop offset)

/-- Walks along a text, first over characters that are already replaced, and
writes the new piece for each occurrence of the old one. -/
def replaceFrom (old new : Text) : Nat → Text → Text
  | _, [] => []
  | covered + 1, _ :: text => replaceFrom old new covered text
  | 0, char :: text =>
    if startsWith old (char :: text) then
      new ++ replaceFrom old new (old.length - 1) text
    else char :: replaceFrom old new 0 text

/-- Replaces every occurrence of a non-empty piece, from left to right and
without overlap. -/
def replaceAll (old new text : Text) : Text := replaceFrom old new 0 text

def replaceAt (offset length : Nat) (new text : Text) : Text :=
  text.take offset ++ new ++ text.drop (offset + length)

/-- The order by code points, a proper beginning first. -/
def precedes : Text → Text → Bool
  | [], _ => true
  | _ :: _, [] => false
  | first :: left, second :: right =>
    if first = second then precedes left right else first < second

/-- Leaves one of each run of equal neighbours. -/
def dropRepeats : List Text → List Text
  | [] => []
  | [text] => [text]
  | text :: next :: texts =>
    if text = next then dropRepeats (next :: texts)
    else text :: dropRepeats (next :: texts)

def sortedSet (texts : List Text) : List Text :=
  dropRepeats (texts.mergeSort precedes)

/-- The mark that stands around literal sounds and names. -/
def quoteMark : Char := '\x27'

def quoted (text : Text) : Text := quoteMark :: text ++ [quoteMark]

def absent : Text := "None"

def ofNat (number : Nat) : Text := Nat.toDigits 10 number

/-- The decimal digits of a number behind its sign, which only a negative
number has. -/
def ofInt : Int → Text
  | .ofNat number => ofNat number
  | .negSucc number => '-' :: ofNat (number + 1)

end Text

end Diachrony
