import Diachrony.Condition

/-!
Reading conditions.

A predicate is one line of words; `Predicate.read` tries the forms of the
notation in order, and the first form that fits decides. A condition is read
from tokens by descent, where "and" binds closer than "or".
-/
namespace Diachrony

open Text (after? singleLine? isLineEnd isBlank trim joinWith quoteMark digitValue?)

namespace Predicate

/-- What a form of the notation makes of a line: nothing if the line is not of
this form, otherwise the predicate or what is wrong with it. -/
abbrev Form := Text → Option (Except ReadingFault Predicate)

/-- A line that may begin with a denial, and what it says. A line of nothing
but the word for a denial denies nothing. -/
def denial? (text : Text) : Option (Bool × Text) :=
  match (after? "not " text).bind singleLine? with
  | some line => some (true, line)
  | none => (singleLine? text).map fun line => (false, line)

def withPattern (predicate : Predicate) (text : Text) :
    Except ReadingFault Predicate := do
  return { predicate with pattern := some (← SoundPattern.read text) }

/-- The sound here, next or before, compared with a pattern. -/
def readSound : Form := fun text =>
  [SoundPlace.next, .previous, .here].findSome? fun place => do
    let (negated, line) ← (after? place.lead text).bind denial?
    return withPattern { test := .sound place, negated } line

def readAtEdge : Form := fun text =>
  [true, false].findSome? fun negated =>
    [WordEdge.beginning, .ending].findSome? fun edge => do
      let rest ← after? (denial negated ++ edge.place) text
      if isLineEnd rest then some (.ok { test := .atEdge edge, negated }) else none

def readInStressedSyllable : Form := fun text =>
  [true, false].findSome? fun negated => do
    let rest ← after? ("syllable is " ++ denial negated ++ "stressed") text
    if isLineEnd rest then some (.ok { test := .inStressedSyllable, negated })
    else none

/-- The beginning or end of the word compared with a pattern. -/
def readWordEdge : Form := fun text =>
  [WordEdge.ending, .beginning].findSome? fun edge => do
    let (negated, line) ← (after? edge.lead text).bind denial?
    return withPattern { test := .wordEdge edge, negated } line

def readSyllableCount : Form := fun text =>
  [Comparison.different, .atLeast, .equal].findSome? fun comparison => do
    let rest ← after? comparison.lead text
    let isDecimal := fun char => (digitValue? char).isSome
    let digits := rest.takeWhile isDecimal
    if digits.isEmpty || !isLineEnd (rest.dropWhile isDecimal) then none
    else
      match Text.toNat? digits with
      | some number =>
        some (.ok { test := .syllableCount, comparison, number := some (number : Int) })
      | none => some (.error (.numberTooLong digits.length))

def readWordClass : Form := fun text => do
  let (negated, line) ← (after? "word is " text).bind denial?
  let name := trim line
  if name.contains quoteMark then some (.error (.wordClassExpected name))
  else some (.ok { test := .wordClass, value := some name, negated })

/-- The place of the stress. The ordinal has to be all that stands there. -/
def readStressOn : Form := fun text => do
  let rest ← after? "stress is on " text
  Ordinal.longestFirst.findSome? fun ordinal => do
    let tail ← after? (ordinal.name ++ " syllable") rest
    if tail.isEmpty then
      some (.ok { test := .stressOn, ordinal := some ordinal.number })
    else if isLineEnd tail then some (.error (.ordinalNotAlone rest))
    else none

def readSyllable : Form := fun text =>
  (Ordinal.leads text).findSome? fun (ordinal, rest) =>
    [SyllablePart.anywhere, .ending].findSome? fun part => do
      let line ← (after? part.lead rest).bind singleLine?
      return withPattern { test := .syllable part, ordinal := some ordinal.number } line

/-- Cuts a line at the first "is", behind at least one character, that has
something to its right: what is sought, and the denial and pattern of what it
is compared with. -/
def cutAtIs? : Text → Option (Text × Bool × Text)
  | [] => none
  | char :: text =>
    if char = '\n' then none
    else match (after? " is " text).bind denial? with
      | some (negated, line) => some ([char], negated, line)
      | none => (cutAtIs? text).map fun (head, rest) => (char :: head, rest)

/-- The n-th sound of a class compared with a pattern. -/
def readSeek : Form := fun text =>
  (Ordinal.leads text).findSome? fun (ordinal, rest) => do
    let (name, negated, line) ← cutAtIs? rest
    return do
      let target ← SeekTarget.read (ordinal.name ++ ' ' :: name)
      withPattern { test := .seek, negated, seek := some target } line

/-- The forms of the notation, in the order in which they are tried. -/
def forms : List Form :=
  [readSound, readAtEdge, readInStressedSyllable, readWordEdge, readSyllableCount,
    readWordClass, readStressOn, readSyllable, readSeek]

def read (text : Text) : Except ReadingFault Predicate :=
  if text = "otherwise" then .ok otherwise
  else (forms.findSome? fun form => form text).getD
    (.error (.unrecognizedCondition text))

end Predicate

namespace Condition

def closeToken (token : Text) (tokens : List Text) : List Text :=
  if token.isEmpty then tokens else token :: tokens

/-- Cuts a line into words and round brackets. A quoted literal is never cut,
whatever stands inside it. -/
def tokensBehind : Bool → Text → Text → Except ReadingFault (List Text)
  | quoted, token, [] =>
    if quoted then .error .unterminatedLiteral else .ok (closeToken token [])
  | quoted, token, char :: text =>
    if char = quoteMark then tokensBehind (!quoted) (token ++ [char]) text
    else if quoted then tokensBehind true (token ++ [char]) text
    else if char = '(' || char = ')' then do
      return closeToken token ([char] :: (← tokensBehind false [] text))
    else if isBlank char then do
      return closeToken token (← tokensBehind false [] text)
    else tokensBehind false (token ++ [char]) text

def tokens (text : Text) : Except ReadingFault (List Text) :=
  tokensBehind false [] text

def isWord (token : Text) : Bool :=
  !(["and", "or", "(", ")"] : List Text).contains token

mutual

/-- Reads alternatives joined by "or" and returns the tokens behind them. The
first argument bounds the number of calls still to come. -/
def readAlternatives : Nat → List Text →
    Except ReadingFault (List Condition × List Text)
  | 0, _ => .error .missingParenthesis
  | calls + 1, tokens => do
    let (members, rest) ← readFactors calls tokens
    match rest with
    | [] => return ([allOf members], [])
    | token :: rest =>
      if token = "or" then
        let (others, rest) ← readAlternatives calls rest
        return (allOf members :: others, rest)
      else return ([allOf members], token :: rest)

def readFactors : Nat → List Text →
    Except ReadingFault (List Condition × List Text)
  | 0, _ => .error .missingParenthesis
  | calls + 1, tokens => do
    let (member, rest) ← readAtom calls tokens
    match rest with
    | [] => return ([member], [])
    | token :: rest =>
      if token = "and" then
        let (others, rest) ← readFactors calls rest
        return (member :: others, rest)
      else return ([member], token :: rest)

def readAtom : Nat → List Text → Except ReadingFault (Condition × List Text)
  | 0, _ => .error .missingParenthesis
  | calls + 1, tokens =>
    if tokens.head? = some "(".toList then do
      let (members, rest) ← readAlternatives calls tokens.tail
      if rest.head? = some ")".toList then return (anyOf members, rest.tail)
      else throw .missingParenthesis
    else
      let words := tokens.takeWhile isWord
      let rest := tokens.dropWhile isWord
      if words.isEmpty then .error (.conditionExpected rest.head?)
      else do
        return (holds (← Predicate.read (joinWith " " words)), rest)

end

/-- Reads a condition from its tokens. Three calls go to each token at most. -/
def ofTokens (tokens : List Text) : Except ReadingFault Condition := do
  let (members, rest) ← readAlternatives (3 * tokens.length + 3) tokens
  match rest with
  | [] => return anyOf members
  | token :: _ => throw (.unexpectedToken token)

/-- Reads a condition. Nothing at all always holds. -/
def read (text : Text) : Except ReadingFault Condition := do
  let text := trim text
  if text.isEmpty || text = "otherwise" then return holds Predicate.otherwise
  else ofTokens (← tokens text)

end Condition

end Diachrony
