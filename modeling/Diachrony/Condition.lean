import Diachrony.Pattern
import Diachrony.Text.Numeral

/-!
Conditions: what a branch of a rule asks of a word, or of one sound of it.

A condition is a tree of predicates under "all" and "any"; a predicate is a
test that may be denied. This module holds the trees and their printed form;
`Diachrony.Condition.Reader` reads them.
-/
namespace Diachrony

open Text (quoted joinWith absent)

inductive SoundPlace where
  | here | next | previous
  deriving DecidableEq

inductive WordEdge where
  | beginning | ending
  deriving DecidableEq

inductive SyllablePart where
  | anywhere | ending
  deriving DecidableEq

inductive Comparison where
  | equal | different | atLeast
  deriving DecidableEq

/-- What is asked of a word or of one of its sounds. -/
inductive Test where
  | otherwise
  | sound (place : SoundPlace)
  | atEdge (edge : WordEdge)
  | inStressedSyllable
  | wordEdge (edge : WordEdge)
  | wordClass
  | syllableCount
  | stressOn
  | syllable (part : SyllablePart)
  | seek
  deriving DecidableEq

/-- Whether a test needs a sound to be asked of, and not only a word. -/
def Test.isSegmental : Test → Bool
  | .sound _ | .atEdge _ | .inStressedSyllable => true
  | _ => false

/-- A test or its denial, with what the test compares: a sound or the n-th sound of a
class with a pattern, the word with the name of a class, the number of syllables with
another number. A syllable is the one at the place of an ordinal. Parts that a test
has no use for mean nothing. -/
structure Predicate where
  test : Test
  negated : Bool := false
  pattern : Option SoundPattern := none
  value : Option Text := none
  number : Option Int := none
  comparison : Comparison := .equal
  ordinal : Option Int := none
  seek : Option SeekTarget := none
  deriving DecidableEq

def Predicate.otherwise : Predicate := { test := .otherwise }

def Predicate.endingPattern? (predicate : Predicate) : Option SoundPattern :=
  if predicate.test = .wordEdge .ending && !predicate.negated then predicate.pattern
  else none

def Predicate.soundPattern? (predicate : Predicate) : Option SoundPattern :=
  if predicate.test = .sound .here && !predicate.negated then predicate.pattern
  else none

/-- A tree of predicates. -/
inductive Condition where
  | holds (predicate : Predicate)
  | all (members : List Condition)
  | any (members : List Condition)
  deriving BEq

namespace Condition

mutual

def predicates : Condition → List Predicate
  | holds predicate => [predicate]
  | all members => memberPredicates members
  | any members => memberPredicates members

def memberPredicates : List Condition → List Predicate
  | [] => []
  | member :: members => predicates member ++ memberPredicates members

end

/-- Whether some predicate of a condition needs a sound to be asked of. -/
def isSegmental (condition : Condition) : Bool :=
  condition.predicates.any fun predicate => predicate.test.isSegmental

def asksEnding (condition : Condition) : Bool :=
  condition.predicates.any fun predicate => predicate.endingPattern?.isSome

/-- Whether a condition is the plain one that always holds. -/
def isOtherwise : Condition → Bool
  | holds predicate => predicate == Predicate.otherwise
  | _ => false

/-- The alternatives of a condition: its members if it is an "any". -/
def alternatives : Condition → List Condition
  | any members => members
  | condition => [condition]

/-- The factors of a condition: its members if it is an "all". -/
def factors : Condition → List Condition
  | all members => members
  | condition => [condition]

/-- One condition for several alternatives; nested alternatives are merged. -/
def anyOf : List Condition → Condition
  | [member] => member
  | members => any (members.flatMap alternatives)

/-- One condition for several factors; nested factors are merged. -/
def allOf : List Condition → Condition
  | [member] => member
  | members => all (members.flatMap factors)

end Condition

def denial (negated : Bool) : Text := if negated then "not " else ""

def SoundPlace.lead : SoundPlace → Text
  | .here => "sound is "
  | .next => "next sound is "
  | .previous => "previous sound is "

def WordEdge.place : WordEdge → Text
  | .beginning => "beginning of word"
  | .ending => "end of word"

def WordEdge.lead : WordEdge → Text
  | .beginning => "word begins with "
  | .ending => "word ends with "

/-- The words between the ordinal of a syllable and the pattern. -/
def SyllablePart.lead : SyllablePart → Text
  | .anywhere => "syllable contains "
  | .ending => "syllable ends with "

def Comparison.lead : Comparison → Text
  | .equal => "number of syllables is "
  | .different => "number of syllables is not "
  | .atLeast => "number of syllables is at least "

def Predicate.printedOrdinals (predicate : Predicate) : List (Option Int) :=
  match predicate.test with
  | .stressOn | .syllable _ => [predicate.ordinal]
  | .seek => predicate.seek.toList.map fun target => some target.ordinal
  | _ => []

def Predicate.printedNumbers (predicate : Predicate) : List Int :=
  match predicate.test with
  | .syllableCount => predicate.number.toList
  | _ => []

/-- The printed form of a predicate. A denial is printed only where the
notation has a place for it. Ordinals without a name and numbers that are too long are
for the printed form of the whole logic to refuse. -/
def Predicate.print (predicate : Predicate) : Text :=
  let denied := denial predicate.negated
  let pattern := (predicate.pattern.map SoundPattern.print).getD absent
  match predicate.test with
  | .otherwise => "otherwise"
  | .sound place => place.lead ++ denied ++ pattern
  | .atEdge edge => denied ++ edge.place
  | .inStressedSyllable => "syllable is " ++ denied ++ "stressed"
  | .wordEdge edge => edge.lead ++ denied ++ pattern
  | .wordClass => "word is " ++ denied ++ predicate.value.getD absent
  | .syllableCount =>
    predicate.comparison.lead ++ (predicate.number.map Text.ofInt).getD absent
  | .stressOn => "stress is on " ++ Ordinal.nameOf predicate.ordinal ++ " syllable"
  | .syllable part => Ordinal.nameOf predicate.ordinal ++ ' ' :: part.lead ++ pattern
  | .seek =>
    (predicate.seek.map SeekTarget.print).getD absent ++ " is " ++ denied ++ pattern

namespace Condition

mutual

/-- The printed form of a condition. "and" binds closer than "or", so only an
"any" inside an "all" needs brackets. -/
def print : Condition → Text
  | holds predicate => predicate.print
  | all members => joinWith " and " (printFactors members)
  | any members => joinWith " or " (printAlternatives members)

def printFactors : List Condition → List Text
  | [] => []
  | any members :: rest => ('(' :: print (any members) ++ [')']) :: printFactors rest
  | member :: rest => print member :: printFactors rest

def printAlternatives : List Condition → List Text
  | [] => []
  | member :: rest => print member :: printAlternatives rest

end

end Condition

end Diachrony
