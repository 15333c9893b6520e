import Diachrony.Text.Basic

/-!
What can be wrong with a written rule.

A fault is a cause; `ReadingFault.message` is the one place where its wording
stands.
-/
namespace Diachrony

/-- The causes for which the text of a rule, or of a part of one, is refused. -/
inductive ReadingFault where
  | malformedLiteral (found : Text)
  | soundExpected (found : Text)
  | literalExpected (found : Text)
  | seekTargetExpected (found : Text)
  | unterminatedLiteral
  | unexpectedToken (token : Text)
  | missingParenthesis
  | conditionExpected (found : Option Text)
  | wordClassExpected (found : Text)
  | unrecognizedCondition (found : Text)
  | ordinalNotAlone (found : Text)
  | numberTooLong (digits : Nat)
  | missingBracket
  | emptyFeature (slot : Text)
  | unexpectedInSoundChange (mark : Char)
  | missingArrow
  | missingFocus
  | noSounds
  | boundaryOutsideContext
  | featuresWithoutSound (slot : Text)
  | malformedCategory (found : Text)
  | wordClassToMarkExpected (found : Text)
  | noSuchRule (name : Text)
  | unknownInstruction (found : Text)
  | unknownLine (found : Text)
  | otherwiseNotLast
  | branchWithoutInstructions
  | refusedInSoundRule (verb : Text)
  | soundConditionRequired (verb : Text)
  | endingConditionRequired
  deriving DecidableEq

namespace ReadingFault

open Text (quoted ofNat)

def message : ReadingFault → Text
  | malformedLiteral found => "malformed literal " ++ found
  | soundExpected found =>
    "expected a sound or phoneme class, found " ++ quoted found
  | literalExpected found =>
    "expected a quoted literal, found " ++
      (if found.isEmpty then "nothing" else found : Text)
  | seekTargetExpected found =>
    "expected an ordinal and a sound class, found " ++ quoted found
  | unterminatedLiteral => "unterminated literal"
  | unexpectedToken token => "unexpected " ++ quoted token ++ " in condition"
  | missingParenthesis => "missing ')' in condition"
  | conditionExpected found =>
    "expected a condition, found " ++ quoted (found.getD "end of line")
  | wordClassExpected found => "expected a word class, found " ++ found
  | unrecognizedCondition found => "unrecognized condition " ++ quoted found
  | ordinalNotAlone found => "unknown ordinal " ++ quoted found
  | numberTooLong digits =>
    "number of " ++ ofNat digits ++ " digits is too long"
  | missingBracket => "missing ']' in feature class"
  | emptyFeature slot => "empty feature in " ++ quoted slot
  | unexpectedInSoundChange mark =>
    "unexpected " ++ quoted [mark] ++ " in sound change"
  | missingArrow => "'->' required in sound change"
  | missingFocus => "'_' required in sound change context"
  | noSounds => "sound change has no sounds"
  | boundaryOutsideContext =>
    "'#' may only appear in the context of a sound change"
  | featuresWithoutSound slot =>
    "feature class " ++ slot ++ " has no sound to change"
  | malformedCategory found => "malformed category value " ++ quoted found
  | wordClassToMarkExpected found =>
    "expected a word class, found " ++ quoted found
  | noSuchRule name => "no such rule " ++ quoted name
  | unknownInstruction found => "unknown instruction " ++ quoted found
  | unknownLine found =>
    "expected '- instruction' or 'condition:', found " ++ quoted found
  | otherwiseNotLast => "'otherwise' must be the last branch"
  | branchWithoutInstructions => "branch has no instructions"
  | refusedInSoundRule verb =>
    quoted verb ++ " cannot be used in a sound rule"
  | soundConditionRequired verb =>
    quoted verb ++ " requires a sound condition"
  | endingConditionRequired =>
    "'change ending' requires a 'word ends with' condition"

end ReadingFault

end Diachrony
