import Diachrony.Graph.Edit
import Diachrony.Sequence

namespace Diachrony

/-- Whether a sequence may contain a rule: the rule stays within the languages of
the sequence and does not lead back. -/
def RuleSequence.fits (sequence : RuleSequence) (rule : Rule) : Bool :=
  let languages := [sequence.fromLanguage, sequence.toLanguage]
  let leadsBack := sequence.fromLanguage != sequence.toLanguage &&
    rule.fromLanguage == sequence.toLanguage && rule.toLanguage == sequence.fromLanguage
  languages.contains rule.fromLanguage && languages.contains rule.toLanguage && !leadsBack

def Rule.matchesLanguages (rule other : Rule) : Bool :=
  rule.fromLanguage == other.fromLanguage && rule.toLanguage == other.toLanguage

def RuleSequence.misfit (sequence : RuleSequence) (rule : Rule) (step : Nat) : Conflict :=
  .ruleOutsideSequence rule.name rule.fromLanguage rule.toLanguage sequence.name
    sequence.fromLanguage sequence.toLanguage step

namespace Edit

def checkAlternative (sequence : RuleSequence) (index : Nat) (rule : Rule) (id : Int) :
    Edit Unit := do
  let alternative ← ask (·.rule id)
  refuseIf (!alternative.matchesLanguages rule)
    (.alternativeMismatch alternative.name rule.name sequence.name index)

def checkStep (sequence : RuleSequence) (index : Nat) (step : SequenceStep) :
    Edit Unit := do
  let rule ← ask (·.rule step.rule)
  refuseIf (!sequence.fits rule) (sequence.misfit rule index)
  step.alternative.forM (checkAlternative sequence index rule)

def checkSteps (sequence : RuleSequence) : Edit Unit :=
  sequence.steps.zipIdx.forM fun (step, index) => checkStep sequence index step

def putSequence (id : Int) (sequence : RuleSequence) : Edit Unit :=
  modify fun graph => { graph with sequences := graph.sequences.insert id sequence }

def stepsOf (name : Data) : Written (List SequenceStep) → Edit (List SequenceStep)
  | .text text => ask fun graph => SequenceStep.readAll graph.resolver name text
  | .value steps => return steps

/-- Adds a sequence with some steps under the requested id or the next free one. What
else there is to say of the sequence is looked at when it has its id, and the steps are
checked last. -/
def addSequence (requested name : Data) (fromLanguage toLanguage : Text)
    (steps : Written (List SequenceStep))
    (describe : RuleSequence → Except Error RuleSequence) : Edit RuleSequence := do
  let _ ← ask (·.language fromLanguage)
  let _ ← ask (·.language toLanguage)
  let steps ← stepsOf name steps
  let id ← allocateFor requested
  let name ← lift (Record.asText "name" name)
  let sequence ← lift (describe { id, name, fromLanguage, toLanguage, steps })
  checkSteps sequence
  putSequence id sequence
  return sequence

def updateSteps (id : Int) (steps : Written (List SequenceStep)) : Edit RuleSequence := do
  let sequence ← ask (·.sequence id)
  let steps ← stepsOf (.text sequence.name) steps
  let sequence := { sequence with steps }
  checkSteps sequence
  putSequence id sequence
  return sequence

end Edit

end Diachrony
