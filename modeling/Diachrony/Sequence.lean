import Diachrony.Error
import Diachrony.Rule
import Diachrony.Text.Blank

/-!
Sequences: rules in the order in which they once applied, with their written
form of one step a line.
-/
namespace Diachrony

open Text (trim trimEnd before? splitAt joinWith numberedLines)

/-- A step of a sequence: a rule, and perhaps another one to try in its place.
An optional step may be left out; a dispreferred one is for when the step before
it fails. -/
structure SequenceStep where
  rule : Int
  alternative : Option Int := none
  optional : Bool := false
  dispreferred : Bool := false
  deriving DecidableEq

def SequenceStep.rules (step : SequenceStep) : List Int :=
  step.rule :: step.alternative.toList

/-- A sequence of rules from one language to another. -/
structure RuleSequence where
  id : Int
  name : Text
  fromLanguage : Text
  toLanguage : Text
  steps : List SequenceStep := []
  source : Option Text := none
  notes : Option Text := none

namespace SequenceStep

/-- What stands behind the names of a step and says how much it matters. -/
def mark (step : SequenceStep) : Text :=
  if step.dispreferred then "??" else if step.optional then "?" else ""

def print {m : Type → Type} [Monad m] (nameOf : Int → m Text) (step : SequenceStep) :
    m Text := do
  let names ← step.rules.mapM nameOf
  return joinWith ['|'] names ++ step.mark

def printAll {m : Type → Type} [Monad m] (nameOf : Int → m Text)
    (steps : List SequenceStep) : m Text := do
  return joinWith ['\n'] (← steps.mapM (print nameOf))

/-- Takes the mark off the end of a line: the names, whether the step is
optional, and whether it is dispreferred. -/
def cutMark (line : Text) : Text × Bool × Bool :=
  match before? "??" line with
  | some names => (trimEnd names, false, true)
  | none =>
    match before? "?" line with
    | some names => (trimEnd names, true, false)
    | none => (line, false, false)

def read (resolver : Resolver) (line : Text) : Except SequenceFault SequenceStep := do
  let (names, optional, dispreferred) := cutMark line
  let resolve (name : Text) : Except SequenceFault Int :=
    match resolver name with
    | some rule => .ok rule.id
    | none => .error (.noSuchRule name)
  let names := (splitAt '|' names).map trim
  if names.any List.isEmpty then throw (.malformedStep line)
  match names with
  | [name] => return { rule := ← resolve name, optional, dispreferred }
  | [name, alternative] =>
    return {
      rule := ← resolve name
      alternative := some (← resolve alternative)
      optional
      dispreferred }
  | _ => throw (.malformedStep line)

def isSkipped (line : Text) : Bool := line.isEmpty || line.head? == some '#'

/-- Reads the steps of a sequence, which may be named. Empty lines and comment
lines are passed over. -/
def readAll (resolver : Resolver) (sequence : Data) (text : Text) :
    Except Error (List SequenceStep) :=
  let lines := (numberedLines text).map fun (number, line) => (number, trim line)
  (lines.filter fun (_, line) => !isSkipped line).mapM fun (number, line) =>
    (read resolver line).mapError fun fault => .inSequence fault number sequence

/-- A position of a sequence: a step that has to be got past, with the
dispreferred steps that may stand in for it, each with its index. -/
structure Position where
  anchor : Nat × SequenceStep
  fallbacks : List (Nat × SequenceStep)

/-- Adds a step in front of positions whose first one may still be open: the
dispreferred steps at the front wait for their anchor. -/
def addToPositions (step : Nat × SequenceStep) :
    List (Nat × SequenceStep) × List Position → List (Nat × SequenceStep) × List Position
  | (waiting, positions) =>
    if step.2.dispreferred then (step :: waiting, positions)
    else ([], ⟨step, waiting⟩ :: positions)

/-- The positions of some steps. A dispreferred step belongs to the position
before it; at the very beginning it is itself an anchor. -/
def positions (steps : List SequenceStep) : List Position :=
  let numbered := steps.zipIdx.map fun (step, index) => (index, step)
  match numbered.foldr addToPositions ([], []) with
  | ([], positions) => positions
  | (anchor :: fallbacks, positions) => ⟨anchor, fallbacks⟩ :: positions

def Position.steps (position : Position) : List (Nat × SequenceStep) :=
  position.anchor :: position.fallbacks

end SequenceStep

end Diachrony
