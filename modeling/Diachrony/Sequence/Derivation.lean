import Diachrony.Application

/-!
Deriving a form: a sequence of rules run over it, with a trace of every step.

At each position the steps are tried in order, and of each step its rule and then
its alternative, until one applies; the others are skipped. Where none applies,
the position is passed over if it may be, and otherwise the derivation halts. A
rule that fails counts as one that does not apply, and its error is recorded.
-/
namespace Diachrony

inductive StepStatus where
  | applied | alternative | dispreferred | skipped | halted | failed
  deriving DecidableEq

def StepStatus.name : StepStatus → Text
  | applied => "applied"
  | alternative => "alternative"
  | dispreferred => "dispreferred"
  | skipped => "skipped"
  | halted => "halted"
  | failed => "failed"

/-- What one step of a sequence did to a text. -/
structure TraceEntry where
  index : Nat
  rule : Int
  ruleName : Text
  status : StepStatus
  before : Text
  after : Text
  error : Option Error := none

/-- The result of running a sequence over a form. A derivation that halted
says at which step. -/
structure Derivation where
  source : WordForm
  result : WordForm
  entries : List TraceEntry
  appliedRules : List Int
  haltedAt : Option Nat

namespace Derivation

/-- Whether the sequence was run to its end. -/
def isComplete (derivation : Derivation) : Bool := derivation.haltedAt.isNone

def errors (derivation : Derivation) : List Error :=
  derivation.entries.filterMap TraceEntry.error

end Derivation

namespace SequenceStep

/-- What came of trying a step: a rule that applied, or none, with the last error
on the way. -/
inductive Attempt where
  | taken (rule : Rule) (isAlternative : Bool) (form : WordForm)
  | declined (error : Option Error)

/-- Tries rules in turn, behind the last error so far. -/
def tryRules (graph : Graph) (marker : Text) (form : WordForm) :
    Option Error → List (Int × Bool) → Session Attempt
  | error, [] => return .declined error
  | error, (id, isAlternative) :: rules => do
    let result ← Work.settle do
      let rule ← graph.rule id
      return (rule, ← graph.apply rule form marker)
    match result with
    | .error failure => tryRules graph marker form (some failure) rules
    | .ok (rule, outcome) =>
      if outcome.applied then return .taken rule isAlternative outcome.form
      else tryRules graph marker form error rules

/-- Tries a step on a form: its rule, then its alternative. -/
def attempt (graph : Graph) (marker : Text) (form : WordForm) (step : SequenceStep) :
    Session Attempt :=
  tryRules graph marker form none
    ((step.rule, false) :: step.alternative.toList.map fun id => (id, true))

def reportedName (graph : Graph) (rule : Int) : Text :=
  match graph.rules.get? rule with
  | some rule => rule.name
  | none => '#' :: Text.ofInt rule

def idleEntry (graph : Graph) (form : WordForm) (index : Nat) (step : SequenceStep)
    (status : StepStatus) (error : Option Error := none) : TraceEntry :=
  { index, rule := step.rule, ruleName := reportedName graph step.rule, status
    before := form.text, after := form.text, error }

def takenStatus (step : SequenceStep) (isAlternative : Bool) : StepStatus :=
  if step.dispreferred then .dispreferred
  else if isAlternative then .alternative else .applied

/-- The step of a position that was taken: its rule and the form it left. -/
structure Choice where
  rule : Int
  form : WordForm

def tryInTurn (graph : Graph) (marker : Text) (form : WordForm) :
    List (Nat × SequenceStep) → Session (List TraceEntry × Option Choice)
  | [] => return ([], none)
  | (index, step) :: steps => do
    match ← step.attempt graph marker form with
    | .taken rule isAlternative result =>
      let entry : TraceEntry :=
        { index, rule := rule.id, ruleName := rule.name
          status := step.takenStatus isAlternative
          before := form.text, after := result.text }
      let others := steps.map fun (index, step) => idleEntry graph form index step .skipped
      return (entry :: others, some ⟨rule.id, result⟩)
    | .declined error =>
      let status := if error.isSome then .failed else .skipped
      let (entries, choice) ← tryInTurn graph marker form steps
      return (idleEntry graph form index step status error :: entries, choice)

def Position.isSkippable (position : Position) : Bool :=
  position.anchor.2.optional || position.anchor.2.dispreferred

/-- The entries of a position at which a derivation halts: the first one says
so. -/
def haltedEntries : List TraceEntry → List TraceEntry
  | [] => []
  | entry :: entries => { entry with status := .halted } :: entries

/-- Runs positions over a form and puts what happens in front of what happened
before: the entries, the rules that applied, the form, and where it halted. -/
def derivePositions (graph : Graph) (marker : Text) (source : WordForm) :
    WordForm → List TraceEntry → List Int → List Position → Session Derivation
  | form, entries, rules, [] => return ⟨source, form, entries, rules, none⟩
  | form, entries, rules, position :: positions => do
    match ← tryInTurn graph marker form position.steps with
    | (tried, some choice) =>
      derivePositions graph marker source choice.form (entries ++ tried)
        (rules ++ [choice.rule]) positions
    | (tried, none) =>
      if position.isSkippable then
        derivePositions graph marker source form (entries ++ tried) rules positions
      else
        return ⟨source, form, entries ++ haltedEntries tried, rules,
          some position.anchor.1⟩

end SequenceStep

def Graph.derive (graph : Graph) (sequence : RuleSequence) (form : WordForm)
    (marker : Text := usualMarker) : Session Derivation :=
  SequenceStep.derivePositions graph marker form form [] []
    (SequenceStep.positions sequence.steps)

namespace Graph

def derivationsBy (graph : Graph) (sequence : RuleSequence) : List Link :=
  (graph.links.values.filter fun link =>
    link.sequence == some sequence.id && link.kind == .derived).mergeSort
    fun left right =>
      left.source < right.source || left.source == right.source && left.target ≤ right.target

def deriveLink (graph : Graph) (link : Link) (sequence : RuleSequence)
    (marker : Text := usualMarker) : Session Derivation := do
  graph.derive sequence (← graph.word link.target).form marker

end Graph

end Diachrony
