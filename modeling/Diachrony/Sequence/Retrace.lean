import Diachrony.Reversal

/-!
Retracing a form: the steps of a sequence undone from the last to the first, with
all forms that may have been there.
-/
namespace Diachrony

/-- An earlier form that a rule turns into a later one. -/
structure RetraceCandidate where
  rule : Int
  ruleName : Text
  form : WordForm
  produces : Text

structure RetraceStep where
  index : Nat
  candidates : List RetraceCandidate
  skippable : Bool
  error : Option Error

/-- The result of retracing a text: the texts it may come from, unless no form
was left at some step. -/
structure Retrace where
  target : Text
  steps : List RetraceStep
  sources : List Text
  haltedAt : Option Nat

namespace Retrace

def isComplete (retrace : Retrace) : Bool := retrace.haltedAt.isNone

/-- The number of forms that are followed up at a time, unless another one is set or asked
for. -/
def usualLimit : Int := 64

def addForm (forms : List WordForm) (form : WordForm) : List WordForm :=
  if forms.any fun other => other.text == form.text then forms else forms ++ [form]

def sortForms (forms : List WordForm) : List WordForm :=
  forms.mergeSort fun left right => Text.precedes left.text right.text

/-- The first members of a list; a limit below zero leaves out members at the
end. -/
def takeUpTo {α : Type} (limit : Int) (items : List α) : List α :=
  items.take (if limit < 0 then items.length + limit else limit).toNat

def undoRule (graph : Graph) (marker : Text) (limit : Int) (rule : Rule) :
    List WordForm → Session (List RetraceCandidate × Option Error)
  | [] => return ([], none)
  | form :: forms => do
    match ← Work.settle (graph.reverse rule form limit marker) with
    | .error failure => return ([], some failure)
    | .ok earlier =>
      let candidates := earlier.map fun source => ⟨rule.id, rule.name, source, form.text⟩
      let (others, error) ← undoRule graph marker limit rule forms
      return (candidates ++ others, error)

def undoRuleById (graph : Graph) (marker : Text) (limit : Int) (forms : List WordForm)
    (id : Int) : Session (List RetraceCandidate × Option Error) :=
  match graph.rule id with
  | .error failure => return ([], some failure)
  | .ok rule => undoRule graph marker limit rule forms

/-- Undoes one step on forms that are in order. Of several errors the last one is
kept. -/
def undoStep (graph : Graph) (marker : Text) (limit : Int) (forms : List WordForm)
    (index : Nat) (step : SequenceStep) : Session RetraceStep := do
  let found ← step.rules.mapM (undoRuleById graph marker limit forms)
  return {
    index
    candidates := found.flatMap Prod.fst
    skippable := step.optional || step.dispreferred
    error := (found.filterMap Prod.snd).getLast? }

/-- The forms before a step: those found, and those behind it if it may have been
left out. -/
def formsBefore (step : RetraceStep) (forms : List WordForm) : List WordForm :=
  (step.candidates.map RetraceCandidate.form).foldl addForm
    (if step.skippable then forms else [])

/-- Undoes steps, given last first, behind the ones undone so far. -/
def undoSteps (graph : Graph) (marker : Text) (limit : Int) (target : Text) :
    List RetraceStep → List WordForm → List (Nat × SequenceStep) → Session Retrace
  | undone, forms, [] =>
    return ⟨target, undone, (sortForms forms).map WordForm.text, none⟩
  | undone, forms, (index, step) :: steps => do
    let found ← undoStep graph marker limit (sortForms forms) index step
    let earlier := formsBefore found forms
    if earlier.isEmpty then return ⟨target, undone ++ [found], [], some index⟩
    else
      undoSteps graph marker limit target (undone ++ [found])
        (takeUpTo limit (sortForms earlier)) steps

end Retrace

/-- The limit that counts: no limit, or zero, means the one that is set. -/
def Retrace.limitInEffect (setLimit : Int) : Option Int → Int
  | none | some 0 => setLimit
  | some limit => limit

def Graph.retrace (graph : Graph) (sequence : RuleSequence) (form : WordForm)
    (limit : Option Int := none) (marker : Text := usualMarker)
    (setLimit : Int := Retrace.usualLimit) : Session Retrace :=
  Retrace.undoSteps graph marker (Retrace.limitInEffect setLimit limit) form.text [] [form]
    (sequence.steps.zipIdx.map fun (step, index) => (index, step)).reverse

end Diachrony
