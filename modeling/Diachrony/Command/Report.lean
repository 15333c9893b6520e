import Diachrony.Archive
import Diachrony.Command
import Diachrony.Consistency
import Diachrony.Paradigm.Expansion
import Diachrony.Sequence.Retrace

/-!
Carrying out commands.

A command reads a graph, asks it something and reports. An error of the graph or
of what was asked is the last line of a report; a broken archive stops the command
without one.
-/
namespace Diachrony

open Text (ofInt ofNat joinWith)

/-- Something printed: a line with markup in square brackets, or a table. -/
inductive Printed where
  | line (text : Text)
  | table (title : Option Text) (columns : List Text) (rows : List (List Text))

/-- What a command printed, its exit code, and the error that stopped it without a
word, if one did. -/
structure Report where
  printed : List Printed := []
  exit : Nat := 0
  crash : Option Error := none

namespace Report

def misuse : Report := { exit := 2 }

def ofError (error : Error) : Report :=
  match error.code? with
  | some code =>
    { printed := [.line ("[red]✗ ".toList ++ code ++ ":[/red] ".toList ++ error.message)]
      exit := 1 }
  | none => { exit := 1, crash := some error }

def ofResult : Except Error (List Printed) → Report
  | .ok printed => { printed }
  | .error error => ofError error

def issues (graph : Graph) (language : Option Text) : Except Error (List Printed) := do
  let issues ← graph.issues language
  if issues.isEmpty then return [.line "✓ No issues found"]
  else
    let rows := issues.map fun issue =>
      [ofInt issue.word.id, issue.kind.name, issue.description]
    return [.table (some (ofNat issues.length ++ " issues".toList))
      ["Word", "Kind", "Description"] rows]

/-- The id that a reference to a sequence stands for: a number, or the name of the
sequence. -/
def sequenceId (graph : Graph) (reference : Text) : Except Error Int :=
  if !reference.isEmpty && reference.all Text.isDigit then
    match Text.toNat? reference with
    | some id => .ok id
    | none => .error (.unreadableNumber reference)
  else do return (← graph.sequenceByName reference).id

def countLine (label : Text) (checks : List DerivationCheck) (consistency : Consistency) :
    Printed :=
  .line ("  ".toList ++ label ++ ": ".toList ++
    ofNat (DerivationCheck.wordsStanding checks consistency).length)

def changesTable (checks : List DerivationCheck) : List Printed :=
  match checks.filter fun check => check.consistency != .consistent with
  | [] => []
  | changed =>
    let rows := changed.map fun check =>
      [ofInt check.word, check.actual, check.expected.getD [], check.consistency.name]
    [.table none ["Word", "Actual", "Expected", "Status"] rows]

def errorLine (error : Error) : Printed :=
  .line ("  [red]".toList ++ error.message ++ "[/red]".toList)

/-- How the derivations recorded for a sequence stand. -/
def reapplication (graph : Graph) (reference : Text) : Except Error (List Printed) := do
  let sequence ← graph.sequence (← sequenceId graph reference)
  let checks ← (graph.reapply sequence).result
  let heading : Text := "\n[bold]Reapplied ".toList ++ reference ++
    "[/bold] (".toList ++ ofNat checks.length ++ " derivations)".toList
  return .line heading ::
    countLine "✓ Consistent" checks .consistent ::
    countLine "+ Becomes consistent" checks .becomesConsistent ::
    countLine "- Becomes inconsistent" checks .becomesInconsistent ::
    countLine "✗ Inconsistent" checks .inconsistent ::
    changesTable checks ++ (checks.filterMap DerivationCheck.error).map errorLine

def errorCell (error : Error) : Text :=
  "[red]".toList ++ error.message ++ "[/red]".toList

def retraceRows (step : RetraceStep) : List (List Text) :=
  let found := step.candidates.map fun candidate =>
    [ofNat step.index, candidate.ruleName, candidate.form.text, candidate.produces]
  let failed := step.error.toList.map fun error =>
    [ofNat step.index, [], errorCell error, []]
  found ++ failed

def retracing (graph : Graph) (sequence : RuleSequence) (word : Word) :
    Except Error (List Printed) := do
  let retrace ← (graph.retrace sequence word.form).result
  let table := Printed.table (some ("Reverse trace of ".toList ++ retrace.target))
    ["Step", "Rule", "Earlier form", "Produces"] (retrace.steps.flatMap retraceRows)
  let conclusion : Text := match retrace.haltedAt with
    | none => "Possible sources: ".toList ++ joinWith ", " retrace.sources
    | some step => "[yellow]No earlier form at step ".toList ++ ofNat step ++ "[/yellow]".toList
  return [table, .line conclusion]

def traceRow (entry : TraceEntry) : List Text :=
  let status := match entry.error with
    | none => entry.status.name
    | some error => entry.status.name ++ ": ".toList ++ error.message
  [ofNat entry.index, entry.ruleName, status, entry.before, entry.after]

def tracing (graph : Graph) (sequence : RuleSequence) (word : Word) :
    Except Error (List Printed) := do
  let derivation ← (graph.derive sequence word.form).result
  let title := derivation.source.text ++ " → ".toList ++ derivation.result.text
  let table := Printed.table (some title) ["Step", "Rule", "Status", "Before", "After"]
    (derivation.entries.map traceRow)
  let halt := derivation.haltedAt.toList.map fun step =>
    Printed.line ("[yellow]Halted at step ".toList ++ ofNat step ++ "[/yellow]".toList)
  return table :: halt

/-- What a sequence makes of a word, or may have made it from. -/
def traceOf (graph : Graph) (reference : Text) (word : Int) (backwards : Bool) :
    Except Error (List Printed) := do
  let sequence ← graph.sequence (← sequenceId graph reference)
  let word ← graph.word word
  if backwards then retracing graph sequence word else tracing graph sequence word

/-- The text of a cell: its forms, one a line, or what there is in their place. -/
def cellText (cell : ExpandedCell) : Text :=
  match cell.forms, cell.errors with
  | [], [] => "-"
  | [], _ => "[red]error[/red]"
  | forms, _ => joinWith ['\n'] (forms.map fun made => made.form.text)

def expansion (graph : Graph) (paradigm word : Int) : Except Error (List Printed) := do
  let paradigm ← graph.paradigm paradigm
  let expanded ← (paradigm.expand graph (← graph.word word)).result
  let rows := (paradigm.grid.rowTitles.zip expanded.cells).map fun (title, cells) =>
    title :: cells.map cellText
  return [.table (some (paradigm.name ++ ": ".toList ++ expanded.word.text))
    ([] :: paradigm.grid.columnTitles) rows]

def act (graph : Graph) : Action → Except Error (List Printed)
  | .check language => issues graph language
  | .reapply sequence => reapplication graph sequence
  | .trace sequence word backwards => traceOf graph sequence word backwards
  | .paradigm paradigm word => expansion graph paradigm word

/-- Carries out a request. A file that is not there is a mistake in the arguments. -/
def ofRequest (files : Text → Option Text) : Request → Report
  | .help => {}
  | .act file action =>
    match files file with
    | none => misuse
    | some contents => ofResult do act (← Archive.load (some contents)) action

def ofArguments (files : Text → Option Text) (arguments : List Text) : Report :=
  match Request.read? arguments with
  | none => misuse
  | some request => ofRequest files request

end Report

end Diachrony
