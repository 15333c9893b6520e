import Diachrony.Command.Report

/-!
Showing reports in plain characters: markup is left out, and the columns of a table
are as wide as their widest entry.
-/
namespace Diachrony

open Text (joinWith splitAt replaceAll)

namespace Printed

def markup : List Text :=
  ["[red]", "[/red]", "[yellow]", "[/yellow]", "[bold]", "[/bold]"]

def unmarked (text : Text) : Text :=
  markup.foldl (fun text mark => replaceAll mark [] text) text

def fill (width : Nat) (entry : Text) : Text :=
  entry ++ List.replicate (width - entry.length) ' '

def widths (rows : List (List Text)) (columns : Nat) : List Nat :=
  (List.range columns).map fun column =>
    (rows.map fun row => (row.getD column []).length).foldl max 0

/-- The lines that a row of entries takes, since an entry may have several. -/
def rowLines (row : List Text) : List (List Text) :=
  let entries := row.map (splitAt '\n')
  let height := (entries.map List.length).foldl max 0
  (List.range height).map fun line => entries.map fun lines => lines.getD line []

def tableLines (columns : List Text) (rows : List (List Text)) : List Text :=
  let lines := (columns :: rows).flatMap fun row => rowLines (row.map unmarked)
  let widths := widths lines columns.length
  lines.map fun line => joinWith "  " (List.zipWith fill widths line)

def lines : Printed → List Text
  | line text => [unmarked text]
  | table title columns rows => title.toList ++ tableLines columns rows

end Printed

def Report.lines (report : Report) : List Text := report.printed.flatMap Printed.lines

end Diachrony
