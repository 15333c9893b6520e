import Diachrony.Command.Rendering

/-! The command line: reads a graph from a file and reports on it. -/

namespace Diachrony

def usage : List String := [
  "usage: diachrony check GRAPH [--language NAME]",
  "       diachrony reapply GRAPH SEQUENCE",
  "       diachrony trace GRAPH SEQUENCE WORD [--reverse]",
  "       diachrony paradigm GRAPH PARADIGM WORD"]

def contents? (file : Text) : IO (Option Text) := do
  try
    return some (← IO.FS.readFile (String.ofList file)).toList
  catch _ => return none

def showReport : Request → IO UInt32
  | .help => do
    usage.forM IO.println
    return 0
  | .act file action => do
    let contents ← contents? file
    let report := Report.ofRequest (fun _ => contents) (.act file action)
    report.lines.forM fun line => IO.println (String.ofList line)
    if let some error := report.crash then
      IO.eprintln (String.ofList error.message)
    if report.exit == 2 then usage.forM IO.eprintln
    return report.exit.toUInt32

end Diachrony

def main (arguments : List String) : IO UInt32 := do
  match Diachrony.Request.read? (arguments.map String.toList) with
  | none => do
    Diachrony.usage.forM IO.eprintln
    return 2
  | some request => Diachrony.showReport request
