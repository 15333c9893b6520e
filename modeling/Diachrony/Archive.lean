import Diachrony.Data.Reader
import Diachrony.Graph.Entry

/-!
Archives: a whole graph as a record.

Rules are archived as text. Reading an archive builds the graph up again by the
same edits that built it, all rule names first, so that rules may refer to rules
further down.
-/
namespace Diachrony

namespace Archive

open Record Edit

def version : Int := 1

def write (graph : Graph) (order : SetOrder := .sorted) : Except Error Data := do
  let rules ← graph.rules.values.mapM Rule.toData
  return .record [
    ("version", .integer version),
    ("next_id", .integer graph.nextId),
    ("languages", .list (graph.languages.values.map fun language => language.toData order)),
    ("words", .list (graph.words.values.map Word.toData)),
    ("rules", .list rules),
    ("sequences", .list (graph.sequences.values.map RuleSequence.toData)),
    ("paradigms", .list (graph.paradigms.values.map Paradigm.toData)),
    ("links", .list (graph.links.values.map Link.toData)),
    ("compounds", .list (graph.compounds.values.map Compound.toData))]

/-- The record of a graph as a file holds it, where numbers have to fit into machine
words. -/
def save (graph : Graph) (order : SetOrder := .sorted) : Except Error Data := do
  let data ← write graph order
  if data.fitsWords then return data else throw (.unusableValue "number")

def readLanguage (data : Data) : Edit Unit := do
  addLanguage (← lift (Language.ofData data))

def readParadigm (data : Data) : Edit Unit := do
  let _ ← addTemplate (← lift (Paradigm.ofData data))

def readSteps (record : Fields) : Except Error (Written (List SequenceStep)) := do
  return .value (← (← items record "steps").mapM SequenceStep.ofData)

/-- Reads the records in a list that may be missing, one after the other. -/
def readEach (archive : Fields) (name : Text) (readOne : Data → Edit Unit) : Edit Unit := do
  (← lift (items archive name)).forM readOne

/-- Reads a value as a record. -/
def onFields {α : Type} (enter : Fields → Edit α) (data : Data) : Edit Unit := do
  let .record record := data | throw (.unusableValue "record")
  let _ ← enter record

/-- Reads a value as a record or as a list of pairs. -/
def onPairs {α : Type} (enter : Fields → Edit α) (data : Data) : Edit Unit := do
  let _ ← enter (← lift (fieldsOrPairs data))

def readAll (archive : Fields) : Edit Unit := do
  readEach archive "languages" readLanguage
  readEach archive "words" (onPairs enterWord)
  readEach archive "rules" (onFields enterRuleName)
  readEach archive "rules" (onFields enterRule)
  readEach archive "sequences" (onFields (enterSequence readSteps))
  readEach archive "paradigms" readParadigm
  readEach archive "links" (onPairs enterLink)
  readEach archive "compounds" (onFields enterCompound)
  enterNextId ((get? archive "next_id").getD (.integer 1))

def read (data : Data) : Except Error Graph := do
  let .record archive := data | throw (.valueWithoutParts "archive")
  match (readAll archive).on {} with
  | (.ok _, graph) => return graph
  | (.error error, _) => throw error

/-- The graph in an archive file with some contents; a file that is not there has
none. -/
def load : Option Text → Except Error Graph
  | none => .error (.unreadableArchive "no such file")
  | some contents =>
    match Data.read? contents with
    | some data => read data
    | none => .error (.unreadableArchive "malformed JSON")

end Archive

end Diachrony
