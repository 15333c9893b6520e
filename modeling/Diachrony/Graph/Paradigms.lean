import Diachrony.Graph.Edit
import Diachrony.Paradigm

namespace Diachrony

namespace Edit

def checkCells (paradigm : Paradigm) : Edit Unit := do
  let graph ← get
  let missing := paradigm.grid.rules.find? fun rule => !graph.rules.contains rule
  refuse (missing.map (.missingRuleInParadigm paradigm.name))

def putParadigm (id : Int) (paradigm : Paradigm) : Edit Unit :=
  modify fun graph => { graph with paradigms := graph.paradigms.insert id paradigm }

/-- The grid that a text writes down; without a text it is empty. -/
def gridOf : Option Text → Edit Grid
  | some text => ask fun graph => Grid.read graph.resolver text
  | none => return {}

/-- Stores a paradigm under its id, after a check of its cells. -/
def storeParadigm (paradigm : Paradigm) : Edit Paradigm := do
  checkCells paradigm
  putParadigm paradigm.id paradigm
  return paradigm

/-- Adds a paradigm of a language under the requested id or the next free one. Its grid
may be given as a text. What else there is to say of the paradigm is looked at when it
has its id, and the cells are checked last. -/
def addParadigm (requested : Data) (language : Text) (written : Option Text)
    (describe : Paradigm → Except Error Paradigm) : Edit Paradigm := do
  let _ ← ask (·.language language)
  let grid ← gridOf written
  let id ← allocateFor requested
  storeParadigm (← lift (describe { id, language, grid, name := [] }))

/-- Adds a paradigm that was made elsewhere. An id above zero is requested. -/
def addTemplate (paradigm : Paradigm) : Edit Paradigm := do
  let _ ← ask (·.language paradigm.language)
  let id ← allocate (if 0 < paradigm.id then some paradigm.id else none)
  storeParadigm { paradigm with id }

def setCell (id row column : Int) (rules : List Int) : Edit Paradigm := do
  let paradigm ← ask (·.paradigm id)
  rules.forM fun rule => do
    let _ ← ask (·.rule rule)
  let grid ← lift (paradigm.grid.setCell paradigm.name row column rules)
  let paradigm := { paradigm with grid }
  putParadigm id paradigm
  return paradigm

end Edit

end Diachrony
