import Diachrony.Graph.Edit
import Diachrony.Record.Entity

namespace Diachrony

namespace Edit

def putWord (id : Int) (word : Word) : Edit Unit :=
  modify fun graph => { graph with words := graph.words.insert id word }

/-- Adds a word of a language under the requested id, which may not be in use, or under
the next free one. What else there is to say of the word is looked at last, so an id is
used up even where that is refused. -/
def addWord (requested : Data) (language : Text)
    (describe : Word → Except Error Word) : Edit Word := do
  let _ ← ask (·.language language)
  let graph ← get
  refuseIf (requested.number?.any graph.words.contains) (.duplicateWord requested)
  let id ← allocateFor requested
  let word ← lift (describe { id, language, text := [] })
  putWord id word
  return word

def setWord (id : Int) (field : Text) (data : Data) : Edit Unit := do
  let word ← ask (·.word id)
  putWord id (← lift (Record.assign Word.known word field data))

def updateWord (id : Int) (changes : Fields) : Edit Word := do
  changes.forM fun (field, data) => setWord id field data
  ask (·.word id)

/-- The graph without a word, its links and its compounds. Where the word is only
a component, the compound stays. -/
def withoutWord (graph : Graph) (id : Int) : Graph :=
  { graph with
    words := graph.words.erase id
    links := graph.links.filter fun _ link => link.source != id && link.target != id
    compounds :=
      (graph.compounds.filter fun _ compound => compound.whole != id).mapValues
        fun compound =>
          { compound with components := compound.components.filter (· != id) } }

/-- Deletes a word with every link and compound it is an end or the whole of. -/
def deleteWord (id : Int) : Edit Unit := do
  let _ ← ask (·.word id)
  modify fun graph => withoutWord graph id

end Edit

end Diachrony
