import Diachrony.Graph.Edit
import Diachrony.Record.Language

namespace Diachrony

namespace Edit

def putLanguage (shortName : Text) (language : Language) : Edit Unit :=
  modify fun graph =>
    { graph with languages := graph.languages.insert shortName language }

/-- Adds a language. Its short name may not be in use. -/
def addLanguage (language : Language) : Edit Unit := do
  let graph ← get
  refuseIf (graph.languages.contains language.shortName)
    (.duplicateLanguage language.shortName)
  putLanguage language.shortName language

def addPhoneme (shortName : Text) (phoneme : Phoneme) : Edit Unit := do
  let language ← ask (·.language shortName)
  putLanguage shortName { language with phonemes := language.phonemes ++ [phoneme] }

/-- Takes the phonemes that are spelled in some way out of a language. There has
to be one. -/
def deletePhoneme (shortName spelling : Text) : Edit Unit := do
  let language ← ask (·.language shortName)
  let remaining := language.phonemes.filter fun phoneme =>
    !phoneme.graphemes.contains spelling
  if remaining.length = language.phonemes.length then
    throw (.notFound .phoneme (shortName ++ ':' :: spelling))
  putLanguage shortName { language with phonemes := remaining }

/-- Sets one field of a language. It stays under the short name it is stored
under. -/
def setLanguage (shortName field : Text) (data : Data) : Edit Unit := do
  let language ← ask (·.language shortName)
  putLanguage shortName (← lift (Record.assign Language.known language field data))

end Edit

end Diachrony
