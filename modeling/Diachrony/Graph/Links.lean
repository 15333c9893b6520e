import Diachrony.Graph.Edit

namespace Diachrony

namespace Edit

def checkLink (link : Link) : Edit Unit := do
  let _ ← ask (·.word link.source)
  let _ ← ask (·.word link.target)
  link.rules.forM fun rule => do
    let _ ← ask (·.rule rule)
  link.sequence.forM fun sequence => do
    let _ ← ask (·.sequence sequence)

def putLink (link : Link) : Edit Unit :=
  modify fun graph => { graph with links := graph.links.insert link.key link }

def linkName (source target : Int) : Text :=
  Text.ofInt source ++ "->".toList ++ Text.ofInt target

def requireLink (key : LinkKey) : Edit Unit := do
  if !(← get).links.contains key then
    throw (.notFound .link (linkName key.source key.target))

/-- Adds a link, of which there may not be one yet. The complaint about one that is there
names the words as they were given. -/
def addLink (link : Link) (givenSource givenTarget : Data) : Edit Link := do
  checkLink link
  refuseIf ((← get).links.contains link.key) (.duplicateLink givenSource givenTarget)
  putLink link
  return link

def updateLink (link : Link) : Edit Link := do
  requireLink link.key
  checkLink link
  putLink link
  return link

def deleteLink (key : LinkKey) : Edit Unit := do
  requireLink key
  modify fun graph => { graph with links := graph.links.erase key }

def addCompound (requested : Data) (whole : Int) (components : List Int) :
    Edit Compound := do
  (whole :: components).forM fun word => do
    let _ ← ask (·.word word)
  let id ← allocateFor requested
  let compound : Compound := ⟨id, whole, components⟩
  modify fun graph => { graph with compounds := graph.compounds.insert id compound }
  return compound

end Edit

end Diachrony
