import Diachrony.Graph.Links
import Diachrony.Sequence.Derivation

/-!
Recording derivations: the rules that led from a word to the word derived from it
are written on the link between the two.
-/
namespace Diachrony

namespace Edit

/-- Runs a sequence over the word that a link leads to. If the derivation is
complete, the link records the sequence and the rules that applied. -/
def recordOnLink (link : Link) (sequence : RuleSequence)
    (marker : Text := Graph.usualMarker) : Edit Derivation := do
  let derivation ← ask fun graph => (graph.deriveLink link sequence marker).result
  if derivation.isComplete then
    let _ ← updateLink
      { link with rules := derivation.appliedRules, sequence := some sequence.id }
  return derivation

/-- Runs a sequence over a word and records the derivation on the derived link
from another word to it. -/
def recordDerivation (source target sequence : Int) (marker : Text := Graph.usualMarker) :
    Edit Derivation := do
  let sequence ← ask (·.sequence sequence)
  let links := (← get).linksFrom source (some .derived)
  match links.find? fun link => link.target == target with
  | none => throw (.notFound .link (linkName source target))
  | some link => recordOnLink link sequence marker

end Edit

end Diachrony
