import Diachrony.Graph.Languages
import Diachrony.Graph.Links
import Diachrony.Graph.Paradigms
import Diachrony.Graph.Rules
import Diachrony.Graph.Sequences
import Diachrony.Graph.Words

/-!
Entering things: additions to a graph from records that nobody has looked at yet.

Fields that have to be there are asked for first, in a fixed order. Then languages, words
and ids are looked up as they were given, and complaints name them so. The values of the
remaining fields are checked when the new thing has its id.
-/
namespace Diachrony

namespace Edit

open Record

def needField (record : Fields) (name : Text) : Edit Data := lift (require record name)

def enterWord (record : Fields) : Edit Word := do
  let text ← needField record "text"
  let language ← needField record "language"
  let id ← needField record "id"
  let language ← ask (·.languageName language)
  let details : Fields := ("text", text) :: without ["id", "text", "language"] record
  addWord id language fun word => assignKnown Word.known word details

def enterRuleName (record : Fields) : Edit Unit := do
  let name ← needField record "name"
  let _ ← reserveRule name (← needField record "id")

/-- Enters a rule, of which the logic may be known already. A blank target language is the
source language. -/
def enterRule (record : Fields) (logic : Option Logic := none) : Edit Rule := do
  let name ← needField record "name"
  let source ← needField record "from_language"
  let target ← needField record "to_language"
  let sourceText ← needField record "text"
  let id ← needField record "id"
  let fromLanguage ← ask (·.languageName source)
  let toLanguage ← ask (·.languageName (if target.isBlank then source else target))
  addRule id { name, fromLanguage, toLanguage, logic, sourceText } fun rule =>
    assignKnown Rule.detailsKnown rule record

/-- Enters a sequence. How the steps are found in the record is up to the caller. -/
def enterSequence (readSteps : Fields → Except Error (Written (List SequenceStep)))
    (record : Fields) : Edit RuleSequence := do
  let name ← needField record "name"
  let source ← needField record "from_language"
  let target ← needField record "to_language"
  let steps ← lift (readSteps record)
  let id ← needField record "id"
  let fromLanguage ← ask (·.languageName source)
  let toLanguage ← ask (·.languageName target)
  addSequence id name fromLanguage toLanguage steps fun sequence =>
    assignKnown RuleSequence.known sequence record

/-- A list of rules; a blank value stands for an empty one. -/
def ruleList (data : Data) : Data := if data.isBlank then .list [] else data

def enterLink (record : Fields) : Edit Link := do
  let source ← needField record "from_id"
  let target ← needField record "to_id"
  let _ ← lift (Link.requireKind (← needField record "type"))
  let rules := ruleList (getOrNull record "rule_ids")
  let details : Fields := ("rule_ids", rules) :: without ["rule_ids"] record
  addLink (← lift (Link.ofFields details)) source target

def enterCompound (record : Fields) : Edit Compound := do
  let whole ← needField record "compound_id"
  let components ← needField record "component_ids"
  let id ← needField record "id"
  let .list words := components | throw (.unusableValue "component_ids")
  (whole :: words).forM fun word => do
    let _ ← ask (·.wordUnder word)
  addCompound id (← lift (asInt "compound_id" whole))
    (← lift (asInts "component_ids" components))

/-- Has the ids from now on be no less than a number that was given. -/
def enterNextId (data : Data) : Edit Unit :=
  match GivenId.ofData? data with
  | some id => advanceIds (id.next - 1)
  | none => throw (.unusableValue "next_id")

end Edit

end Diachrony
