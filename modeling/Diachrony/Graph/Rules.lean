import Diachrony.Graph.Edit
import Diachrony.Logic.Reader
import Diachrony.Record.Entity

/-!
Edits of the rules of a graph.

A name can be reserved before its rule is there, so that rules may refer to each
other in any order. A rule that fails to be read gives its name back, unless the
name was reserved before.
-/
namespace Diachrony

namespace Edit

def putRule (id : Int) (rule : Rule) : Edit Unit :=
  modify fun graph => { graph with rules := graph.rules.insert id rule }

def putRuleNames (change : Table Key GivenId → Table Key GivenId) : Edit Unit :=
  modify fun graph => { graph with ruleNames := change graph.ruleNames }

def requestsOther (requested : Data) (id : GivenId) : Bool :=
  match requested with
  | .null => false
  | requested => requested.key? != id.toData.key?

/-- Reserves a name for the requested id or for the next free one, and gives the
id. A name that is already reserved keeps its id, so no other one may be
requested for it. -/
def reserveRule (name requested : Data) : Edit GivenId := do
  let key ← keyOf "name" name
  match (← get).ruleNames.get? key with
  | some existing =>
    refuseIf (requestsOther requested existing) (.ruleRegistered name existing)
    return existing
  | none =>
    let id ← allocateGiven requested
    putRuleNames (·.insert key id)
    return id

def registerRules (names : List Text) : Edit (List (Text × GivenId)) :=
  names.eraseDups.mapM fun name => do
    return (name, ← reserveRule (.text name) .null)

/-- The logic of a draft. A blank source text is read as an empty one. -/
def logicOf (draft : RuleDraft) : Edit Logic :=
  match draft.logic with
  | some logic => return logic
  | none => do
    let text ←
      if draft.sourceText.isBlank then pure []
      else
        let .text text := draft.sourceText | throw (.valueWithoutParts "text")
        pure text
    ask fun graph => Logic.readFor graph.resolver draft.name text

/-- Adds a rule. Its languages have to exist, and its name may not have a rule yet. What
else there is to say of the rule is looked at when the logic has been read, and so is
whether name, id and text will do; where that is refused, the name stays reserved. -/
def addRule (requested : Data) (draft : RuleDraft)
    (describe : Rule → Except Error Rule := .ok) : Edit Rule := do
  let _ ← ask (·.language draft.fromLanguage)
  let _ ← ask (·.language draft.toLanguage)
  let graph ← get
  let key ← keyOf "name" draft.name
  let isReserved := graph.ruleNames.contains key
  refuseIf (graph.namedRule? key).isSome (.duplicateRule draft.name)
  let id ← reserveRule draft.name requested
  let logic ← tryCatch (logicOf draft) fun error => do
    if !isReserved && error.isRecordable then putRuleNames (·.erase key)
    throw error
  let id ← lift (Record.asInt "id" id.toData)
  let name ← lift (Record.asText "name" draft.name)
  let sourceText ← lift (Record.orNull (Record.asText "source_text") draft.sourceText)
  let rule ← lift (describe (draft.rule id name sourceText logic))
  putRule id rule
  return rule

def replaceText (id : Int) (text : Text) : Edit Unit := do
  let rule ← ask (·.rule id)
  let logic ← ask fun graph => Logic.readFor graph.resolver (.text rule.name) text
  putRule id { rule with logic, sourceText := some text }

def setRule (id : Int) (field : Text) (data : Data) : Edit Unit := do
  let rule ← ask (·.rule id)
  putRule id (← lift (Record.assign Rule.known rule field data))

/-- Gives a rule another text, if there is one, and sets some of its fields, one
after the other. The name stays what it is. -/
def updateRule (id : Int) (text : Option Text) (changes : Fields) : Edit Rule := do
  let rule ← ask (·.rule id)
  let isRenamed := match Record.get? changes "name" with
    | some (.text name) => name != rule.name
    | some _ => true
    | none => false
  refuseIf isRenamed (.ruleRenamed rule.name)
  text.forM (replaceText id)
  changes.forM fun (field, data) => setRule id field data
  ask (·.rule id)

/-- Why a rule may not be deleted, if there is a reason: another rule refers to
it, or a language designates it. -/
def deletionConflict? (graph : Graph) (id : Int) (rule : Rule) : Option Conflict :=
  let users := graph.rules.values.filter fun other =>
    other.id != id && other.logic.references.contains id
  let designators := graph.languages.values.filter fun language =>
    language.designatedRules.contains id
  (users.head?.map fun user => .ruleUsed rule.name user.name) <|>
    designators.head?.map fun language => .ruleDesignated rule.name language.shortName

end Edit

/-- A step without a rule: the alternative takes the place of the rule, and a step
without an alternative goes. -/
def SequenceStep.withoutRule? (step : SequenceStep) (id : Int) : Option SequenceStep :=
  if step.rule = id then
    step.alternative.map fun alternative =>
      { step with rule := alternative, alternative := none }
  else if step.alternative = some id then some { step with alternative := none }
  else some step

def RuleSequence.withoutRule (sequence : RuleSequence) (id : Int) : RuleSequence :=
  { sequence with steps := sequence.steps.filterMap (·.withoutRule? id) }

def Paradigm.withoutRule (paradigm : Paradigm) (id : Int) : Paradigm :=
  { paradigm with grid := paradigm.grid.eraseRule id }

def Link.withoutRule (link : Link) (id : Int) : Link :=
  { link with rules := link.rules.filter (· != id) }

namespace Edit

/-- The graph without a rule: its name is free, and steps, cells and links do
without it. -/
def withoutRule (graph : Graph) (id : Int) (name : Text) : Graph :=
  { graph with
    rules := graph.rules.erase id
    ruleNames := graph.ruleNames.erase (.text name)
    sequences := graph.sequences.mapValues (·.withoutRule id)
    paradigms := graph.paradigms.mapValues (·.withoutRule id)
    links := graph.links.mapValues (·.withoutRule id) }

def deleteRule (id : Int) : Edit Unit := do
  let graph ← get
  let rule ← ask (·.rule id)
  refuse (deletionConflict? graph id rule)
  modify fun graph => withoutRule graph id rule.name

end Edit

end Diachrony
