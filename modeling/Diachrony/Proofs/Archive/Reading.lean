import Diachrony.Archive
import Diachrony.Proofs.Graph.Allotment
import Diachrony.Proofs.Record.RoundTrip

/-!
# What is entered from the record of something

The record of a thing puts that thing back into a graph, under the id that it had, where
the graph has what it refers to and nothing is in its place.
-/
namespace Diachrony

namespace Edit

open Record

variable {graph : Graph}

theorem on_allocateGiven_integer (graph : Graph) (id : Int) :
    (allocateGiven (.integer id)).on graph = (.ok (.whole id), handedOut graph id) := rfl

theorem ends_allocateFor_integer {id : Int} {Given : Int → Graph → Prop} {Failed : Graph → Prop} :
    (allocateFor (.integer id)).Ends graph Given Failed ↔ Given id (handedOut graph id) := by
  unfold allocateFor Ends
  rw [on_bind, on_allocateGiven_integer]
  rfl

end Edit

namespace Archive

open Record Edit

variable {graph : Graph} {Given : Unit → Graph → Prop} {Failed : Graph → Prop}

theorem ends_readLanguage (order : SetOrder) {language : Language}
    (isNamed : language.shortName ≠ [])
    (isNew : graph.languages.contains language.shortName = false)
    (given : Given ()
      { graph with
        languages := graph.languages.insert language.shortName (language.listedIn order) }) :
    (readLanguage (language.toData order)).Ends graph Given Failed := by
  unfold readLanguage
  rw [ends_bind_lift (Language.ofData_toData order isNamed)]
  unfold addLanguage
  rw [ends_bind, ends_get]
  exact (ends_bind_refuseIf isNew).mpr given

theorem ends_readWord {word : Word}
    (isLanguage : graph.languages.contains word.language = true)
    (isNew : graph.words.contains word.id = false)
    (given : Given ()
      { handedOut graph word.id with words := graph.words.insert word.id word }) :
    (onPairs enterWord word.toData).Ends graph Given Failed := by
  obtain ⟨language, isFound⟩ := exists_language isLanguage
  have areFields : fieldsOrPairs word.toData = .ok word.fields := rfl
  have isText : require word.fields "text" = .ok (.text word.text) := rfl
  have isName : require word.fields "language" = .ok (.text word.language) := rfl
  have isId : require word.fields "id" = .ok (.integer word.id) := rfl
  unfold onPairs
  rw [ends_bind_lift areFields, ends_bind]
  unfold enterWord needField
  rw [ends_bind_lift isText, ends_bind_lift isName, ends_bind_lift isId,
    ends_bind_ask (languageName_text isLanguage)]
  unfold addWord
  dsimp only
  rw [ends_bind_ask isFound, ends_bind, ends_get]
  rw [ends_bind_refuseIf (by exact isNew), ends_bind,
      ends_allocateFor_integer, ends_bind_lift word.assignKnown_fields]
  exact given

/-- The text that a rule is archived as; a rule without one has an empty logic. -/
def textOf (rule : Rule) : Text := rule.sourceText.getD []

def ruleFields (rule : Rule) : Fields := ("text", .text (textOf rule)) :: rule.fields

def withText (rule : Rule) : Rule := { rule with sourceText := some (textOf rule) }

theorem ends_readRuleName {rule : Rule} (isNew : graph.ruleNames.get? (.text rule.name) = none)
    (given : Given ()
      { handedOut graph rule.id with
        ruleNames := graph.ruleNames.insert (.text rule.name) (.whole rule.id) }) :
    (onFields enterRuleName (.record (ruleFields rule))).Ends graph Given Failed := by
  have isName : require (ruleFields rule) "name" = .ok (.text rule.name) := rfl
  have isId : require (ruleFields rule) "id" = .ok (.integer rule.id) := rfl
  have isKey : (keyOf "name" (.text rule.name)).on graph = (.ok (.text rule.name), graph) := rfl
  unfold onFields
  dsimp only
  unfold enterRuleName needField
  rw [ends_bind, ends_bind_lift isName, ends_bind_lift isId]
  unfold reserveRule
  rw [ends_bind, ends_bind_of_on isKey, ends_bind, ends_get, isNew]
  dsimp only
  rw [ends_bind_of_on (on_allocateGiven_integer _ _)]
  exact given

/-- A name that stands for the id that is asked for keeps it. -/
theorem on_reserveRule_again {name : Text} {id : Int}
    (isNamed : graph.ruleNames.get? (.text name) = some (.whole id)) :
    (reserveRule (.text name) (.integer id)).on graph = (.ok (.whole id), graph) := by
  have isSame : requestsOther (.integer id) (.whole id) = false := by
    change ((some (Key.number id)) != some (Key.number id)) = false
    exact bne_self_eq_false _
  have isKey : (keyOf "name" (.text name)).on graph = (.ok (.text name), graph) := rfl
  have isStored : (get : Edit Graph).on graph = (.ok graph, graph) := rfl
  unfold reserveRule
  rw [on_bind, isKey]
  dsimp only
  rw [on_bind, isStored]
  dsimp only
  rw [isNamed]
  dsimp only
  rw [isSame]
  rfl

def draftOf (rule : Rule) : RuleDraft where
  name := .text rule.name
  fromLanguage := rule.fromLanguage
  toLanguage := rule.toLanguage
  sourceText := .text (textOf rule)

theorem on_logicOf_draftOf (rule : Rule) (graph : Graph) :
    (logicOf (draftOf rule)).on graph =
      (Logic.readFor graph.resolver (.text rule.name) (textOf rule), graph) := by
  unfold logicOf draftOf
  cases textOf rule with
  | nil => exact on_ask graph _
  | cons char text => exact on_ask graph _

section

variable {rule : Rule} (isFrom : graph.languages.contains rule.fromLanguage = true)
  (isTo : graph.languages.contains rule.toLanguage = true)
  (isExpected : graph.ruleNames.get? (.text rule.name) = some (.whole rule.id))
  (isNew : graph.rules.get? rule.id = none)
  (given : ∀ logic, Logic.read graph.resolver (textOf rule) = .ok logic → Given ()
    { graph with rules := graph.rules.insert rule.id { withText rule with logic } })
  (failed : (∀ logic, Logic.read graph.resolver (textOf rule) ≠ .ok logic) → Failed graph)

include isFrom isTo isExpected isNew given failed

theorem ends_addRule_draftOf :
    (addRule (.integer rule.id) (draftOf rule) fun draft =>
      assignKnown Rule.detailsKnown draft (ruleFields rule)).Ends graph (fun _ => Given ()) Failed := by
  obtain ⟨source, isSourceFound⟩ := exists_language isFrom
  obtain ⟨target, isTargetFound⟩ := exists_language isTo
  have isKey : (keyOf "name" (draftOf rule).name).on graph = (.ok (.text rule.name), graph) := rfl
  have noRule : (graph.namedRule? (.text rule.name)).isSome = false := by
    unfold Graph.namedRule?
    rw [isExpected]
    change (graph.rules.get? rule.id).isSome = false
    rw [isNew]
    rfl
  have isReserved : (reserveRule (draftOf rule).name (.integer rule.id)).on graph =
      (.ok (.whole rule.id), graph) := on_reserveRule_again isExpected
  unfold addRule
  rw [ends_bind_ask isSourceFound, ends_bind_ask isTargetFound, ends_bind, ends_get,
    ends_bind_of_on isKey]
  dsimp only
  rw [ends_bind_refuseIf noRule, ends_bind_of_on isReserved, ends_bind]
  refine (onlyAsks_logicOf _).ends_tryCatch (fun logic isLogic => ?_) fun error isError => ?_
  · rw [on_logicOf_draftOf] at isLogic
    have isDescribed : assignKnown Rule.detailsKnown
        ((draftOf rule).rule rule.id rule.name (some (textOf rule)) logic) (ruleFields rule) =
          .ok { withText rule with logic } :=
      Rule.assignKnown_fields { withText rule with logic } _
    have isId : asInt "id" (GivenId.whole rule.id).toData = .ok rule.id := rfl
    have isName : asText "name" (draftOf rule).name = .ok rule.name := rfl
    have isText : orNull (asText "source_text") (draftOf rule).sourceText =
      .ok (some (textOf rule)) := rfl
    rw [ends_bind_lift isId, ends_bind_lift isName, ends_bind_lift isText,
      ends_bind_lift isDescribed]
    exact given logic (Logic.readFor_eq_ok.mp isLogic)
  · rw [Table.contains_of_get? isExpected]
    refine failed fun logic isLogic => ?_
    rw [on_logicOf_draftOf, Logic.readFor_eq_ok.mpr isLogic] at isError
    cases isError

/-- A rule is put back with the logic that its text is read as, if it is read as one. -/
theorem ends_readRule (isNamed : rule.toLanguage ≠ []) :
    (onFields enterRule (.record (ruleFields rule))).Ends graph Given Failed := by
  have isName : require (ruleFields rule) "name" = .ok (.text rule.name) := rfl
  have isSource : require (ruleFields rule) "from_language" = .ok (.text rule.fromLanguage) := rfl
  have isTarget : require (ruleFields rule) "to_language" = .ok (.text rule.toLanguage) := rfl
  have isText : require (ruleFields rule) "text" = .ok (.text (textOf rule)) := rfl
  have isId : require (ruleFields rule) "id" = .ok (.integer rule.id) := rfl
  have notBlank : (Data.text rule.toLanguage).isBlank = false := by
    change rule.toLanguage.isEmpty = false
    rwa [List.isEmpty_eq_false_iff]
  unfold onFields
  dsimp only
  rw [ends_bind]
  unfold enterRule needField
  rw [ends_bind_lift isName, ends_bind_lift isSource, ends_bind_lift isTarget,
    ends_bind_lift isText, ends_bind_lift isId, ends_bind_ask (languageName_text isFrom), notBlank]
  rw [ends_bind_ask (languageName_text isTo)]
  exact ends_addRule_draftOf isFrom isTo isExpected isNew given failed

end

theorem readSteps_fields (sequence : RuleSequence) :
    readSteps sequence.fields = .ok (.value sequence.steps) := by
  have areSteps := asList_map "steps" SequenceStep.ofData_toData sequence.steps
  rw [List.map_id'] at areSteps
  change ((sequence.steps.map SequenceStep.toData).mapM SequenceStep.ofData >>= _) = _
  change (sequence.steps.map SequenceStep.toData).mapM SequenceStep.ofData = _ at areSteps
  rw [areSteps]
  rfl

/-- A sequence is put back if its steps fit. -/
theorem ends_readSequence {sequence : RuleSequence}
    (isFrom : graph.languages.contains sequence.fromLanguage = true)
    (isTo : graph.languages.contains sequence.toLanguage = true)
    (given : (∀ step ∈ sequence.steps, step.FitsIn graph sequence) → Given ()
      { handedOut graph sequence.id with
        sequences := graph.sequences.insert sequence.id sequence })
    (failed : ¬(∀ step ∈ sequence.steps, step.FitsIn graph sequence) →
      Failed (handedOut graph sequence.id)) :
    (onFields (enterSequence readSteps) sequence.toData).Ends graph Given Failed := by
  have isName : require sequence.fields "name" = .ok (.text sequence.name) := rfl
  have isSource : require sequence.fields "from_language" = .ok (.text sequence.fromLanguage) := rfl
  have isTarget : require sequence.fields "to_language" = .ok (.text sequence.toLanguage) := rfl
  have isId : require sequence.fields "id" = .ok (.integer sequence.id) := rfl
  have isText : asText "name" (.text sequence.name) = .ok sequence.name := rfl
  have areSteps : (stepsOf (.text sequence.name) (.value sequence.steps)).on graph =
      (.ok sequence.steps, graph) := rfl
  obtain ⟨source, isSourceFound⟩ := exists_language isFrom
  obtain ⟨target, isTargetFound⟩ := exists_language isTo
  change (enterSequence readSteps sequence.fields >>= fun _ => pure ()).Ends graph Given Failed
  rw [ends_bind]
  unfold enterSequence needField
  rw [ends_bind_lift isName, ends_bind_lift isSource, ends_bind_lift isTarget,
    ends_bind_lift (readSteps_fields sequence), ends_bind_lift isId,
    ends_bind_ask (languageName_text isFrom), ends_bind_ask (languageName_text isTo)]
  unfold addSequence
  rw [ends_bind_ask isSourceFound, ends_bind_ask isTargetFound, ends_bind_of_on areSteps,
    ends_bind, ends_allocateFor_integer, ends_bind_lift isText,
    ends_bind_lift sequence.assignKnown_fields, ends_bind]
  exact ends_checkSteps failed given

theorem ends_readParadigm {paradigm : Paradigm} (isPositive : 0 < paradigm.id)
    (isLanguage : graph.languages.contains paradigm.language = true)
    (areRules : ∀ id ∈ paradigm.grid.rules, graph.rules.contains id = true)
    (given : Given ()
      { handedOut graph paradigm.id with
        paradigms := graph.paradigms.insert paradigm.id paradigm }) :
    (readParadigm paradigm.toData).Ends graph Given Failed := by
  obtain ⟨language, isFound⟩ := exists_language isLanguage
  have isAllocated : (allocate (some paradigm.id)).on graph =
      (.ok paradigm.id, handedOut graph paradigm.id) := rfl
  have isChecked : (checkCells paradigm).on (handedOut graph paradigm.id) =
      (.ok (), handedOut graph paradigm.id) := checkCells_eq_ok.mpr areRules
  unfold readParadigm
  rw [ends_bind_lift paradigm.ofData_toData, ends_bind]
  unfold addTemplate
  rw [ends_bind_ask isFound, if_pos isPositive, ends_bind_of_on isAllocated]
  unfold storeParadigm
  rw [ends_bind_of_on isChecked]
  exact given

theorem ruleList_ofInts (numbers : List Int) : ruleList (.ofInts numbers) = .ofInts numbers := by
  cases numbers <;> rfl

theorem ends_readLink {link : Link} (belongs : link.BelongsIn graph)
    (isNew : graph.links.contains link.key = false)
    (given : Given () { graph with links := graph.links.insert link.key link }) :
    (onPairs enterLink link.toData).Ends graph Given Failed := by
  have areFields : fieldsOrPairs link.toData = .ok link.fields := rfl
  have isSource : require link.fields "from_id" = .ok (.integer link.source) := rfl
  have isTarget : require link.fields "to_id" = .ok (.integer link.target) := rfl
  have isKind : require link.fields "type" = .ok (.text link.kind.name) := rfl
  have areRules : ruleList (getOrNull link.fields "rule_ids") = .ofInts link.rules :=
    ruleList_ofInts link.rules
  have isChecked : (checkLink link).on graph = (.ok (), graph) := checkLink_eq_ok.mpr belongs
  unfold onPairs
  rw [ends_bind_lift areFields, ends_bind]
  unfold enterLink needField
  rw [ends_bind_lift isSource, ends_bind_lift isTarget, ends_bind_lift isKind,
    ends_bind_lift (Link.requireKind_name link.kind)]
  dsimp only
  rw [areRules, ends_bind_lift link.ofFields_fields]
  unfold addLink
  rw [ends_bind_of_on isChecked, ends_bind, ends_get, ends_bind_refuseIf isNew]
  exact given

theorem wordUnder_integer {id : Int} (isStored : graph.words.contains id = true) :
    ∃ word, graph.wordUnder (.integer id) = .ok word := by
  obtain ⟨word, isFound⟩ := Table.exists_of_contains isStored
  refine ⟨word, ?_⟩
  change Graph.found .word (Text.ofInt id) (graph.words.get? id) = .ok word
  rw [isFound]
  rfl

theorem ends_readCompound {compound : Compound}
    (areWords : ∀ id ∈ compound.whole :: compound.components, graph.words.contains id = true)
    (given : Given ()
      { handedOut graph compound.id with
        compounds := graph.compounds.insert compound.id compound }) :
    (onFields enterCompound compound.toData).Ends graph Given Failed := by
  have isWholeGiven : require compound.fields "compound_id" = .ok (.integer compound.whole) := rfl
  have areGiven : require compound.fields "component_ids" =
      .ok (.list (compound.components.map .integer)) := rfl
  have isId : require compound.fields "id" = .ok (.integer compound.id) := rfl
  have areInts : asInts "component_ids" (.list (compound.components.map .integer)) =
      .ok compound.components := asInts_ofInts "component_ids" compound.components
  have isWhole : asInt "compound_id" (.integer compound.whole) = .ok compound.whole := rfl
  have areKnown : ((Data.integer compound.whole :: compound.components.map .integer).forM fun word =>
      do let _ ← ask (·.wordUnder word)).on graph = (.ok (), graph) := by
    refine (on_forM_eq_ok fun word _ => onlyAsks_checkWordUnder word).mpr fun word isMember => ?_
    have isGiven : word ∈ (compound.whole :: compound.components).map Data.integer := isMember
    obtain ⟨id, isWord, rfl⟩ := List.mem_map.mp isGiven
    exact on_asked_eq_ok.mpr (wordUnder_integer (areWords id isWord))
  have areStored : ((compound.whole :: compound.components).forM fun word =>
      do let _ ← ask (·.word word)).on graph = (.ok (), graph) := by
    refine (on_forM_eq_ok fun word _ => onlyAsks_checkWord word).mpr fun word isMember => ?_
    exact on_asked_eq_ok.mpr (exists_found_iff.mpr (areWords word isMember))
  change (enterCompound compound.fields >>= fun _ => pure ()).Ends graph Given Failed
  rw [ends_bind]
  unfold enterCompound needField
  rw [ends_bind_lift isWholeGiven, ends_bind_lift areGiven, ends_bind_lift isId]
  dsimp only
  rw [ends_bind_of_on areKnown, ends_bind_lift isWhole, ends_bind_lift areInts]
  unfold addCompound
  rw [ends_bind_of_on areStored, ends_bind, ends_allocateFor_integer]
  exact given

end Archive

end Diachrony
