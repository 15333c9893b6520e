import Diachrony.Proofs.Graph.Changes
import Diachrony.Proofs.Graph.Checks
import Diachrony.Proofs.Record.Assignment

/-!
# Edits that leave a graph orderly

Edits of an orderly graph leave it orderly, also where they fail half way, as long as ids
are handed out in turn, rules are given as texts and nothing is assigned directly.
-/
namespace Diachrony

namespace Edit

open Diachrony.Graph (IsOrderly)
open Record (assignKnown)

variable {α β : Type} {graph : Graph}

abbrev KeepsOrder (edit : Edit α) : Prop := edit.Keeps IsOrderly

theorem contains_of_found {κ : Type} [DecidableEq κ] {kind : EntityKind} {identifier : Text}
    {table : Table κ α} {key : κ} {value : α}
    (gave : Graph.found kind identifier (table.get? key) = .ok value) :
    table.contains key = true :=
  Table.contains_of_get? (Graph.found_eq_ok gave)

theorem on_allocate_none (graph : Graph) :
    (allocate none).on graph = (.ok graph.nextId, { graph with nextId := graph.nextId + 1 }) := by
  change (Except.ok graph.nextId, { graph with nextId := max graph.nextId (graph.nextId + 1) }) = _
  rw [Int.max_eq_right (Int.le_of_lt (Int.lt_succ _))]

theorem on_allocateGiven_null (graph : Graph) :
    (allocateGiven .null).on graph =
      (.ok (.whole graph.nextId), { graph with nextId := graph.nextId + 1 }) := by
  unfold allocateGiven
  dsimp only
  rw [on_bind, on_allocate_none]
  rfl

@[simp] theorem ends_allocateFor_null {Given : Int → Graph → Prop} {Failed : Graph → Prop} :
    (allocateFor .null).Ends graph Given Failed ↔
      Given graph.nextId { graph with nextId := graph.nextId + 1 } := by
  unfold allocateFor Ends
  rw [on_bind, on_allocateGiven_null]
  rfl

theorem keepsOrder_advanceIds (nextId : Int) : (advanceIds nextId).KeepsOrder :=
  fun _ isOrderly => isOrderly.count (Int.le_max_left _ _)

theorem keepsOrder_addLanguage {language : Language} (isSome : language.shortName ≠ []) :
    (addLanguage language).KeepsOrder := by
  intro graph isOrderly
  unfold addLanguage
  rw [ends_bind, ends_get, ends_bind, ends_refuseIf]
  exact ⟨fun _ => isOrderly, fun _ => isOrderly.putLanguage isSome⟩

theorem keepsOrder_changeLanguage {shortName : Text} (change : Language → Language)
    (sameName : ∀ language, (change language).shortName = language.shortName)
    (language : Language) (graph : Graph) (isOrderly : graph.IsOrderly)
    (isFound : graph.language shortName = .ok language) :
    (putLanguage shortName (change language)).Ends graph (fun _ => IsOrderly) IsOrderly := by
  have isStored := Graph.found_eq_ok isFound
  have isName : shortName = (change language).shortName :=
    (isOrderly.tables.languages.key_eq isStored).trans (sameName language).symm
  subst isName
  exact isOrderly.putLanguage (sameName language ▸ isOrderly.tables.languages.fits_of_get? isStored)

theorem keepsOrder_addPhoneme (shortName : Text) (phoneme : Phoneme) :
    (addPhoneme shortName phoneme).KeepsOrder :=
  keeps_ask (keepsOrder_changeLanguage
    (fun language => { language with phonemes := language.phonemes ++ [phoneme] }) fun _ => rfl)

theorem keepsOrder_deletePhoneme (shortName spelling : Text) :
    (deletePhoneme shortName spelling).KeepsOrder := by
  refine keeps_ask fun language graph isOrderly isFound => ?_
  dsimp only
  split
  · exact isOrderly
  · exact keepsOrder_changeLanguage
      (fun language =>
        { language with
          phonemes := language.phonemes.filter fun phoneme =>
            !phoneme.graphemes.contains spelling })
      (fun _ => rfl) language graph isOrderly isFound

theorem keepsOrder_addWord {language : Text} {describe : Word → Except Error Word}
    (describes : ∀ word after, describe word = .ok after →
      after.id = word.id ∧ after.language = word.language) :
    (addWord .null language describe).KeepsOrder := by
  refine keeps_ask fun _ graph isOrderly isFound => ?_
  have isLanguage := contains_of_found isFound
  rw [ends_bind, ends_get, ends_bind, ends_refuseIf]
  refine ⟨fun _ => isOrderly, fun _ => ?_⟩
  rw [ends_bind, ends_allocateFor_null, ends_bind, ends_lift]
  have isCounted := isOrderly.count (Int.le_of_lt (Int.lt_succ graph.nextId))
  refine ⟨fun word isWord => ?_, fun _ _ => isCounted⟩
  obtain ⟨sameId, sameLanguage⟩ := describes _ word isWord
  change word.id = graph.nextId at sameId
  change word.language = language at sameLanguage
  rw [ends_bind, ← sameId]
  exact Graph.IsOrderly.putWord (sameId ▸ isCounted)
    ⟨sameId ▸ Int.lt_succ _, sameLanguage ▸ isLanguage⟩

theorem keepsOrder_deleteWord (id : Int) : (deleteWord id).KeepsOrder :=
  keeps_ask fun _ _ isOrderly _ => isOrderly.withoutWord id

/-- A name that is reserved keeps its id; any other one gets the next free id. -/
theorem ends_reserveRule {name : Data} {Given : GivenId → Graph → Prop} {Failed : Graph → Prop}
    (failed : name.key? = none → Failed graph)
    (known : ∀ key id, name.key? = some key → graph.ruleNames.get? key = some id → Given id graph)
    (new : ∀ key, name.key? = some key → graph.ruleNames.get? key = none →
      Given (.whole graph.nextId) (graph.withName key)) :
    (reserveRule name .null).Ends graph Given Failed := by
  unfold reserveRule
  rw [ends_bind, keyOf]
  cases isKey : name.key? with
  | none => exact failed isKey
  | some key =>
      rw [ends_pure, ends_bind, ends_get]
      cases isNamed : graph.ruleNames.get? key with
      | some id =>
          dsimp only
          rw [ends_bind, ends_refuseIf]
          exact ⟨(fun isOther => nomatch isOther), fun _ => known key id isKey isNamed⟩
      | none =>
          have isNew := new key isKey isNamed
          unfold Ends
          dsimp only
          rw [on_bind, on_allocateGiven_null]
          exact isNew

theorem keepsOrder_reserveRule (name : Data) : (reserveRule name .null).KeepsOrder :=
  fun _ isOrderly => ends_reserveRule (fun _ => isOrderly) (fun _ _ _ _ => isOrderly)
    fun _ _ isNew => isOrderly.withName isNew

theorem keepsOrder_registerRules (names : List Text) : (registerRules names).KeepsOrder :=
  keeps_mapM fun name =>
    (keepsOrder_reserveRule (.text name)).bind fun _ => (onlyAsks_pure _).keeps

theorem on_tryCatch (edit : Edit α) (handle : Error → Edit α) (graph : Graph) :
    (tryCatch edit handle).on graph =
      match edit.on graph with
      | (.ok value, after) => (.ok value, after)
      | (.error error, after) => (handle error).on after := by
  unfold on ExceptT.run StateT.run Id.run
  simp only [tryCatch, tryCatchThe, MonadExceptOf.tryCatch, ExceptT.tryCatch, ExceptT.mk, bind,
    StateT.bind]
  cases edit graph with
  | mk result changed => cases result <;> rfl

/-- What is tried leaves the graph as it is, so that it is handled where it was tried. -/
theorem OnlyAsks.ends_tryCatch {edit : Edit α} {handle : Error → Edit α} (asks : edit.OnlyAsks)
    {Given : α → Graph → Prop} {Failed : Graph → Prop}
    (given : ∀ value, (edit.on graph).1 = .ok value → Given value graph)
    (failed : ∀ error, (edit.on graph).1 = .error error → (handle error).Ends graph Given Failed) :
    (tryCatch edit handle).Ends graph Given Failed := by
  have kept := asks graph
  unfold Ends
  rw [on_tryCatch]
  cases isRun : edit.on graph with
  | mk result after =>
      rw [isRun] at kept given failed
      cases kept
      cases result with
      | ok value => exact given value rfl
      | error error => exact failed error rfl

theorem onlyAsks_logicOf (draft : RuleDraft) : (logicOf draft).OnlyAsks := by
  unfold logicOf
  split
  · exact onlyAsks_pure _
  · split
    · exact (onlyAsks_pure _).bind fun _ => onlyAsks_ask _
    · split
      · exact (onlyAsks_pure _).bind fun _ => onlyAsks_ask _
      · exact (onlyAsks_throw _).bind fun _ => onlyAsks_ask _

/-- The text that a rule is read from and the text that it carries are the same. -/
theorem logicOf_eq_ok {draft : RuleDraft} (noLogic : draft.logic = none) {logic : Logic}
    {sourceText : Option Text} (gave : ((logicOf draft).on graph).1 = .ok logic)
    (isText : Record.orNull (Record.asText "source_text") draft.sourceText = .ok sourceText) :
    Logic.read graph.resolver (sourceText.getD []) = .ok logic := by
  have isSame : ∀ text : Text,
      ((ask fun graph => Logic.readFor graph.resolver draft.name text).on graph).1 = .ok logic →
      Logic.read graph.resolver text = .ok logic := by
    intro text gave
    rw [on_ask] at gave
    exact Logic.readFor_eq_ok.mp gave
  unfold logicOf at gave
  rw [noLogic] at gave
  dsimp only at gave
  generalize draft.sourceText = data at gave isText
  cases data with
  | null =>
      cases isText
      exact isSame [] gave
  | text text =>
      cases isText
      cases text with
      | nil => exact isSame [] gave
      | cons char text => exact isSame (char :: text) gave
  | _ => cases isText

/-- A graph in which a name stands for the id under which its rule is about to be stored.
The name may be given back if it was not there before. -/
structure IsReadied (key : Key) (isReserved : Bool) (id : Int) (graph : Graph) : Prop where
  orderly : graph.IsOrderly
  named : graph.ruleNames.get? key = some (.whole id)
  free : graph.rules.get? id = none
  forgets : isReserved = false → IsOrderly { graph with ruleNames := graph.ruleNames.erase key }

theorem ends_reserveRule_readied (isOrderly : graph.IsOrderly) {name : Data} {key : Key}
    (isKey : name.key? = some key) (isFree : graph.namedRule? key = none) :
    (reserveRule name .null).Ends graph
      (fun given after => after.languages = graph.languages ∧ ∃ id, given = .whole id ∧
        IsReadied key (graph.ruleNames.contains key) id after) IsOrderly := by
  refine ends_reserveRule (fun _ => isOrderly) (fun other given isOther isNamed => ?_)
    fun other isOther isNew => ?_
  · cases isKey.symm.trans isOther
    obtain ⟨id, rfl, -⟩ := isOrderly.names.whole key given isNamed
    refine ⟨rfl, id, rfl, isOrderly, isNamed, ?_, fun notReserved => ?_⟩
    · unfold Graph.namedRule? at isFree
      rw [isNamed] at isFree
      exact isFree
    · rw [Table.contains_of_get? isNamed] at notReserved
      cases notReserved
  · cases isKey.symm.trans isOther
    refine ⟨rfl, graph.nextId, rfl, isOrderly.withName isNew, ?_, ?_, fun _ =>
      isOrderly.forgetName isNew⟩
    · change (graph.ruleNames.insert key _).get? key = _
      rw [Table.get?_insert, if_pos rfl]
    · change graph.rules.get? graph.nextId = none
      cases isStored : graph.rules.get? graph.nextId with
      | none => rfl
      | some rule =>
          have isBelow := (isOrderly.tables.rules.fits_of_get? isStored).counted
          rw [← isOrderly.tables.rules.key_eq isStored] at isBelow
          exact absurd isBelow (Int.lt_irrefl _)

/-- A name that is a text is the key of this text. -/
theorem key_eq_of_asText {field name : Text} {data : Data} {key : Key}
    (isKey : data.key? = some key) (isText : Record.asText field data = .ok name) :
    key = .text name := by
  cases data with
  | text text =>
      cases isText
      exact (Option.some.inj isKey).symm
  | _ => cases isText

theorem IsReadied.belongsIn {key : Key} {isReserved : Bool} {id : Int}
    (readied : IsReadied key isReserved id graph) {draft : RuleDraft}
    (isKey : draft.name.key? = some key) {name : Text} (isName : Record.asText "name" draft.name = .ok name)
    (isFrom : graph.languages.contains draft.fromLanguage = true)
    (isTo : graph.languages.contains draft.toLanguage = true) {sourceText : Option Text}
    {logic : Logic} (reads : Logic.read graph.resolver (sourceText.getD []) = .ok logic) :
    (draft.rule id name sourceText logic).BelongsIn graph where
  counted := by
    obtain ⟨number, isWhole, isBelow⟩ := readied.orderly.names.whole key _ readied.named
    cases isWhole
    exact isBelow
  fromLanguage := isFrom
  toLanguage := isTo
  named := key_eq_of_asText isKey isName ▸ readied.named
  reads := reads

theorem belongsIn_of_sameButDetails {rule after : Rule} (same : rule.SameButDetails after)
    (belongs : rule.BelongsIn graph) : after.BelongsIn graph where
  counted := same.id ▸ belongs.counted
  fromLanguage := same.fromLanguage ▸ belongs.fromLanguage
  toLanguage := same.toLanguage ▸ belongs.toLanguage
  named := same.name ▸ same.id ▸ belongs.named
  reads := same.sourceText ▸ same.logic ▸ belongs.reads

theorem keepsOrder_addRule {draft : RuleDraft} (noLogic : draft.logic = none)
    {describe : Rule → Except Error Rule}
    (describes : ∀ rule after, describe rule = .ok after → rule.SameButDetails after) :
    (addRule .null draft describe).KeepsOrder := by
  refine keeps_ask fun _ graph isOrderly isFrom => ?_
  rw [ends_bind, ends_ask]
  refine ⟨fun _ isTo => ?_, fun _ _ => isOrderly⟩
  have isFrom := contains_of_found isFrom
  have isTo := contains_of_found isTo
  rw [ends_bind, ends_get, ends_bind, keyOf]
  cases isKey : draft.name.key? with
  | none => exact isOrderly
  | some key =>
      rw [ends_pure]
      dsimp only
      rw [ends_bind, ends_refuseIf]
      refine ⟨fun _ => isOrderly, fun isFree => ?_⟩
      rw [Option.isSome_eq_false_iff, Option.isNone_iff_eq_none] at isFree
      rw [ends_bind]
      refine (ends_reserveRule_readied isOrderly isKey isFree).mono ?_ fun _ isOrderly => isOrderly
      rintro _ after ⟨sameLanguages, id, rfl, readied⟩
      rw [ends_bind]
      refine (onlyAsks_logicOf draft).ends_tryCatch (fun logic isLogic => ?_) fun error _ => ?_
      · simp only [ends_bind, ends_lift]
        refine ⟨fun given isGiven => ⟨fun name isName => ⟨fun sourceText isText =>
          ⟨fun rule isRule => ?_, fun _ _ => readied.orderly⟩, fun _ _ => readied.orderly⟩,
          fun _ _ => readied.orderly⟩, fun _ _ => readied.orderly⟩
        cases isGiven
        have same := describes _ rule isRule
        have belongs := belongsIn_of_sameButDetails same (readied.belongsIn isKey isName
          (sameLanguages ▸ isFrom) (sameLanguages ▸ isTo) (logicOf_eq_ok noLogic isLogic isText))
        have isId : rule.id = id := same.id
        change IsOrderly { after with rules := after.rules.insert id rule }
        rw [← isId]
        refine readied.orderly.putRule belongs fun stored isStored => ?_
        rw [isId, readied.free] at isStored
        cases isStored
      · split
        · rename_i isGivenBack
          rw [Bool.and_eq_true, Bool.not_eq_true'] at isGivenBack
          exact readied.forgets isGivenBack.1
        · exact readied.orderly

theorem keepsOrder_replaceText (id : Int) (text : Text) : (replaceText id text).KeepsOrder := by
  refine keeps_ask fun rule graph isOrderly isFound => ?_
  rw [ends_bind, ends_ask]
  refine ⟨fun logic isLogic => ?_, fun _ _ => isOrderly⟩
  have isStored := Graph.found_eq_ok isFound
  have isId := isOrderly.tables.rules.key_eq isStored
  have belongs := isOrderly.tables.rules.fits_of_get? isStored
  have belongs : Rule.BelongsIn graph { rule with logic, sourceText := some text } :=
    ⟨belongs.counted, belongs.fromLanguage, belongs.toLanguage, belongs.named,
      Logic.readFor_eq_ok.mp isLogic⟩
  subst isId
  refine isOrderly.putRule belongs fun stored isSame => ?_
  cases isStored.symm.trans isSame
  exact ⟨rfl, rfl⟩

/-- A rule is given another text, and none of its fields is set. -/
theorem keepsOrder_updateRule (id : Int) (text : Option Text) : (updateRule id text []).KeepsOrder := by
  refine (onlyAsks_ask _).keeps.bind fun rule => ?_
  refine (onlyAsks_refuseIf _ _).keeps.bind fun _ => Keeps.bind ?_ fun _ => ?_
  · cases text with
    | none => exact (onlyAsks_pure _).keeps
    | some text => exact keepsOrder_replaceText id text
  · exact ((onlyAsks_pure _).bind fun _ => onlyAsks_ask _).keeps

/-- A rule that may be deleted is one that no other rule refers to. -/
theorem notUsed_of_deletionConflict? {id : Int} {rule other : Rule}
    (noConflict : deletionConflict? graph id rule = none) (isMember : other ∈ graph.rules.values)
    (differs : other.id ≠ id) : other.logic.references.contains id = false := by
  unfold deletionConflict? at noConflict
  rw [Option.orElse_eq_orElse, Option.orElse_eq_or, Option.or_eq_none_iff, Option.map_eq_none_iff,
    List.head?_eq_none_iff, List.filter_eq_nil_iff] at noConflict
  simpa [differs] using noConflict.1 other isMember

theorem keepsOrder_deleteRule (id : Int) : (deleteRule id).KeepsOrder := by
  intro graph isOrderly
  unfold deleteRule
  rw [ends_bind, ends_get, ends_bind, ends_ask]
  refine ⟨fun rule isFound => ?_, fun _ _ => isOrderly⟩
  rw [ends_bind, ends_refuse]
  refine ⟨fun _ _ => isOrderly, fun noConflict => ?_⟩
  refine isOrderly.withoutRule (Graph.found_eq_ok isFound) fun other isMember differs => ?_
  exact notUsed_of_deletionConflict? noConflict isMember differs

theorem onlyAsks_stepsOf (name : Data) (steps : Written (List SequenceStep)) :
    (stepsOf name steps).OnlyAsks := by
  cases steps with
  | text text => exact onlyAsks_ask _
  | value steps => exact onlyAsks_pure _

theorem ends_checkSteps {sequence : RuleSequence} {Given : Unit → Graph → Prop}
    {Failed : Graph → Prop}
    (failed : ¬(∀ step ∈ sequence.steps, step.FitsIn graph sequence) → Failed graph)
    (given : (∀ step ∈ sequence.steps, step.FitsIn graph sequence) → Given () graph) :
    (checkSteps sequence).Ends graph Given Failed :=
  (onlyAsks_checkSteps sequence).ends_of_iff checkSteps_eq_ok failed given

theorem keepsOrder_addSequence {name : Data} {fromLanguage toLanguage : Text}
    {steps : Written (List SequenceStep)} {describe : RuleSequence → Except Error RuleSequence}
    (describes : ∀ sequence after, describe sequence = .ok after → after.id = sequence.id ∧
      after.fromLanguage = sequence.fromLanguage ∧ after.toLanguage = sequence.toLanguage) :
    (addSequence .null name fromLanguage toLanguage steps describe).KeepsOrder := by
  refine keeps_ask fun _ graph isOrderly isFrom => ?_
  rw [ends_bind, ends_ask]
  refine ⟨fun _ isTo => ?_, fun _ _ => isOrderly⟩
  rw [ends_bind]
  refine (onlyAsks_stepsOf name steps).ends isOrderly fun steps _ => ?_
  rw [ends_bind, ends_allocateFor_null, ends_bind, ends_lift]
  have isCounted := isOrderly.count (Int.le_of_lt (Int.lt_succ graph.nextId))
  refine ⟨fun name _ => ?_, fun _ _ => isCounted⟩
  rw [ends_bind, ends_lift]
  refine ⟨fun sequence isSequence => ?_, fun _ _ => isCounted⟩
  obtain ⟨sameId, sameFrom, sameTo⟩ := describes _ sequence isSequence
  rw [ends_bind]
  refine ends_checkSteps (fun _ => isCounted) fun areFit => ?_
  change sequence.id = graph.nextId at sameId
  change sequence.fromLanguage = fromLanguage at sameFrom
  change sequence.toLanguage = toLanguage at sameTo
  rw [ends_bind, ← sameId]
  exact Graph.IsOrderly.putSequence (sameId ▸ isCounted)
    ⟨sameId ▸ Int.lt_succ _, sameFrom ▸ contains_of_found isFrom, sameTo ▸ contains_of_found isTo,
      fun step isMember => .fits (areFit step isMember)⟩

theorem keepsOrder_updateSteps (id : Int) (steps : Written (List SequenceStep)) :
    (updateSteps id steps).KeepsOrder := by
  refine keeps_ask fun sequence graph isOrderly isFound => ?_
  rw [ends_bind]
  refine (onlyAsks_stepsOf _ steps).ends isOrderly fun steps _ => ?_
  dsimp only
  rw [ends_bind]
  refine ends_checkSteps (fun _ => isOrderly) fun areFit => ?_
  have isStored := Graph.found_eq_ok isFound
  have isId := isOrderly.tables.sequences.key_eq isStored
  have belongs := isOrderly.tables.sequences.fits_of_get? isStored
  have belongs : RuleSequence.BelongsIn graph { sequence with steps } :=
    ⟨belongs.counted, belongs.fromLanguage, belongs.toLanguage, fun step isMember =>
      .fits (areFit step isMember)⟩
  subst isId
  exact isOrderly.putSequence belongs

theorem onlyAsks_gridOf (written : Option Text) : (gridOf written).OnlyAsks := by
  cases written with
  | none => exact onlyAsks_pure _
  | some text => exact onlyAsks_ask _

theorem ends_storeParadigm (isOrderly : graph.IsOrderly) {paradigm : Paradigm}
    (isPositive : 0 < paradigm.id) (isCounted : paradigm.id < graph.nextId)
    (isLanguage : graph.languages.contains paradigm.language = true) :
    (storeParadigm paradigm).Ends graph (fun _ => IsOrderly) IsOrderly := by
  unfold storeParadigm
  rw [ends_bind]
  refine (onlyAsks_checkCells paradigm).ends isOrderly fun _ gave => ?_
  exact isOrderly.putParadigm ⟨isPositive, isCounted, isLanguage, checkCells_eq_ok.mp gave⟩

theorem keepsOrder_addParadigm {language : Text} {written : Option Text}
    {describe : Paradigm → Except Error Paradigm}
    (describes : ∀ paradigm after, describe paradigm = .ok after →
      after.id = paradigm.id ∧ after.language = paradigm.language) :
    (addParadigm .null language written describe).KeepsOrder := by
  refine keeps_ask fun _ graph isOrderly isFound => ?_
  have isLanguage := contains_of_found isFound
  rw [ends_bind]
  refine (onlyAsks_gridOf written).ends isOrderly fun grid _ => ?_
  rw [ends_bind, ends_allocateFor_null, ends_bind, ends_lift]
  have isCounted := isOrderly.count (Int.le_of_lt (Int.lt_succ graph.nextId))
  refine ⟨fun paradigm isParadigm => ?_, fun _ _ => isCounted⟩
  obtain ⟨sameId, sameLanguage⟩ := describes _ paradigm isParadigm
  change paradigm.id = graph.nextId at sameId
  change paradigm.language = language at sameLanguage
  exact ends_storeParadigm isCounted (sameId ▸ isOrderly.counting) (sameId ▸ Int.lt_succ _)
    (sameLanguage ▸ isLanguage)

/-- A paradigm that was made elsewhere asks for no id. -/
theorem keepsOrder_addTemplate {paradigm : Paradigm} (noId : paradigm.id ≤ 0) :
    (addTemplate paradigm).KeepsOrder := by
  refine keeps_ask fun _ graph isOrderly isFound => ?_
  have isLanguage := contains_of_found isFound
  rw [if_neg (Int.not_lt.mpr noId)]
  unfold Ends
  rw [on_bind, on_allocate_none]
  have isCounted := isOrderly.count (Int.le_of_lt (Int.lt_succ graph.nextId))
  have belongs : 0 < graph.nextId ∧ graph.nextId < graph.nextId + 1 :=
    ⟨isOrderly.counting, Int.lt_succ _⟩
  exact ends_storeParadigm isCounted belongs.1 belongs.2 isLanguage

theorem mem_padTo {α : Type} {index : Int} {lists : List (List α)} {list : List α} {item : α}
    (isList : list ∈ padTo index lists) (isMember : item ∈ list) : list ∈ lists := by
  rcases List.mem_append.mp isList with isList | isPadding
  · exact isList
  · rw [(List.mem_replicate.mp isPadding).2] at isMember
    cases isMember

/-- The rules of a grid in which a cell was filled were there, or are those put into it. -/
theorem mem_rules_setCell {name : Text} {grid after : Grid} {row column : Int} {rules : List Int}
    (gave : grid.setCell name row column rules = .ok after) {id : Int}
    (isMember : id ∈ after.rules) : id ∈ grid.rules ∨ id ∈ rules := by
  have isOld : ∀ {cells : List (List Int)} {cell : List Int}, cells ∈ grid.cells → cell ∈ cells →
      id ∈ cell → id ∈ grid.rules := fun isRow isCell isRule =>
    List.mem_flatten.mpr ⟨_, List.mem_flatten.mpr ⟨_, isRow, isCell⟩, isRule⟩
  unfold Grid.setCell at gave
  dsimp only at gave
  split at gave
  · cases gave
  obtain ⟨-, -, gave⟩ := Except.bind_eq_ok.mp gave
  split at gave
  · rename_i rowPlace isPlace
    obtain ⟨-, -, gave⟩ := Except.bind_eq_ok.mp gave
    split at gave
    · cases gave
      obtain ⟨cell, isCell, isRule⟩ := List.mem_flatten.mp isMember
      obtain ⟨cells, isRow, isCell⟩ := List.mem_flatten.mp isCell
      rcases List.mem_or_eq_of_mem_set isRow with isRow | rfl
      · exact .inl (isOld (mem_padTo isRow isCell) isCell isRule)
      · rcases List.mem_or_eq_of_mem_set isCell with isCell | rfl
        · have isCell := mem_padTo isCell isRule
          rw [List.getD_eq_getElem?_getD] at isCell
          cases isLine : (padTo row grid.cells)[rowPlace]? with
          | none =>
              rw [isLine] at isCell
              cases isCell
          | some line =>
              rw [isLine] at isCell
              exact .inl (isOld (mem_padTo (List.mem_of_getElem? isLine) isCell) isCell isRule)
        · exact .inr isRule
    · cases gave
  · cases gave

theorem keepsOrder_setCell (id row column : Int) (rules : List Int) :
    (setCell id row column rules).KeepsOrder := by
  refine keeps_ask fun paradigm graph isOrderly isFound => ?_
  rw [ends_bind]
  have asks := onlyAsks_forM fun rule (_ : rule ∈ rules) => onlyAsks_checkRule rule
  refine asks.ends isOrderly fun _ areFound => ?_
  rw [ends_bind, ends_lift]
  refine ⟨fun grid isGrid => ?_, fun _ _ => isOrderly⟩
  have isStored := Graph.found_eq_ok isFound
  have isId := isOrderly.tables.paradigms.key_eq isStored
  have belongs := isOrderly.tables.paradigms.fits_of_get? isStored
  have areStored := (on_forM_eq_ok fun rule _ => onlyAsks_checkRule rule).mp areFound
  have belongs : Paradigm.BelongsIn graph { paradigm with grid } :=
    ⟨belongs.positive, belongs.counted, belongs.language, fun rule isMember =>
      (mem_rules_setCell isGrid isMember).elim (belongs.rules rule) fun isNew =>
        exists_found_iff.mp (on_asked_eq_ok.mp (areStored rule isNew))⟩
  subst isId
  exact isOrderly.putParadigm belongs

theorem ends_checkLink {link : Link} {Given : Unit → Graph → Prop} {Failed : Graph → Prop}
    (failed : ¬link.BelongsIn graph → Failed graph) (given : link.BelongsIn graph → Given () graph) :
    (checkLink link).Ends graph Given Failed :=
  (onlyAsks_checkLink link).ends_of_iff checkLink_eq_ok failed given

theorem keepsOrder_addLink (link : Link) (givenSource givenTarget : Data) :
    (addLink link givenSource givenTarget).KeepsOrder := by
  intro graph isOrderly
  unfold addLink
  rw [ends_bind]
  refine ends_checkLink (fun _ => isOrderly) fun belongs => ?_
  rw [ends_bind, ends_get, ends_bind, ends_refuseIf]
  exact ⟨fun _ => isOrderly, fun _ => isOrderly.putLink belongs⟩

theorem keepsOrder_updateLink (link : Link) : (updateLink link).KeepsOrder := by
  refine (onlyAsks_requireLink _).keeps.bind fun _ graph isOrderly => ?_
  rw [ends_bind]
  exact ends_checkLink (fun _ => isOrderly) fun belongs => isOrderly.putLink belongs

theorem keepsOrder_deleteLink (key : LinkKey) : (deleteLink key).KeepsOrder :=
  (onlyAsks_requireLink _).keeps.bind fun _ _ isOrderly => isOrderly.eraseLink key

theorem onlyAsks_checkWord (id : Int) :
    (do let _ ← ask (·.word id) : Edit Unit).OnlyAsks :=
  (onlyAsks_ask _).bind fun _ => onlyAsks_pure _

theorem keepsOrder_addCompound (whole : Int) (components : List Int) :
    (addCompound .null whole components).KeepsOrder := by
  intro graph isOrderly
  unfold addCompound
  rw [ends_bind]
  have asks := onlyAsks_forM fun id (_ : id ∈ whole :: components) => onlyAsks_checkWord id
  refine asks.ends isOrderly fun _ areFound => ?_
  have areStored := (on_forM_eq_ok fun id _ => onlyAsks_checkWord id).mp areFound
  rw [ends_bind, ends_allocateFor_null]
  have isCounted := isOrderly.count (Int.le_of_lt (Int.lt_succ graph.nextId))
  have belongs : Compound.BelongsIn { graph with nextId := graph.nextId + 1 }
      ⟨graph.nextId, whole, components⟩ :=
    ⟨Int.lt_succ _, fun id isMember =>
      exists_found_iff.mp (on_asked_eq_ok.mp (areStored id isMember))⟩
  exact isCounted.putCompound belongs

end Edit

end Diachrony
