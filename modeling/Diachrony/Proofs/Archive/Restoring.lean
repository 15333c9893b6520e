import Diachrony.Proofs.Archive.Reading
import Mathlib.Data.List.Dedup

/-!
# Archives of orderly graphs

The archive of an orderly graph can be written.  It is read back if all rules that the
graph refers to are stored, and then as the same graph, less the names that were only
reserved, and with the tags of each phoneme in an order that may be another one.
-/
namespace Diachrony

open Record Edit Archive
open Table (IsKept)

namespace Graph

variable {graph : Graph} {order : SetOrder}

def storedNames (graph : Graph) : Table Key GivenId :=
  ⟨graph.rules.values.map fun rule => (.text rule.name, .whole rule.id)⟩

/-- The graph that comes of an archive: rules have the texts that they were archived as,
tags come as they were listed, and names that were only reserved are gone. -/
def restored (graph : Graph) (order : SetOrder) : Graph :=
  { graph with
    languages := graph.languages.mapValues (Language.listedIn order)
    rules := graph.rules.mapValues withText
    ruleNames := graph.storedNames }

/-- Whether all the rules that a rule refers to are stored. -/
def Resolves (graph : Graph) (rule : Rule) : Prop :=
  ∀ id ∈ rule.logic.references, graph.rules.contains id = true

/-- A graph in which the rules that rules and steps refer to are stored. -/
structure IsClosed (graph : Graph) : Prop where
  rules : ∀ rule ∈ graph.rules.values, graph.Resolves rule
  steps : ∀ sequence ∈ graph.sequences.values, ∀ step ∈ sequence.steps,
    graph.rules.contains step.rule = true

theorem isClosed_iff :
    graph.IsClosed ↔
      (∀ rule ∈ graph.rules.values, ∀ id ∈ rule.logic.references,
        graph.rules.contains id = true) ∧
      ∀ sequence ∈ graph.sequences.values, ∀ step ∈ sequence.steps,
        graph.rules.contains step.rule = true :=
  ⟨fun isClosed => ⟨isClosed.rules, isClosed.steps⟩,
    fun areStored => ⟨areStored.1, areStored.2⟩⟩

def archived (graph : Graph) (order : SetOrder) : Fields := [
  ("version", .integer version),
  ("next_id", .integer graph.nextId),
  ("languages", .list (graph.languages.values.map fun language => language.toData order)),
  ("words", .list (graph.words.values.map Word.toData)),
  ("rules", .list (graph.rules.values.map fun rule => .record (ruleFields rule))),
  ("sequences", .list (graph.sequences.values.map RuleSequence.toData)),
  ("paradigms", .list (graph.paradigms.values.map Paradigm.toData)),
  ("links", .list (graph.links.values.map Link.toData)),
  ("compounds", .list (graph.compounds.values.map Compound.toData))]

/-- A rule without a text has the logic that an empty text is read as. -/
theorem toData_of_belongsIn {rule : Rule} (belongs : rule.BelongsIn graph) :
    rule.toData = .ok (.record (ruleFields rule)) := by
  have isArchived : rule.archivedText = .ok (textOf rule) := by
    have reads := belongs.reads
    unfold Rule.archivedText textOf
    cases isText : rule.sourceText with
    | some text => rfl
    | none =>
        rw [isText] at reads
        have isEmpty : Logic.read graph.resolver [] = .ok (.sequential []) := rfl
        rw [← Except.ok.inj (isEmpty.symm.trans reads)]
        rfl
  unfold Rule.toData
  rw [isArchived]
  rfl

/-- The archive of an orderly graph can be written. -/
theorem IsOrderly.write_eq (isOrderly : graph.IsOrderly) (order : SetOrder) :
    Archive.write graph order = .ok (.record (graph.archived order)) := by
  unfold Archive.write
  rw [Except.mapM_ok fun rule isMember => toData_of_belongsIn (isOrderly.tables.rules.fits rule isMember)]
  rfl

theorem IsOrderly.eq_of_name (isOrderly : graph.IsOrderly) {rule other : Rule}
    (isMember : rule ∈ graph.rules.values) (isOther : other ∈ graph.rules.values)
    (sameName : rule.name = other.name) : rule = other := by
  have rules := isOrderly.tables.rules
  have isNamed := (rules.fits rule isMember).named
  rw [sameName, (rules.fits other isOther).named] at isNamed
  have sameId : other.id = rule.id := GivenId.whole.inj (Option.some.inj isNamed)
  have isFound := rules.get?_of_mem isOther
  rw [sameId, rules.get?_of_mem isMember] at isFound
  exact Option.some.inj isFound

theorem IsOrderly.nodup_storedNames (isOrderly : graph.IsOrderly) :
    graph.storedNames.keys.Nodup := by
  have areDistinct : graph.rules.values.Nodup := by
    have nodup := isOrderly.tables.rules.nodup
    rw [isOrderly.tables.rules.keys_eq] at nodup
    exact nodup.of_map
  have sameKeys : graph.storedNames.keys = graph.rules.values.map fun rule => .text rule.name := by
    unfold storedNames Table.keys
    rw [List.map_map]
    rfl
  rw [sameKeys]
  refine areDistinct.map_on fun rule isMember other isOther sameKey => ?_
  exact isOrderly.eq_of_name isMember isOther (Key.text.inj sameKey)

/-- The names that are stored stand for the ids of their rules. -/
theorem IsOrderly.get?_storedNames (isOrderly : graph.IsOrderly) {key : Key} {given : GivenId} :
    graph.storedNames.get? key = some given ↔
      ∃ rule ∈ graph.rules.values, key = .text rule.name ∧ given = .whole rule.id := by
  constructor
  · intro isNamed
    obtain ⟨rule, isMember, same⟩ := List.mem_map.mp (Table.mem_entries_of_get? isNamed)
    cases same
    exact ⟨rule, isMember, rfl, rfl⟩
  · rintro ⟨rule, isMember, rfl, rfl⟩
    have isEntry : ((Key.text rule.name, GivenId.whole rule.id) : Key × GivenId) ∈
        graph.storedNames.entries := List.mem_map_of_mem isMember
    exact Table.get?_of_mem_entries isOrderly.nodup_storedNames isEntry

/-- What a name stands for in the archive it stood for before. -/
theorem IsOrderly.get?_ruleNames (isOrderly : graph.IsOrderly) {key : Key} {given : GivenId}
    (isNamed : graph.storedNames.get? key = some given) : graph.ruleNames.get? key = some given := by
  obtain ⟨rule, isMember, rfl, rfl⟩ := isOrderly.get?_storedNames.mp isNamed
  exact (isOrderly.tables.rules.fits rule isMember).named

/-- The text of a rule is read with the stored names only if all the rules that it refers to
are stored, and then as the logic that it has. -/
theorem IsOrderly.read_storedNames (isOrderly : graph.IsOrderly) {rule : Rule}
    (belongs : rule.BelongsIn graph) {other : Graph} (sameNames : other.ruleNames = graph.storedNames)
    {logic : Logic} : Logic.read other.resolver (textOf rule) = .ok logic ↔
      logic = rule.logic ∧ graph.Resolves rule := by
  have areKnown : ∀ name found, other.resolver name = some found → graph.resolver name = some found := by
    intro name found isFound
    obtain ⟨given, isNamed, same⟩ := Option.map_eq_some_iff.mp isFound
    exact Option.map_eq_some_iff.mpr ⟨given, isOrderly.get?_ruleNames (sameNames ▸ isNamed), same⟩
  have isStored : ∀ reference, graph.resolver reference.name = some reference →
      (other.resolver reference.name = some reference ↔ graph.rules.contains reference.id = true) := by
    intro reference isFound
    obtain ⟨given, isNamed, same⟩ := Option.map_eq_some_iff.mp isFound
    constructor
    · intro isFoundToo
      obtain ⟨given, isNamed, same⟩ := Option.map_eq_some_iff.mp isFoundToo
      rw [sameNames] at isNamed
      obtain ⟨target, isMember, -, rfl⟩ := isOrderly.get?_storedNames.mp isNamed
      rw [← same]
      exact isOrderly.tables.rules.contains_of_mem isMember
    · intro isStored
      obtain ⟨target, isTarget⟩ := Table.exists_of_contains isStored
      obtain ⟨number, rfl, -⟩ := isOrderly.names.whole _ _ isNamed
      have isId : number = reference.id := congrArg RuleRef.id same
      have isTargetId : reference.id = target.id := isOrderly.tables.rules.key_eq isTarget
      have isTargetNamed := (isOrderly.tables.rules.fits_of_get? isTarget).named
      rw [← isTargetId, ← isId] at isTargetNamed
      have sameName := isOrderly.names.distinct _ _ _ isNamed isTargetNamed
      refine Option.map_eq_some_iff.mpr ⟨.whole number, ?_, same⟩
      rw [sameNames]
      exact isOrderly.get?_storedNames.mpr ⟨target, Table.mem_values_of_get? isTarget, sameName,
        by rw [isId, isTargetId]⟩
  constructor
  · intro reads
    have readsBefore := Logic.read_mono other.isByName_resolver areKnown reads
    obtain rfl : logic = rule.logic := Except.ok.inj (readsBefore.symm.trans belongs.reads)
    refine ⟨rfl, fun id isReferred => ?_⟩
    obtain ⟨reference, isMember, rfl⟩ := List.mem_map.mp isReferred
    have isFound := Logic.found_of_read other.isByName_resolver reads reference isMember
    exact (isStored reference (areKnown _ _ isFound)).mp isFound
  · rintro ⟨rfl, resolves⟩
    refine Logic.read_again graph.isByName_resolver belongs.reads fun reference isMember => ?_
    have isFound := Logic.found_of_read graph.isByName_resolver belongs.reads reference isMember
    exact (isStored reference isFound).mpr (resolves _ (List.mem_map_of_mem isMember))

/-- The graph is another one, but for ids that have not been handed out yet. -/
def IsShortOf (target graph : Graph) : Prop :=
  ∃ nextId, nextId ≤ target.nextId ∧ graph = { target with nextId }

section

variable {α : Type} {items : List α} {write : α → Data} {readOne : Data → Edit Unit}
  {Fits : α → Prop}

/-- What is read one after the other, each item on what came of the ones before it. -/
theorem ends_forM_map (state : List α → Graph) {start target : Graph}
    (isShort : (state []).IsShortOf start) (isWhole : state items = target)
    (each : ∀ before item after, items = before ++ item :: after →
      ∀ nextId, nextId ≤ (state before).nextId →
        (readOne (write item)).Ends { state before with nextId }
          (fun _ graph => (state (before ++ [item])).IsShortOf graph ∧ Fits item)
          (fun _ => ¬Fits item)) :
    ((items.map write).forM readOne).Ends start
      (fun _ graph => target.IsShortOf graph ∧ ∀ item ∈ items, Fits item)
      (fun _ => ¬∀ item ∈ items, Fits item) := by
  have readOn : ∀ after before, items = before ++ after → ∀ graph, (state before).IsShortOf graph →
      ((after.map write).forM readOne).Ends graph
        (fun _ graph => (state items).IsShortOf graph ∧ ∀ item ∈ after, Fits item)
        (fun _ => ¬∀ item ∈ after, Fits item) := by
    intro after
    induction after with
    | nil =>
        intro before isSplit graph isShort
        rw [List.append_nil] at isSplit
        exact ⟨isSplit ▸ isShort, fun _ isMember => nomatch isMember⟩
    | cons item after inductionHypothesis =>
        rintro before isSplit _ ⟨nextId, isBelow, rfl⟩
        change (readOne (write item) >>= fun _ => (after.map write).forM readOne).Ends _ _ _
        rw [ends_bind]
        refine (each before item after isSplit nextId isBelow).mono
          (fun _ graph ⟨isShort, fits⟩ => ?_) fun _ notFit areFit => notFit (areFit item List.mem_cons_self)
        refine (inductionHypothesis (before ++ [item]) (by simpa using isSplit) graph isShort).mono
          (fun _ graph ⟨isShort, areFit⟩ => ⟨isShort, List.forall_mem_cons.mpr ⟨fits, areFit⟩⟩)
          fun _ notFit areFit => notFit (List.forall_mem_cons.mp areFit).2
  exact isWhole ▸ readOn items [] rfl start isShort

end

theorem ends_readEach {record : Fields} {name : Text} {readOne : Data → Edit Unit} {datas : List Data}
    (areItems : items record name = .ok datas) {start : Graph} {Given : Unit → Graph → Prop}
    {Failed : Graph → Prop} :
    (readEach record name readOne).Ends start Given Failed ↔
      (datas.forM readOne).Ends start Given Failed := by
  unfold readEach
  rw [ends_bind_lift areItems]

def languagesRead (graph : Graph) (order : SetOrder) : Graph :=
  { nextId := graph.nextId, languages := (graph.restored order).languages }

def wordsRead (graph : Graph) (order : SetOrder) : Graph :=
  { (graph.languagesRead order) with words := graph.words }

def namesRead (graph : Graph) (order : SetOrder) : Graph :=
  { (graph.wordsRead order) with ruleNames := graph.storedNames }

def rulesRead (graph : Graph) (order : SetOrder) : Graph :=
  { (graph.namesRead order) with rules := (graph.restored order).rules }

def sequencesRead (graph : Graph) (order : SetOrder) : Graph :=
  { (graph.rulesRead order) with sequences := graph.sequences }

def paradigmsRead (graph : Graph) (order : SetOrder) : Graph :=
  { (graph.sequencesRead order) with paradigms := graph.paradigms }

def linksRead (graph : Graph) (order : SetOrder) : Graph :=
  { (graph.paradigmsRead order) with links := graph.links }

theorem contains_restored_language {name : Text} (isStored : graph.languages.contains name = true) :
    (graph.restored order).languages.contains name = true :=
  (Table.contains_mapValues _ _ _).trans isStored

theorem contains_restored_rule {id : Int} :
    (graph.rules.mapValues withText).contains id = graph.rules.contains id :=
  Table.contains_mapValues _ _ _

theorem exists_restored_rule {id : Int} {Holds : Rule → Prop}
    (same : ∀ rule, Holds (withText rule) ↔ Holds rule) :
    (∃ rule, (graph.rules.mapValues withText).get? id = some rule ∧ Holds rule) ↔
      ∃ rule, graph.rules.get? id = some rule ∧ Holds rule := by
  rw [Table.get?_mapValues]
  constructor
  · rintro ⟨_, isChanged, holds⟩
    obtain ⟨rule, isFound, rfl⟩ := Option.map_eq_some_iff.mp isChanged
    exact ⟨rule, isFound, (same rule).mp holds⟩
  · rintro ⟨rule, isFound, holds⟩
    exact ⟨withText rule, by rw [isFound]; rfl, (same rule).mpr holds⟩

/-- The texts of rules do not matter to steps. -/
theorem fitsIn_restored {other : Graph} (sameRules : other.rules = graph.rules.mapValues withText)
    {sequence : RuleSequence} {step : SequenceStep} :
    step.FitsIn other sequence ↔ step.FitsIn graph sequence := by
  unfold SequenceStep.FitsIn
  rw [sameRules]
  have sameOthers : ∀ rule : Rule,
      (∀ id, step.alternative = some id →
        ∃ found, (graph.rules.mapValues withText).get? id = some found ∧
            found.matchesLanguages rule = true) ↔
      ∀ id, step.alternative = some id →
        ∃ found, graph.rules.get? id = some found ∧ found.matchesLanguages rule = true :=
    fun rule => forall₂_congr fun id _ => exists_restored_rule fun _ => Iff.rfl
  simp only [sameOthers]
  exact exists_restored_rule fun _ => Iff.rfl

/-- A step that belongs to its sequence fits it if its rule is stored. -/
theorem fitsIn_iff_contains {sequence : RuleSequence} (belongs : sequence.BelongsIn graph) :
    (∀ step ∈ sequence.steps, step.FitsIn graph sequence) ↔
      ∀ step ∈ sequence.steps, graph.rules.contains step.rule = true := by
  refine forall₂_congr fun step isMember => ⟨fun ⟨rule, isFound, _⟩ => ?_, fun isStored => ?_⟩
  · exact Table.contains_of_get? isFound
  · cases belongs.steps step isMember with
    | fits fitsIn => exact fitsIn
    | left isLost _ =>
        rw [isLost.notStored] at isStored
        cases isStored

section

variable (isOrderly : graph.IsOrderly) {start : Graph}

include isOrderly

namespace IsOrderly

theorem ends_readLanguages :
    ((graph.languages.values.map fun language => language.toData order).forM readLanguage).Ends {}
      (fun _ after => (graph.languagesRead order).IsShortOf after ∧
        ∀ language ∈ graph.languages.values, True)
      (fun _ => ¬∀ language ∈ graph.languages.values, True) := by
  have languages := isOrderly.tables.languages
  have areRestored :
      Table.ofValues Language.shortName (graph.languages.values.map (Language.listedIn order)) =
      (graph.restored order).languages := by
    have kept : IsKept Language.shortName (fun language => language.shortName ≠ [])
        (graph.restored order).languages :=
      languages.mapValues (Language.listedIn order) (fun _ => rfl) fun _ isNamed => isNamed
    exact Table.values_mapValues graph.languages (Language.listedIn order) ▸ kept.eq_ofValues.symm
  refine ends_forM_map
    (fun before =>
      { nextId := graph.nextId
        languages := Table.ofValues Language.shortName (before.map (Language.listedIn order)) })
    ⟨1, isOrderly.counting, rfl⟩ (by rw [areRestored]; rfl)
    fun before language after isSplit nextId isBelow => ?_
  have isMember : language ∈ graph.languages.values := isSplit ▸ List.mem_append_cons_self
  have isNew : (language.listedIn order).shortName ∉
      (before.map (Language.listedIn order)).map Language.shortName := by
    have isNew := languages.not_mem_of_values isSplit
    rwa [List.map_map]
  refine ends_readLanguage order (languages.fits language isMember)
    (Table.contains_ofValues_of_not_mem isNew) ⟨⟨nextId, isBelow, ?_⟩, trivial⟩
  rw [List.map_append]
  exact congrArg (fun languages => { nextId, languages : Graph }) (Table.insert_ofValues isNew)

theorem ends_readWords (isShort : (graph.languagesRead order).IsShortOf start) :
    ((graph.words.values.map Word.toData).forM (onPairs enterWord)).Ends start
      (fun _ after => (graph.wordsRead order).IsShortOf after ∧ ∀ word ∈ graph.words.values, True)
      (fun _ => ¬∀ word ∈ graph.words.values, True) := by
  have words := isOrderly.tables.words
  refine ends_forM_map
    (fun before => { (graph.languagesRead order) with words := Table.ofValues Word.id before })
    isShort (by rw [← words.eq_ofValues]; rfl)
    fun before word after isSplit nextId isBelow => ?_
  have isMember : word ∈ graph.words.values := isSplit ▸ List.mem_append_cons_self
  have belongs := words.fits word isMember
  have isNew := words.not_mem_of_values isSplit
  refine ends_readWord (contains_restored_language belongs.language)
    (Table.contains_ofValues_of_not_mem isNew) ⟨⟨max nextId (word.id + 1), ?_, ?_⟩, trivial⟩
  · exact Int.max_le.mpr ⟨isBelow, belongs.counted⟩
  · rw [← Table.insert_ofValues isNew]
    rfl

theorem ends_readRuleNames (isShort : (graph.wordsRead order).IsShortOf start) :
    ((graph.rules.values.map fun rule => .record (ruleFields rule)).forM
        (onFields enterRuleName)).Ends start
      (fun _ after => (graph.namesRead order).IsShortOf after ∧ ∀ rule ∈ graph.rules.values, True)
      (fun _ => ¬∀ rule ∈ graph.rules.values, True) := by
  have rules := isOrderly.tables.rules
  refine ends_forM_map
    (fun before =>
      { (graph.wordsRead order) with
        ruleNames := ⟨before.map fun rule => (.text rule.name, .whole rule.id)⟩ })
    isShort rfl fun before rule after isSplit nextId isBelow => ?_
  have isMember : rule ∈ graph.rules.values := isSplit ▸ List.mem_append_cons_self
  have belongs := rules.fits rule isMember
  have isNew : Key.text rule.name ∉
      (before.map fun rule => (Key.text rule.name, GivenId.whole rule.id)).map Prod.fst := by
    rw [List.map_map]
    intro isNamed
    obtain ⟨other, isOther, sameKey⟩ := List.mem_map.mp isNamed
    have isStored : other ∈ graph.rules.values := isSplit ▸ List.mem_append_left _ isOther
    have same := isOrderly.eq_of_name isStored isMember (Key.text.inj sameKey)
    exact rules.not_mem_of_values isSplit (List.mem_map.mpr ⟨other, isOther, congrArg Rule.id same⟩)
  refine ends_readRuleName (Table.get?_eq_none_of_not_mem isNew)
    ⟨⟨max nextId (rule.id + 1), ?_, ?_⟩, trivial⟩
  · exact Int.max_le.mpr ⟨isBelow, belongs.counted⟩
  · rw [List.map_append]
    exact congrArg (fun ruleNames =>
      { (graph.wordsRead order) with nextId := max nextId (rule.id + 1), ruleNames : Graph })
      (Table.insert_of_not_mem isNew _)

theorem ends_readRules (isShort : (graph.namesRead order).IsShortOf start) :
    ((graph.rules.values.map fun rule => .record (ruleFields rule)).forM
        (onFields enterRule)).Ends start
      (fun _ after => (graph.rulesRead order).IsShortOf after ∧
          ∀ rule ∈ graph.rules.values, graph.Resolves rule)
      (fun _ => ¬∀ rule ∈ graph.rules.values, graph.Resolves rule) := by
  have rules := isOrderly.tables.rules
  have areRestored : Table.ofValues Rule.id (graph.rules.values.map withText) =
      (graph.restored order).rules := by
    have kept : IsKept Rule.id (fun _ => True) (graph.restored order).rules :=
      rules.mapValues withText (fun _ => rfl) fun _ _ => trivial
    exact Table.values_mapValues graph.rules withText ▸ kept.eq_ofValues.symm
  refine ends_forM_map
    (fun before =>
      { (graph.namesRead order) with rules := Table.ofValues Rule.id (before.map withText) })
    isShort (by rw [areRestored]; rfl) fun before rule after isSplit nextId isBelow => ?_
  have isMember : rule ∈ graph.rules.values := isSplit ▸ List.mem_append_cons_self
  have belongs := rules.fits rule isMember
  have isNew : (withText rule).id ∉ (before.map withText).map Rule.id := by
    have isNew := rules.not_mem_of_values isSplit
    rwa [List.map_map]
  have isExpected : graph.storedNames.get? (.text rule.name) = some (.whole rule.id) :=
    isOrderly.get?_storedNames.mpr ⟨rule, isMember, rfl, rfl⟩
  have isNamed : rule.toLanguage ≠ [] := by
    obtain ⟨language, isFound⟩ := Table.exists_of_contains belongs.toLanguage
    rw [isOrderly.tables.languages.key_eq isFound]
    exact isOrderly.tables.languages.fits_of_get? isFound
  refine ends_readRule (contains_restored_language belongs.fromLanguage)
    (contains_restored_language belongs.toLanguage) isExpected
    (Table.get?_ofValues_of_not_mem isNew) (fun logic reads => ?_) (fun notRead resolves => ?_) isNamed
  · obtain ⟨rfl, resolves⟩ := (isOrderly.read_storedNames belongs rfl).mp reads
    refine ⟨⟨nextId, isBelow, ?_⟩, resolves⟩
    rw [List.map_append]
    exact congrArg (fun rules => { (graph.namesRead order) with nextId, rules : Graph })
      (Table.insert_ofValues isNew)
  · exact notRead rule.logic ((isOrderly.read_storedNames belongs rfl).mpr ⟨rfl, resolves⟩)

theorem ends_readSequences (isShort : (graph.rulesRead order).IsShortOf start) :
    ((graph.sequences.values.map RuleSequence.toData).forM
        (onFields (enterSequence readSteps))).Ends start
      (fun _ after => (graph.sequencesRead order).IsShortOf after ∧
        ∀ sequence ∈ graph.sequences.values, ∀ step ∈ sequence.steps,
          graph.rules.contains step.rule = true)
      (fun _ => ¬∀ sequence ∈ graph.sequences.values, ∀ step ∈ sequence.steps,
        graph.rules.contains step.rule = true) := by
  have sequences := isOrderly.tables.sequences
  refine ends_forM_map
    (fun before =>
      { (graph.rulesRead order) with sequences := Table.ofValues RuleSequence.id before })
    isShort (by rw [← sequences.eq_ofValues]; rfl)
    fun before sequence after isSplit nextId isBelow => ?_
  have isMember : sequence ∈ graph.sequences.values := isSplit ▸ List.mem_append_cons_self
  have belongs := sequences.fits sequence isMember
  have isNew := sequences.not_mem_of_values isSplit
  have fits := fitsIn_iff_contains belongs
  refine ends_readSequence (contains_restored_language belongs.fromLanguage)
    (contains_restored_language belongs.toLanguage) (fun areFit => ?_) fun notFit areStored => ?_
  · refine ⟨⟨max nextId (sequence.id + 1), Int.max_le.mpr ⟨isBelow, belongs.counted⟩, ?_⟩, ?_⟩
    · rw [← Table.insert_ofValues isNew]
      rfl
    · exact fits.mp fun step isStep => (fitsIn_restored rfl).mp (areFit step isStep)
  · exact notFit fun step isStep => (fitsIn_restored rfl).mpr (fits.mpr areStored step isStep)

theorem ends_readParadigms (isShort : (graph.sequencesRead order).IsShortOf start) :
    ((graph.paradigms.values.map Paradigm.toData).forM readParadigm).Ends start
      (fun _ after => (graph.paradigmsRead order).IsShortOf after ∧
          ∀ paradigm ∈ graph.paradigms.values, True)
      (fun _ => ¬∀ paradigm ∈ graph.paradigms.values, True) := by
  have paradigms := isOrderly.tables.paradigms
  refine ends_forM_map
    (fun before =>
      { (graph.sequencesRead order) with paradigms := Table.ofValues Paradigm.id before })
    isShort (by rw [← paradigms.eq_ofValues]; rfl)
    fun before paradigm after isSplit nextId isBelow => ?_
  have isMember : paradigm ∈ graph.paradigms.values := isSplit ▸ List.mem_append_cons_self
  have belongs := paradigms.fits paradigm isMember
  have isNew := paradigms.not_mem_of_values isSplit
  refine ends_readParadigm belongs.positive (contains_restored_language belongs.language)
    (fun id isRule => contains_restored_rule.trans (belongs.rules id isRule))
    ⟨⟨max nextId (paradigm.id + 1), ?_, ?_⟩, trivial⟩
  · exact Int.max_le.mpr ⟨isBelow, belongs.counted⟩
  · rw [← Table.insert_ofValues isNew]
    rfl

theorem ends_readLinks (isShort : (graph.paradigmsRead order).IsShortOf start) :
    ((graph.links.values.map Link.toData).forM (onPairs enterLink)).Ends start
      (fun _ after => (graph.linksRead order).IsShortOf after ∧ ∀ link ∈ graph.links.values, True)
      (fun _ => ¬∀ link ∈ graph.links.values, True) := by
  have links := isOrderly.tables.links
  refine ends_forM_map
    (fun before => { (graph.paradigmsRead order) with links := Table.ofValues Link.key before })
    isShort (by rw [← links.eq_ofValues]; rfl)
    fun before link after isSplit nextId isBelow => ?_
  have isMember : link ∈ graph.links.values := isSplit ▸ List.mem_append_cons_self
  have belongs := links.fits link isMember
  have isNew := links.not_mem_of_values isSplit
  refine ends_readLink ⟨belongs.source, belongs.target, fun id isRule =>
    contains_restored_rule.trans (belongs.rules id isRule), belongs.sequence⟩
    (Table.contains_ofValues_of_not_mem isNew) ⟨⟨nextId, isBelow, ?_⟩, trivial⟩
  rw [← Table.insert_ofValues isNew]

theorem ends_readCompounds (isShort : (graph.linksRead order).IsShortOf start) :
    ((graph.compounds.values.map Compound.toData).forM (onFields enterCompound)).Ends start
      (fun _ after => (graph.restored order).IsShortOf after ∧
          ∀ compound ∈ graph.compounds.values, True)
      (fun _ => ¬∀ compound ∈ graph.compounds.values, True) := by
  have compounds := isOrderly.tables.compounds
  refine ends_forM_map
    (fun before => { (graph.linksRead order) with compounds := Table.ofValues Compound.id before })
    isShort (by rw [← compounds.eq_ofValues]; rfl)
    fun before compound after isSplit nextId isBelow => ?_
  have isMember : compound ∈ graph.compounds.values := isSplit ▸ List.mem_append_cons_self
  have belongs := compounds.fits compound isMember
  have isNew := compounds.not_mem_of_values isSplit
  refine ends_readCompound belongs.words
    ⟨⟨max nextId (compound.id + 1), ?_, ?_⟩, trivial⟩
  · exact Int.max_le.mpr ⟨isBelow, belongs.counted⟩
  · rw [← Table.insert_ofValues isNew]
    rfl

end IsOrderly

end

/-- Reading what an orderly graph was archived as comes to an end if the graph is closed. -/
theorem IsOrderly.ends_readAll (isOrderly : graph.IsOrderly) (order : SetOrder) :
    (readAll (graph.archived order)).Ends {}
        (fun _ after => graph.IsClosed ∧ after = graph.restored order)
      (fun _ => ¬graph.IsClosed) := by
  unfold readAll
  rw [ends_bind, ends_readEach rfl]
  refine isOrderly.ends_readLanguages.mono (fun _ _ ⟨isShort, _⟩ => ?_) fun _ notFit _ =>
    notFit fun _ _ => trivial
  rw [ends_bind, ends_readEach rfl]
  refine (isOrderly.ends_readWords isShort).mono (fun _ _ ⟨isShort, _⟩ => ?_) fun _ notFit _ =>
    notFit fun _ _ => trivial
  rw [ends_bind, ends_readEach rfl]
  refine (isOrderly.ends_readRuleNames isShort).mono (fun _ _ ⟨isShort, _⟩ => ?_) fun _ notFit _ =>
    notFit fun _ _ => trivial
  rw [ends_bind, ends_readEach rfl]
  refine (isOrderly.ends_readRules isShort).mono (fun _ _ ⟨isShort, rules⟩ => ?_)
    fun _ notFit isClosed => notFit isClosed.rules
  rw [ends_bind, ends_readEach rfl]
  refine (isOrderly.ends_readSequences isShort).mono (fun _ _ ⟨isShort, steps⟩ => ?_)
    fun _ notFit isClosed => notFit isClosed.steps
  rw [ends_bind, ends_readEach rfl]
  refine (isOrderly.ends_readParadigms isShort).mono (fun _ _ ⟨isShort, _⟩ => ?_) fun _ notFit _ =>
    notFit fun _ _ => trivial
  rw [ends_bind, ends_readEach rfl]
  refine (isOrderly.ends_readLinks isShort).mono (fun _ _ ⟨isShort, _⟩ => ?_) fun _ notFit _ =>
    notFit fun _ _ => trivial
  rw [ends_bind, ends_readEach rfl]
  refine (isOrderly.ends_readCompounds isShort).mono (fun _ _ ⟨isShort, _⟩ => ?_) fun _ notFit _ =>
    notFit fun _ _ => trivial
  obtain ⟨nextId, isBelow, rfl⟩ := isShort
  refine ⟨⟨rules, steps⟩, ?_⟩
  have isCounted : max nextId (graph.nextId + 1 - 1) = (graph.restored order).nextId := by
    change nextId ≤ graph.nextId at isBelow
    change max nextId (graph.nextId + 1 - 1) = graph.nextId
    omega
  exact congrArg (fun nextId => { graph.restored order with nextId }) isCounted

/-- The archive of an orderly graph is read back if the graph is closed. -/
theorem IsOrderly.read_archived_eq_ok (isOrderly : graph.IsOrderly) {order : SetOrder}
    {after : Graph} :
    Archive.read (.record (graph.archived order)) = .ok after ↔
      graph.IsClosed ∧ after = graph.restored order := by
  have ends := isOrderly.ends_readAll order
  unfold Ends at ends
  unfold Archive.read
  dsimp only
  cases isRun : (readAll (graph.archived order)).on {} with
  | mk result found =>
      rw [isRun] at ends
      cases result with
      | ok value =>
          obtain ⟨isClosed, rfl⟩ := ends
          refine ⟨fun gave => ⟨isClosed, (Except.ok.inj gave).symm⟩, fun restored => ?_⟩
          exact congrArg Except.ok restored.2.symm
      | error error => exact ⟨(fun gave => nomatch gave), fun restored => absurd restored.1 ends⟩

/-- What an archive is read as is archived in the same way, but that sets are listed which
have been listed before. -/
theorem write_restored (graph : Graph) (order later : SetOrder) :
    Archive.write (graph.restored order) later =
        .ok (.record (graph.archived (later.after order))) := by
  have areRules : (graph.restored order).rules.values.mapM Rule.toData =
      .ok (graph.rules.values.map fun rule => .record (ruleFields rule)) := by
    change (graph.rules.mapValues withText).values.mapM Rule.toData = _
    rw [Table.values_mapValues, List.mapM_map]
    exact Except.mapM_ok fun _ _ => rfl
  have areLanguages :
      (graph.restored order).languages.values.map (fun language => language.toData later) =
        graph.languages.values.map fun language => language.toData (later.after order) := by
    change (graph.languages.mapValues (Language.listedIn order)).values.map _ = _
    rw [Table.values_mapValues, List.map_map]
    exact List.map_congr_left fun language _ => language.toData_listedIn order later
  unfold Archive.write
  rw [areRules, areLanguages]
  rfl

theorem get?_restored_rules (graph : Graph) (order : SetOrder) (id : Int) :
    (graph.restored order).rules.get? id = (graph.rules.get? id).map withText :=
  Table.get?_mapValues _ _ _

theorem IsOrderly.ruleByName (isOrderly : graph.IsOrderly) {id : Int} {rule : Rule}
    (isFound : graph.rules.get? id = some rule) : graph.ruleByName rule.name = .ok rule := by
  have isNamed := (isOrderly.tables.rules.fits_of_get? isFound).named
  rw [← isOrderly.tables.rules.key_eq isFound] at isNamed
  unfold Graph.ruleByName namedRule?
  rw [isNamed]
  change found .rule rule.name (graph.rules.get? id) = .ok rule
  rw [isFound]
  rfl

theorem IsOrderly.ruleByName_restored (isOrderly : graph.IsOrderly) {id : Int} {rule : Rule}
    (isFound : graph.rules.get? id = some rule) :
    (graph.restored order).ruleByName rule.name = .ok (withText rule) := by
  have isNamed := isOrderly.get?_storedNames.mpr
    ⟨rule, Table.mem_values_of_get? isFound, rfl, rfl⟩
  rw [← isOrderly.tables.rules.key_eq isFound] at isNamed
  unfold Graph.ruleByName namedRule?
  change found .rule rule.name ((graph.storedNames.get? (.text rule.name)).bind _) = _
  rw [isNamed]
  change found .rule rule.name ((graph.restored order).rules.get? id) = _
  rw [get?_restored_rules, isFound]
  rfl

/-- A run of regular mutations comes to a graph that can be archived, and its archive can be
read if and only if each rule that a rule or a step refers to is stored. -/
theorem IsReachedRegularly.read_write_iff (isReached : graph.IsReachedRegularly)
    (order : SetOrder) :
    ∃ data, Archive.write graph order = .ok data ∧
      ((∃ after, Archive.read data = .ok after) ↔ graph.IsClosed) := by
  have isOrderly := isReached.isOrderly
  refine ⟨_, isOrderly.write_eq order, ?_⟩
  simp only [isOrderly.read_archived_eq_ok]
  exact ⟨fun ⟨_, isClosed, _⟩ => isClosed, fun isClosed => ⟨_, isClosed, rfl⟩⟩

/-- A rule that refers to a name which is only reserved. -/
def awaiting : Graph := ofRun [
  .addLanguage { name := "A", shortName := "a" } Mutation.isNamed_a,
  .reserveRule (.text "late") .null,
  .addRule [("name", .text "early"), ("from_language", .text "a"), ("to_language", .null),
    ("text", .text "- apply rule 'late'"), ("id", .null)] none]

/-- The archive of a graph that awaits a rule cannot be read. -/
theorem read_write_iff_awaiting :
    awaiting.IsReachedRegularly ∧
      ∃ data, Archive.write awaiting = .ok data ∧ ¬∃ after, Archive.read data = .ok after := by
  have isReached : awaiting.IsReachedRegularly := by
    refine isReachedBy_ofRun ?_
    simp only [List.forall_mem_cons, List.not_mem_nil, false_implies, implies_true, and_true]
    exact ⟨trivial, rfl, rfl, rfl⟩
  obtain ⟨data, wrote, isRead⟩ := isReached.read_write_iff .sorted
  have notClosed : ¬awaiting.IsClosed := by
    rw [isClosed_iff]
    decide +kernel
  exact ⟨isReached, data, wrote, fun readBack => notClosed (isRead.mp readBack)⟩

/-- An archive that is read back is the archive of what it is read as, but for the order in
which the tags of each phoneme are listed: they are listed again as a set of what was listed.
Each rule has the logic that it had, with the same ids in its references, and is found under
its name again. -/
theorem IsReachedRegularly.archive_of_read {order : SetOrder} {data : Data} {after : Graph}
    (isReached : graph.IsReachedRegularly) (wrote : Archive.write graph order = .ok data)
    (readBack : Archive.read data = .ok after) :
    (∀ later, Archive.write after later = Archive.write graph (later.after order)) ∧
      Archive.write after .sorted = Archive.write graph .sorted ∧
      (∀ id, (after.rules.get? id).map Rule.logic = (graph.rules.get? id).map Rule.logic) ∧
      ∀ id rule, graph.rules.get? id = some rule →
        graph.ruleByName rule.name = .ok rule ∧
          ∃ again, after.ruleByName rule.name = .ok again ∧ after.rules.get? id = some again := by
  have isOrderly := isReached.isOrderly
  obtain rfl : data = .record (graph.archived order) := by
    rw [isOrderly.write_eq order] at wrote
    exact (Except.ok.inj wrote).symm
  obtain ⟨-, rfl⟩ := isOrderly.read_archived_eq_ok.mp readBack
  have wroteAgain (later : SetOrder) : Archive.write (graph.restored order) later =
      Archive.write graph (later.after order) :=
    (graph.write_restored order later).trans (isOrderly.write_eq _).symm
  refine ⟨wroteAgain, ?_, fun id => ?_, fun id rule isFound => ?_⟩
  · rw [wroteAgain, SetOrder.sorted_after]
  · rw [get?_restored_rules, Option.map_map]
    rfl
  · refine ⟨isOrderly.ruleByName isFound, withText rule, isOrderly.ruleByName_restored isFound, ?_⟩
    rw [get?_restored_rules, isFound]
    rfl

/-- A rule that was referred to by its name before it was there, and a sequence of both. -/
def awaited : Graph := ofRun [
  .addLanguage { name := "A", shortName := "a" } Mutation.isNamed_a,
  .reserveRule (.text "late") .null,
  .addRule [("name", .text "early"), ("from_language", .text "a"), ("to_language", .null),
    ("text", .text "- apply rule 'late'"), ("id", .null)] none,
  .addRule [("name", .text "late"), ("from_language", .text "a"), ("to_language", .null),
    ("text", .text "- no change"), ("id", .null)] none,
  .addSequence (.text "early|late") [("name", .text "both"), ("from_language", .text "a"),
    ("to_language", .text "a"), ("id", .null)]]

/-- The rule that was there first comes first again, and refers to the other one again. -/
theorem archive_of_read_awaited :
    ∃ data after, awaited.IsReachedRegularly ∧ Archive.write awaited = .ok data ∧
      Archive.read data = .ok after ∧ Archive.write after = .ok data ∧
        ((after.rules.get? 2).map Rule.logic).map Logic.ruleRefs =
          some [{ id := 1, name := "late" }] := by
  have isReached : awaited.IsReachedRegularly := by
    refine isReachedBy_ofRun ?_
    simp only [List.forall_mem_cons, List.not_mem_nil, false_implies, implies_true, and_true]
    exact ⟨trivial, rfl, ⟨rfl, rfl⟩, ⟨rfl, rfl⟩, rfl⟩
  have isClosed : awaited.IsClosed := isClosed_iff.mpr (by decide +kernel)
  have wrote := isReached.isOrderly.write_eq .sorted
  have readBack : Archive.read (.record (awaited.archived .sorted)) = .ok _ :=
    isReached.isOrderly.read_archived_eq_ok.mpr ⟨isClosed, rfl⟩
  obtain ⟨-, wroteAgain, sameLogic, -⟩ := isReached.archive_of_read wrote readBack
  refine ⟨_, _, isReached, wrote, readBack, wroteAgain.trans wrote, ?_⟩
  rw [sameLogic 2]
  decide +kernel

/-- The order in which the member that was given last comes first, as where each member is put
in front of the others. -/
def lastFirst : SetOrder where
  listed := fun texts => texts.dedup.reverse
  mem_listed := fun texts text => by rw [List.mem_reverse, List.mem_dedup]
  nodup_listed := fun texts => List.nodup_reverse.mpr texts.nodup_dedup

/-- A language with a sound that is in two classes. -/
def nasalized : Graph := ofRun [
  .addLanguage
    { name := "A", shortName := "a", phonemes := [{ spelling := "ã", tags := ["vowel", "nasal"] }] }
    (List.cons_ne_nil _ _)]

def tags (graph : Graph) : List (List (List Text)) :=
  graph.languages.values.map fun language => language.phonemes.map Phoneme.tags

/-- The classes of a sound are listed in one order before an archive is read back, and in
another one after it. -/
theorem archive_may_be_reordered :
    ∃ data after, nasalized.IsReachedRegularly ∧ Archive.write nasalized lastFirst = .ok data ∧
      Archive.read data = .ok after ∧ Archive.write after lastFirst ≠ .ok data := by
  have isReached : nasalized.IsReachedRegularly := by
    refine isReachedBy_ofRun ?_
    simp only [List.forall_mem_cons, List.not_mem_nil, false_implies, implies_true, and_true]
    exact trivial
  have isClosed : nasalized.IsClosed := isClosed_iff.mpr (by decide +kernel)
  have readBack (order : SetOrder) :
      Archive.read (.record (nasalized.archived order)) = .ok (nasalized.restored order) :=
    isReached.isOrderly.read_archived_eq_ok.mpr ⟨isClosed, rfl⟩
  refine ⟨_, _, isReached, isReached.isOrderly.write_eq lastFirst, readBack lastFirst, ?_⟩
  rw [write_restored]
  intro same
  have sameRead := (readBack _).symm.trans
      ((congrArg Archive.read (Except.ok.inj same)).trans (readBack _))
  have areOthers : (nasalized.restored (lastFirst.after lastFirst)).tags ≠
      (nasalized.restored lastFirst).tags := by
    decide +kernel
  exact areOthers (congrArg Graph.tags (Except.ok.inj sameRead))

end Graph

end Diachrony
