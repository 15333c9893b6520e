import Diachrony.Graph.Links
import Diachrony.Graph.Paradigms
import Diachrony.Proofs.Graph.Orderly

/-!
# Changes that leave a graph orderly

One fact for each kind of change: what is stored has to belong in the graph, a name gets
an id that was not handed out before, and what is deleted takes along what refers to it.
-/
namespace Diachrony

open Table (IsKept)

namespace Graph

variable {graph : Graph}

theorem NamesAreKept.mono {after : Graph} (names : graph.NamesAreKept)
    (later : graph.nextId ≤ after.nextId)
    (fewer : ∀ key id, after.ruleNames.get? key = some id → graph.ruleNames.get? key = some id) :
    after.NamesAreKept where
  whole := by
    intro key id isNamed
    obtain ⟨number, isWhole, isBelow⟩ := names.whole key id (fewer key id isNamed)
    exact ⟨number, isWhole, Int.lt_of_lt_of_le isBelow later⟩
  distinct := fun key other id isNamed isNamedToo =>
    names.distinct key other id (fewer key id isNamed) (fewer other id isNamedToo)

theorem contains_insert_of_contains {κ α : Type} [DecidableEq κ] {table : Table κ α} (key : κ)
    (value : α) (other : κ) (isStored : table.contains other = true) :
    (table.insert key value).contains other = true := by
  rw [Table.contains_insert, isStored, Bool.or_true]

/-- A change that adds no rules and no names. -/
theorem IsOrderly.change (isOrderly : graph.IsOrderly) {after : Graph} (grown : graph.Extends after)
    (sameNames : after.ruleNames = graph.ruleNames) (tables : after.IsKeptIn after) :
    after.IsOrderly where
  counting := Int.lt_of_lt_of_le isOrderly.counting grown.counting
  names := isOrderly.names.mono grown.counting fun _ _ isNamed => sameNames ▸ isNamed
  tables := tables

theorem IsOrderly.count (isOrderly : graph.IsOrderly) {nextId : Int}
    (later : graph.nextId ≤ nextId) : IsOrderly { graph with nextId } := by
  have grown : graph.Extends { graph with nextId } :=
    extends_of_same later (fun _ isStored => isStored) (fun _ isStored => isStored) rfl rfl
  exact isOrderly.change grown rfl { isOrderly.tables.grow grown fun _ isStored => isStored with }

theorem IsOrderly.putLanguage (isOrderly : graph.IsOrderly) {language : Language}
    (isSome : language.shortName ≠ []) :
    IsOrderly
      { graph with languages := graph.languages.insert language.shortName language } := by
  have grown : graph.Extends
      { graph with languages := graph.languages.insert language.shortName language } :=
    extends_of_same (Int.le_refl _) (contains_insert_of_contains _ _)
      (fun _ isStored => isStored) rfl rfl
  have tables := isOrderly.tables.grow grown fun _ isStored => isStored
  exact isOrderly.change grown rfl { tables with languages := tables.languages.insert rfl isSome }

theorem IsOrderly.putWord (isOrderly : graph.IsOrderly) {word : Word}
    (belongs : word.BelongsIn graph) :
    IsOrderly { graph with words := graph.words.insert word.id word } := by
  have grown : graph.Extends { graph with words := graph.words.insert word.id word } :=
    extends_of_same (Int.le_refl _) (fun _ isStored => isStored) (fun _ isStored => isStored) rfl rfl
  have tables := isOrderly.tables.grow grown (contains_insert_of_contains _ _)
  exact isOrderly.change grown rfl
    { tables with words := tables.words.insert rfl (belongs.grow grown) }

theorem IsOrderly.putSequence (isOrderly : graph.IsOrderly) {sequence : RuleSequence}
    (belongs : sequence.BelongsIn graph) :
    IsOrderly { graph with sequences := graph.sequences.insert sequence.id sequence } := by
  have grown : graph.Extends
      { graph with sequences := graph.sequences.insert sequence.id sequence } :=
    extends_of_same (Int.le_refl _) (fun _ isStored => isStored)
      (contains_insert_of_contains _ _) rfl rfl
  have tables := isOrderly.tables.grow grown fun _ isStored => isStored
  exact isOrderly.change grown rfl
    { tables with sequences := tables.sequences.insert rfl (belongs.grow grown) }

theorem IsOrderly.putParadigm (isOrderly : graph.IsOrderly) {paradigm : Paradigm}
    (belongs : paradigm.BelongsIn graph) :
    IsOrderly { graph with paradigms := graph.paradigms.insert paradigm.id paradigm } := by
  have grown : graph.Extends
      { graph with paradigms := graph.paradigms.insert paradigm.id paradigm } :=
    extends_of_same (Int.le_refl _) (fun _ isStored => isStored) (fun _ isStored => isStored) rfl rfl
  have tables := isOrderly.tables.grow grown fun _ isStored => isStored
  exact isOrderly.change grown rfl
    { tables with paradigms := tables.paradigms.insert rfl (belongs.grow grown) }

theorem IsOrderly.putLink (isOrderly : graph.IsOrderly) {link : Link}
    (belongs : link.BelongsIn graph) :
    IsOrderly { graph with links := graph.links.insert link.key link } := by
  have grown : graph.Extends { graph with links := graph.links.insert link.key link } :=
    extends_of_same (Int.le_refl _) (fun _ isStored => isStored) (fun _ isStored => isStored) rfl rfl
  have sameWords : ∀ id, graph.words.contains id = true → graph.words.contains id = true :=
    fun _ isStored => isStored
  have tables := isOrderly.tables.grow grown sameWords
  exact isOrderly.change grown rfl
    { tables with links := tables.links.insert rfl (belongs.grow grown sameWords) }

theorem IsOrderly.eraseLink (isOrderly : graph.IsOrderly) (key : LinkKey) :
    IsOrderly { graph with links := graph.links.erase key } := by
  have grown : graph.Extends { graph with links := graph.links.erase key } :=
    extends_of_same (Int.le_refl _) (fun _ isStored => isStored) (fun _ isStored => isStored) rfl rfl
  have tables := isOrderly.tables.grow grown fun _ isStored => isStored
  exact isOrderly.change grown rfl
    { tables with links := (tables.links.erase key).mono fun _ ⟨belongs, _⟩ => belongs }

theorem IsOrderly.putCompound (isOrderly : graph.IsOrderly) {compound : Compound}
    (belongs : compound.BelongsIn graph) :
    IsOrderly { graph with compounds := graph.compounds.insert compound.id compound } := by
  have grown : graph.Extends
      { graph with compounds := graph.compounds.insert compound.id compound } :=
    extends_of_same (Int.le_refl _) (fun _ isStored => isStored) (fun _ isStored => isStored) rfl rfl
  have sameWords : ∀ id, graph.words.contains id = true → graph.words.contains id = true :=
    fun _ isStored => isStored
  have tables := isOrderly.tables.grow grown sameWords
  exact isOrderly.change grown rfl
    { tables with compounds := tables.compounds.insert rfl (belongs.grow grown sameWords) }

/-- A rule is stored anew, or in place of one between the same languages. -/
theorem IsOrderly.putRule (isOrderly : graph.IsOrderly) {rule : Rule}
    (belongs : rule.BelongsIn graph)
    (sameLanguages : ∀ stored, graph.rules.get? rule.id = some stored →
      rule.fromLanguage = stored.fromLanguage ∧ rule.toLanguage = stored.toLanguage) :
    IsOrderly { graph with rules := graph.rules.insert rule.id rule } := by
  have grown : graph.Extends { graph with rules := graph.rules.insert rule.id rule } := {
    counting := Int.le_refl _
    languages := fun _ isStored => isStored
    rules := by
      intro id stored isFound
      by_cases isRule : id = rule.id
      · subst isRule
        exact ⟨rule, by rw [Table.get?_insert, if_pos rfl], sameLanguages stored isFound⟩
      · exact ⟨stored, by rw [Table.get?_insert, if_neg isRule, isFound], rfl, rfl⟩
    ruleNames := fun _ _ isNamed => isNamed
    sequences := fun _ isStored => isStored
    newNames := fun _ _ isNamed => .inl isNamed
    newRules := by
      intro id isStored
      rw [Table.contains_insert, Bool.or_eq_true, decide_eq_true_iff] at isStored
      rcases isStored with rfl | isStored
      · exact .inr ⟨_, belongs.named⟩
      · exact .inl isStored }
  have tables := isOrderly.tables.grow grown fun _ isStored => isStored
  exact isOrderly.change grown rfl
    { tables with rules := tables.rules.insert rfl (belongs.grow grown) }

def withName (graph : Graph) (key : Key) : Graph :=
  { graph with
    nextId := graph.nextId + 1
    ruleNames := graph.ruleNames.insert key (.whole graph.nextId) }

theorem NamesAreKept.withName (names : graph.NamesAreKept) (key : Key) :
    (graph.withName key).NamesAreKept where
  whole := by
    intro other id isNamed
    change (graph.ruleNames.insert key _).get? other = some id at isNamed
    rw [Table.get?_insert] at isNamed
    split at isNamed
    · cases isNamed
      exact ⟨graph.nextId, rfl, Int.lt_succ graph.nextId⟩
    · obtain ⟨number, isWhole, isBelow⟩ := names.whole other id isNamed
      exact ⟨number, isWhole, Int.lt_of_lt_of_le isBelow (Int.le_of_lt (Int.lt_succ _))⟩
  distinct := by
    have isUnused : ∀ other, graph.ruleNames.get? other ≠ some (.whole graph.nextId) := by
      intro other isNamed
      obtain ⟨number, isWhole, isBelow⟩ := names.whole other _ isNamed
      cases isWhole
      exact Int.lt_irrefl _ isBelow
    intro first second id isNamed isNamedToo
    change (graph.ruleNames.insert key _).get? first = some id at isNamed
    change (graph.ruleNames.insert key _).get? second = some id at isNamedToo
    rw [Table.get?_insert] at isNamed isNamedToo
    split at isNamed
    · rename_i isFirst
      cases isNamed
      split at isNamedToo
      · rename_i isSecond
        exact isFirst.trans isSecond.symm
      · exact absurd isNamedToo (isUnused second)
    · split at isNamedToo
      · cases isNamedToo
        exact absurd isNamed (isUnused first)
      · exact names.distinct first second id isNamed isNamedToo

theorem extends_withName {key : Key} (isNew : graph.ruleNames.get? key = none) :
    graph.Extends (graph.withName key) where
  counting := Int.le_of_lt (Int.lt_succ _)
  languages := fun _ isStored => isStored
  rules := fun _ rule isFound => ⟨rule, isFound, rfl, rfl⟩
  ruleNames := by
    intro other id isNamed
    have isOther : other ≠ key := by
      rintro rfl
      rw [isNew] at isNamed
      cases isNamed
    change (graph.ruleNames.insert key _).get? other = some id
    rw [Table.get?_insert, if_neg isOther, isNamed]
  sequences := fun _ isStored => isStored
  newNames := by
    intro other id isNamed
    change (graph.ruleNames.insert key _).get? other = some (.whole id) at isNamed
    rw [Table.get?_insert] at isNamed
    split at isNamed
    · cases isNamed
      exact .inr (Int.le_refl _)
    · exact .inl isNamed
  newRules := fun _ isStored => .inl isStored

theorem IsOrderly.withName (isOrderly : graph.IsOrderly) {key : Key}
    (isNew : graph.ruleNames.get? key = none) : (graph.withName key).IsOrderly where
  counting := Int.lt_trans isOrderly.counting (Int.lt_succ _)
  names := isOrderly.names.withName key
  tables := { isOrderly.tables.grow (extends_withName isNew) fun _ isStored => isStored with }

/-- A name that was reserved a moment ago is given back. -/
theorem IsOrderly.forgetName (isOrderly : graph.IsOrderly) {key : Key}
    (isNew : graph.ruleNames.get? key = none) :
    IsOrderly { graph.withName key with ruleNames := (graph.withName key).ruleNames.erase key } := by
  have sameNames : ∀ other, ((graph.withName key).ruleNames.erase key).get? other =
      graph.ruleNames.get? other := by
    intro other
    change ((graph.ruleNames.insert key _).erase key).get? other = _
    rw [Table.get?_erase, Table.get?_insert]
    split
    · rename_i isKey
      rw [isKey, isNew]
    · rfl
  have grown : graph.Extends
      { graph.withName key with ruleNames := (graph.withName key).ruleNames.erase key } := {
    counting := Int.le_of_lt (Int.lt_succ _)
    languages := fun _ isStored => isStored
    rules := fun _ rule isFound => ⟨rule, isFound, rfl, rfl⟩
    ruleNames := fun other _ isNamed => (sameNames other).trans isNamed
    sequences := fun _ isStored => isStored
    newNames := fun other _ isNamed => .inl ((sameNames other).symm.trans isNamed)
    newRules := fun _ isStored => .inl isStored }
  exact ⟨Int.lt_trans isOrderly.counting (Int.lt_succ _),
    isOrderly.names.mono grown.counting fun other _ isNamed => (sameNames other).symm.trans isNamed,
    { isOrderly.tables.grow grown fun _ isStored => isStored with }⟩

theorem contains_erase_of_ne {κ α : Type} [DecidableEq κ] {table : Table κ α} {key other : κ}
    (differs : other ≠ key) (isStored : table.contains other = true) :
    (table.erase key).contains other = true := by
  rw [Table.contains_erase, isStored, decide_eq_true differs]
  rfl

/-- Links and compounds go along with the word; where the word was a component only, the
compound does without it. -/
theorem IsOrderly.withoutWord (isOrderly : graph.IsOrderly) (id : Int) :
    (Edit.withoutWord graph id).IsOrderly := by
  have grown : graph.Extends { Edit.withoutWord graph id with words := graph.words } :=
    extends_of_same (Int.le_refl _) (fun _ isStored => isStored) (fun _ isStored => isStored) rfl rfl
  have tables := isOrderly.tables.grow grown fun _ isStored => isStored
  refine ⟨isOrderly.counting, isOrderly.names.mono (Int.le_refl _) fun _ _ isNamed => isNamed, ?_⟩
  have keeps : ∀ {other : Int}, other ≠ id → graph.words.contains other = true →
      (Edit.withoutWord graph id).words.contains other = true := contains_erase_of_ne
  exact {
    languages := tables.languages
    words := (tables.words.erase id).mono fun _ ⟨belongs, _⟩ => ⟨belongs.counted, belongs.language⟩
    rules := tables.rules.mono fun _ belongs =>
      ⟨belongs.counted, belongs.fromLanguage, belongs.toLanguage, belongs.named, belongs.reads⟩
    sequences := tables.sequences.mono fun _ belongs =>
      ⟨belongs.counted, belongs.fromLanguage, belongs.toLanguage, fun step isMember =>
        match belongs.steps step isMember with
        | .fits fitsIn => .fits fitsIn
        | .left isLost noOther =>
          .left ⟨isLost.counted, isLost.notStored, isLost.notNamed⟩ noOther⟩
    paradigms := tables.paradigms.mono fun _ belongs =>
      ⟨belongs.positive, belongs.counted, belongs.language, belongs.rules⟩
    links := by
      refine (tables.links.filter fun _ link => link.source != id && link.target != id).mono
        fun link ⟨belongs, isOther⟩ => ?_
      simp only [Bool.and_eq_true, bne_iff_ne] at isOther
      exact ⟨keeps isOther.1 belongs.source, keeps isOther.2 belongs.target, belongs.rules,
        belongs.sequence⟩
    compounds := by
      refine (tables.compounds.filter fun _ compound => compound.whole != id).mapValues
        (fun compound =>
          { compound with components := compound.components.filter (· != id) })
        (fun _ => rfl) fun compound ⟨belongs, isOther⟩ => ?_
      rw [bne_iff_ne] at isOther
      refine ⟨belongs.counted, List.forall_mem_cons.mpr
        ⟨keeps isOther (belongs.words _ List.mem_cons_self), fun word isMember => ?_⟩⟩
      obtain ⟨isMember, isOther⟩ := List.mem_filter.mp isMember
      exact keeps (bne_iff_ne.mp isOther) (belongs.words word (List.mem_cons_of_mem _ isMember)) }

section

variable {id : Int} {rule : Rule}

theorem mem_rules_eraseRule {grid : Grid} {other : Int}
    (isMember : other ∈ (grid.eraseRule id).rules) : other ∈ grid.rules ∧ other ≠ id := by
  obtain ⟨cell, isCell, isMember⟩ := List.mem_flatten.mp isMember
  obtain ⟨row, isRow, isCell⟩ := List.mem_flatten.mp isCell
  obtain ⟨rowBefore, isRowBefore, rfl⟩ := List.mem_map.mp isRow
  obtain ⟨cellBefore, isCellBefore, rfl⟩ := List.mem_map.mp isCell
  obtain ⟨isMember, isOther⟩ := List.mem_filter.mp isMember
  refine ⟨?_, bne_iff_ne.mp isOther⟩
  exact List.mem_flatten.mpr ⟨cellBefore, List.mem_flatten.mpr ⟨rowBefore, isRowBefore,
    isCellBefore⟩, isMember⟩

theorem get?_rules_withoutRule {name : Text} {other : Int} (differs : other ≠ id) :
    (Edit.withoutRule graph id name).rules.get? other = graph.rules.get? other := by
  change (graph.rules.erase id).get? other = _
  rw [Table.get?_erase, if_neg differs]

theorem contains_rules_withoutRule {name : Text} {other : Int} (differs : other ≠ id)
    (isStored : graph.rules.contains other = true) :
    (Edit.withoutRule graph id name).rules.contains other = true :=
  contains_erase_of_ne differs isStored

/-- Once the rule is gone, its id is lost: the name is free, and no other name had it. -/
theorem isLost_withoutRule (isOrderly : graph.IsOrderly) (isFound : graph.rules.get? id = some rule) :
    (Edit.withoutRule graph id rule.name).IsLost id := by
  have isId := isOrderly.tables.rules.key_eq isFound
  have belongs := isOrderly.tables.rules.fits_of_get? isFound
  refine ⟨isId ▸ belongs.counted, ?_, fun key isNamed => ?_⟩
  · change (graph.rules.erase id).contains id = false
    rw [Table.contains_erase]
    simp
  · change (graph.ruleNames.erase (.text rule.name)).get? key = some (.whole id) at isNamed
    rw [Table.get?_erase] at isNamed
    split at isNamed
    · cases isNamed
    · rename_i differs
      exact differs (isOrderly.names.distinct _ _ _ isNamed (isId ▸ belongs.named))

theorem isLost_of_isLost (isFound : graph.rules.get? id = some rule) {other : Int}
    (isLost : graph.IsLost other) :
    (Edit.withoutRule graph id rule.name).IsLost other ∧ other ≠ id := by
  have differs : other ≠ id := by
    rintro rfl
    have isStored := Table.contains_of_get? isFound
    rw [isLost.notStored] at isStored
    cases isStored
  refine ⟨⟨isLost.counted, ?_, fun key isNamed => ?_⟩, differs⟩
  · change (graph.rules.erase id).contains other = false
    rw [Table.contains_erase, isLost.notStored, Bool.and_false]
  · change (graph.ruleNames.erase (.text rule.name)).get? key = some (.whole other) at isNamed
    rw [Table.get?_erase] at isNamed
    split at isNamed
    · cases isNamed
    · exact isLost.notNamed key isNamed

theorem belongsIn_of_withoutRule? (isOrderly : graph.IsOrderly)
    (isFound : graph.rules.get? id = some rule) {sequence : RuleSequence} {step after : SequenceStep}
    (isStep : step.withoutRule? id = some after) (belongs : step.BelongsIn graph sequence) :
    after.BelongsIn (Edit.withoutRule graph id rule.name) (sequence.withoutRule id) := by
  unfold SequenceStep.withoutRule? at isStep
  split at isStep
  · rename_i isRule
    obtain ⟨alternative, isAlternative, rfl⟩ := Option.map_eq_some_iff.mp isStep
    cases belongs with
    | left isLost noOther =>
        rw [isAlternative] at noOther
        cases noOther
    | fits fitsIn =>
        obtain ⟨own, isOwn, fits, areOthers⟩ := fitsIn
        obtain ⟨other, isOther, areAlike⟩ := areOthers alternative isAlternative
        by_cases isSame : alternative = id
        · subst isSame
          exact .left (isLost_withoutRule isOrderly isFound) rfl
        · refine .fits ⟨other, (get?_rules_withoutRule isSame).trans isOther, ?_,
            fun _ isNone => nomatch isNone⟩
          simp only [Rule.matchesLanguages, Bool.and_eq_true, beq_iff_eq] at areAlike
          change sequence.fits other = true
          unfold RuleSequence.fits at fits ⊢
          rw [areAlike.1, areAlike.2]
          exact fits
  · rename_i notRule
    cases belongs with
    | left isLost noOther =>
        have isAfter : after = step := by
          rw [noOther, if_neg (by simp)] at isStep
          exact (Option.some.inj isStep).symm
        rw [isAfter]
        exact .left (isLost_of_isLost isFound isLost).1 noOther
    | fits fitsIn =>
        obtain ⟨own, isOwn, fits, areOthers⟩ := fitsIn
        split at isStep
        · cases isStep
          exact .fits ⟨own, (get?_rules_withoutRule notRule).trans isOwn, fits,
            fun _ isNone => nomatch isNone⟩
        · rename_i notAlternative
          cases isStep
          refine .fits ⟨own, (get?_rules_withoutRule notRule).trans isOwn, fits,
            fun other isOther => ?_⟩
          have differs : other ≠ id := fun same => notAlternative (same ▸ isOther)
          rw [get?_rules_withoutRule differs]
          exact areOthers other isOther

/-- No other rule refers to the rule, so that what the others refer to is found as it was. -/
theorem belongsIn_withoutRule (isOrderly : graph.IsOrderly)
    (isFound : graph.rules.get? id = some rule) {other : Rule} (differs : other.id ≠ id)
    (notUsed : other.logic.references.contains id = false) (belongs : other.BelongsIn graph) :
    other.BelongsIn (Edit.withoutRule graph id rule.name) := by
  have isId := isOrderly.tables.rules.key_eq isFound
  have isNamed : graph.ruleNames.get? (.text rule.name) = some (.whole id) :=
    isId ▸ (isOrderly.tables.rules.fits_of_get? isFound).named
  have sameName : ∀ {name : Text}, graph.ruleNames.get? (.text name) ≠ some (.whole id) →
      (Edit.withoutRule graph id rule.name).ruleNames.get? (.text name) =
        graph.ruleNames.get? (.text name) := by
    intro name notId
    change (graph.ruleNames.erase _).get? _ = _
    rw [Table.get?_erase, if_neg]
    intro isName
    exact notId (isName ▸ isNamed)
  refine ⟨belongs.counted, belongs.fromLanguage, belongs.toLanguage, ?_, ?_⟩
  · rw [sameName, belongs.named]
    rw [belongs.named]
    intro same
    cases same
    exact differs rfl
  · refine Logic.read_again graph.isByName_resolver belongs.reads fun reference isMember => ?_
    have isReference := Logic.found_of_read graph.isByName_resolver belongs.reads reference isMember
    obtain ⟨given, isGiven, same⟩ := Option.map_eq_some_iff.mp isReference
    have notId : graph.ruleNames.get? (.text reference.name) ≠ some (.whole id) := by
      intro isNamedId
      rw [isGiven] at isNamedId
      cases isNamedId
      have isReferred : id ∈ other.logic.references :=
        List.mem_map.mpr ⟨reference, isMember, congrArg RuleRef.id same.symm⟩
      rw [List.contains_iff_mem.mpr isReferred] at notUsed
      cases notUsed
    refine Option.map_eq_some_iff.mpr ⟨given, ?_, same⟩
    rw [sameName notId, isGiven]

/-- Steps, cells and links do without the rule, to which no other rule refers. -/
theorem IsOrderly.withoutRule (isOrderly : graph.IsOrderly)
    (isFound : graph.rules.get? id = some rule)
    (notUsed : ∀ other ∈ graph.rules.values, other.id ≠ id →
      other.logic.references.contains id = false) :
    (Edit.withoutRule graph id rule.name).IsOrderly := by
  have tables := isOrderly.tables
  have sameSequences : ∀ other, graph.sequences.contains other = true →
      (Edit.withoutRule graph id rule.name).sequences.contains other = true := by
    intro other isStored
    exact (Table.contains_mapValues _ _ _).trans isStored
  refine ⟨isOrderly.counting, isOrderly.names.mono (Int.le_refl _) fun key other isNamed => ?_, ?_⟩
  · change (graph.ruleNames.erase _).get? key = some other at isNamed
    rw [Table.get?_erase] at isNamed
    split at isNamed
    · cases isNamed
    · exact isNamed
  · exact {
      languages := tables.languages
      words := tables.words.mono fun _ belongs => ⟨belongs.counted, belongs.language⟩
      rules := by
        have others := tables.rules.erase id
        refine ⟨others.nodup, others.keyed, fun other isMember => ?_⟩
        obtain ⟨belongs, differs⟩ := others.fits other isMember
        have isMemberBefore : other ∈ graph.rules.values :=
          (List.filter_sublist.map Prod.snd).subset isMember
        exact belongsIn_withoutRule isOrderly isFound differs
          (notUsed other isMemberBefore differs) belongs
      sequences := by
        refine tables.sequences.mapValues (·.withoutRule id) (fun _ => rfl) fun sequence belongs => ?_
        refine ⟨belongs.counted, belongs.fromLanguage, belongs.toLanguage, fun after isMember => ?_⟩
        obtain ⟨step, isStep, isAfter⟩ := List.mem_filterMap.mp isMember
        exact belongsIn_of_withoutRule? isOrderly isFound isAfter (belongs.steps step isStep)
      paradigms := by
        refine tables.paradigms.mapValues (·.withoutRule id) (fun _ => rfl) fun paradigm belongs => ?_
        refine ⟨belongs.positive, belongs.counted, belongs.language, fun other isMember => ?_⟩
        obtain ⟨isMember, differs⟩ := mem_rules_eraseRule isMember
        exact contains_rules_withoutRule differs (belongs.rules other isMember)
      links := by
        refine tables.links.mapValues (·.withoutRule id) (fun _ => rfl) fun link belongs => ?_
        refine ⟨belongs.source, belongs.target, fun other isMember => ?_,
          fun other isSequence => sameSequences other (belongs.sequence other isSequence)⟩
        obtain ⟨isMember, differs⟩ := List.mem_filter.mp isMember
        exact contains_rules_withoutRule (bne_iff_ne.mp differs) (belongs.rules other isMember)
      compounds := tables.compounds.mono fun _ belongs => ⟨belongs.counted, belongs.words⟩ }

end

end Graph

end Diachrony
