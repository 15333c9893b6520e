import Diachrony.Proofs.Graph.Mutation

/-!
# Links, cells and compounds refer to what is there

Whatever edits are made, with ids that are asked for and fields that are assigned or
without, what a link, a cell or a compound refers to is stored.  Most edits only add to what
may be referred to; those that change links, cells or compounds look first, and those that
take something away take along what refers to it.
-/
namespace Diachrony

namespace Graph

/-- The links, cells and compounds of a graph refer to what is stored in another one, and
links are stored under their own keys. -/
structure IsConnectedIn (world graph : Graph) : Prop where
  links : ∀ entry ∈ graph.links.entries, entry.1 = entry.2.key ∧ entry.2.BelongsIn world
  cells : ∀ paradigm ∈ graph.paradigms.values, ∀ id ∈ paradigm.grid.rules,
    world.rules.contains id = true
  compounds : ∀ compound ∈ graph.compounds.values, ∀ id ∈ compound.whole :: compound.components,
    world.words.contains id = true

/-- A graph in which links, cells and compounds refer to what is stored. -/
def IsConnected (graph : Graph) : Prop := graph.IsConnectedIn graph

structure OffersTo (before after : Graph) : Prop where
  words : ∀ id, before.words.contains id = true → after.words.contains id = true
  rules : ∀ id, before.rules.contains id = true → after.rules.contains id = true
  sequences : ∀ id, before.sequences.contains id = true → after.sequences.contains id = true

/-- What could be referred to is there still, and what refers to it is the same. -/
structure GrowsTo (before after : Graph) : Prop extends before.OffersTo after where
  links : after.links = before.links
  paradigms : after.paradigms = before.paradigms
  compounds : after.compounds = before.compounds

variable {graph after : Graph}

theorem offersTo_of_same (words : after.words = graph.words) (rules : after.rules = graph.rules)
    (sequences : after.sequences = graph.sequences) : graph.OffersTo after where
  words := fun _ isStored => words ▸ isStored
  rules := fun _ isStored => rules ▸ isStored
  sequences := fun _ isStored => sequences ▸ isStored

theorem growsTo_refl (graph : Graph) : graph.GrowsTo graph :=
  ⟨offersTo_of_same rfl rfl rfl, rfl, rfl, rfl⟩

theorem IsConnectedIn.offer {world : Graph} (isConnected : world.IsConnectedIn graph)
    (offers : world.OffersTo after) : after.IsConnectedIn graph where
  links := by
    intro entry isEntry
    obtain ⟨isKey, belongs⟩ := isConnected.links entry isEntry
    exact ⟨isKey, offers.words _ belongs.source, offers.words _ belongs.target,
      fun id isRule => offers.rules id (belongs.rules id isRule),
      fun id isSequence => offers.sequences id (belongs.sequence id isSequence)⟩
  cells := fun paradigm isMember id isRule =>
    offers.rules id (isConnected.cells paradigm isMember id isRule)
  compounds := fun compound isMember id isWord =>
    offers.words id (isConnected.compounds compound isMember id isWord)

theorem IsConnected.grow (isConnected : graph.IsConnected) (grows : graph.GrowsTo after) :
    after.IsConnected := by
  have isConnected := isConnected.offer grows.toOffersTo
  exact ⟨grows.links ▸ isConnected.links, grows.paradigms ▸ isConnected.cells,
    grows.compounds ▸ isConnected.compounds⟩

theorem IsConnected.putParadigm (isConnected : graph.IsConnected) (id : Int) {paradigm : Paradigm}
    (areRules : ∀ id ∈ paradigm.grid.rules, graph.rules.contains id = true) :
    IsConnected { graph with paradigms := graph.paradigms.insert id paradigm } := by
  have others : IsConnectedIn { graph with paradigms := graph.paradigms.insert id paradigm } graph :=
    isConnected.offer (offersTo_of_same rfl rfl rfl)
  refine { others with cells := fun other isMember => ?_ }
  rcases Table.mem_values_insert isMember with rfl | isMember
  · exact areRules
  · exact others.cells other isMember

theorem IsConnected.putLink (isConnected : graph.IsConnected) {link : Link}
    (belongs : link.BelongsIn graph) :
    IsConnected { graph with links := graph.links.insert link.key link } := by
  have others : IsConnectedIn { graph with links := graph.links.insert link.key link } graph :=
    isConnected.offer (offersTo_of_same rfl rfl rfl)
  refine { others with links := fun entry isEntry => ?_ }
  rcases Table.mem_entries_insert isEntry with rfl | isEntry
  · exact ⟨rfl, belongs.source, belongs.target, belongs.rules, belongs.sequence⟩
  · exact others.links entry isEntry

theorem IsConnected.eraseLink (isConnected : graph.IsConnected) (key : LinkKey) :
    IsConnected { graph with links := graph.links.erase key } := by
  have others : IsConnectedIn { graph with links := graph.links.erase key } graph :=
    isConnected.offer (offersTo_of_same rfl rfl rfl)
  exact { others with
    links := fun entry isEntry => others.links entry (List.mem_of_mem_filter isEntry) }

theorem IsConnected.putCompound (isConnected : graph.IsConnected) (id : Int) {compound : Compound}
    (areWords : ∀ id ∈ compound.whole :: compound.components, graph.words.contains id = true) :
    IsConnected { graph with compounds := graph.compounds.insert id compound } := by
  have others : IsConnectedIn { graph with compounds := graph.compounds.insert id compound } graph :=
    isConnected.offer (offersTo_of_same rfl rfl rfl)
  refine { others with compounds := fun other isMember => ?_ }
  rcases Table.mem_values_insert isMember with rfl | isMember
  · exact areWords
  · exact others.compounds other isMember

/-- Links and compounds go along with the word. -/
theorem IsConnected.withoutWord (isConnected : graph.IsConnected) (id : Int) :
    (Edit.withoutWord graph id).IsConnected where
  links := by
    intro entry isEntry
    obtain ⟨isEntry, isOther⟩ := List.mem_filter.mp isEntry
    obtain ⟨isKey, belongs⟩ := isConnected.links entry isEntry
    simp only [Bool.and_eq_true, bne_iff_ne] at isOther
    exact ⟨isKey, contains_erase_of_ne isOther.1 belongs.source,
      contains_erase_of_ne isOther.2 belongs.target, belongs.rules, belongs.sequence⟩
  cells := isConnected.cells
  compounds := by
    intro compound isMember
    obtain ⟨changed, isChanged, rfl⟩ := List.mem_map.mp isMember
    obtain ⟨entry, isLeft, rfl⟩ := List.mem_map.mp isChanged
    obtain ⟨isEntry, isOther⟩ := List.mem_filter.mp isLeft
    have areWords := isConnected.compounds entry.2 (List.mem_map_of_mem isEntry)
    refine List.forall_mem_cons.mpr
      ⟨contains_erase_of_ne (bne_iff_ne.mp isOther) (areWords _ List.mem_cons_self),
        fun word isWord => ?_⟩
    obtain ⟨isWord, isOther⟩ := List.mem_filter.mp isWord
    exact contains_erase_of_ne (bne_iff_ne.mp isOther) (areWords word (List.mem_cons_of_mem _ isWord))

/-- Cells and links do without the rule. -/
theorem IsConnected.withoutRule (isConnected : graph.IsConnected) (id : Int) (name : Text) :
    (Edit.withoutRule graph id name).IsConnected where
  links := by
    intro entry isMember
    obtain ⟨before, isEntry, rfl⟩ := List.mem_map.mp isMember
    obtain ⟨isKey, belongs⟩ := isConnected.links before isEntry
    refine ⟨isKey, belongs.source, belongs.target, fun rule isRule => ?_, fun sequence isSequence => ?_⟩
    · obtain ⟨isRule, isOther⟩ := List.mem_filter.mp isRule
      exact contains_erase_of_ne (bne_iff_ne.mp isOther) (belongs.rules rule isRule)
    · exact (Table.contains_mapValues _ _ _).trans (belongs.sequence sequence isSequence)
  cells := by
    intro paradigm isMember rule isRule
    obtain ⟨changed, isChanged, rfl⟩ := List.mem_map.mp isMember
    obtain ⟨before, isEntry, rfl⟩ := List.mem_map.mp isChanged
    obtain ⟨isRule, isOther⟩ := mem_rules_eraseRule isRule
    exact contains_erase_of_ne isOther
      (isConnected.cells before.2 (List.mem_map_of_mem isEntry) rule isRule)
  compounds := isConnected.compounds

end Graph

namespace Edit

open Diachrony.Graph (GrowsTo IsConnected)

variable {α β : Type}

section

variable {Kept : Graph → Prop}

theorem keeps_modify {change : Graph → Graph} (isKept : ∀ graph, Kept graph → Kept (change graph)) :
    (modify change : Edit PUnit).Keeps Kept :=
  fun graph kept => isKept graph kept

theorem Keeps.tryCatch {edit : Edit α} {handle : Error → Edit α} (keeps : edit.Keeps Kept)
    (handles : ∀ error, (handle error).Keeps Kept) : (tryCatch edit handle).Keeps Kept := by
  intro graph isKept
  have ends := keeps graph isKept
  unfold Ends at ends ⊢
  rw [on_tryCatch]
  cases isRun : edit.on graph with
  | mk result after =>
      rw [isRun] at ends
      cases result with
      | ok value => exact ends
      | error error => exact handles error after ends

end

def Adds (edit : Edit α) : Prop := ∀ start : Graph, edit.Keeps start.GrowsTo

theorem Adds.keepsConnected {edit : Edit α} (adds : edit.Adds) : edit.Keeps IsConnected :=
  fun graph isConnected => (adds graph graph graph.growsTo_refl).mono
    (fun _ _ grows => isConnected.grow grows) fun _ grows => isConnected.grow grows

theorem OnlyAsks.adds {edit : Edit α} (asks : edit.OnlyAsks) : edit.Adds := fun _ => asks.keeps

theorem Adds.bind {edit : Edit α} {next : α → Edit β} (adds : edit.Adds)
    (goesOn : ∀ value, (next value).Adds) : (edit >>= next).Adds :=
  fun start => (adds start).bind fun value => goesOn value start

theorem adds_ask (query : Graph → Except Error α) : (ask query).Adds := (onlyAsks_ask query).adds

theorem adds_lift (result : Except Error α) : (lift result : Edit α).Adds := (onlyAsks_lift result).adds

theorem adds_pure (value : α) : (pure value : Edit α).Adds := (onlyAsks_pure value).adds

theorem adds_count (count : Graph → Int) :
    (modify fun graph => { graph with nextId := count graph } : Edit PUnit).Adds :=
  fun _ => keeps_modify fun _ grows =>
    { grows with }

theorem adds_advanceIds (nextId : Int) : (advanceIds nextId).Adds := adds_count _

theorem adds_allocate (requested : Option Int) : (allocate requested).Adds :=
  fun _ _ grows =>
    { grows with }

theorem adds_allocateGiven (requested : Data) : (allocateGiven requested).Adds := by
  unfold allocateGiven
  split
  · exact (adds_allocate none).bind fun _ => adds_pure _
  · exact (adds_advanceIds _).bind fun _ => adds_pure _
  · exact (onlyAsks_throw _).adds

theorem adds_allocateFor (requested : Data) : (allocateFor requested).Adds :=
  (adds_allocateGiven requested).bind fun _ => adds_lift _

theorem adds_putLanguage (shortName : Text) (language : Language) :
    (putLanguage shortName language).Adds :=
  fun _ => keeps_modify fun _ grows =>
    { grows with }

theorem adds_addLanguage (language : Language) : (addLanguage language).Adds :=
  onlyAsks_get.adds.bind fun _ => (onlyAsks_refuseIf _ _).adds.bind fun _ => adds_putLanguage _ _

theorem adds_setLanguage (shortName field : Text) (data : Data) :
    (setLanguage shortName field data).Adds :=
  (adds_ask _).bind fun _ => (adds_lift _).bind fun _ => adds_putLanguage _ _

theorem adds_addPhoneme (shortName : Text) (phoneme : Phoneme) : (addPhoneme shortName phoneme).Adds :=
  (adds_ask _).bind fun _ => adds_putLanguage _ _

theorem adds_deletePhoneme (shortName spelling : Text) : (deletePhoneme shortName spelling).Adds := by
  refine (adds_ask _).bind fun language => ?_
  dsimp only
  split
  · exact (onlyAsks_throw _).adds
  · exact adds_putLanguage _ _

theorem adds_putWord (id : Int) (word : Word) : (putWord id word).Adds :=
  fun _ => keeps_modify fun _ grows =>
    { grows with
      words := fun other isStored =>
        Graph.contains_insert_of_contains _ _ _ (grows.words other isStored) }

theorem adds_addWord (requested : Data) (language : Text) (describe : Word → Except Error Word) :
    (addWord requested language describe).Adds :=
  (adds_ask _).bind fun _ => onlyAsks_get.adds.bind fun _ =>
    (onlyAsks_refuseIf _ _).adds.bind fun _ => (adds_allocateFor _).bind fun _ =>
      (adds_lift _).bind fun _ => (adds_putWord _ _).bind fun _ => adds_pure _

theorem adds_updateWord (id : Int) (changes : Fields) : (updateWord id changes).Adds := by
  refine Adds.bind (fun _ => keeps_forM fun change _ => ?_) fun _ => adds_ask _
  exact (adds_ask _).bind (fun _ => (adds_lift _).bind fun _ => adds_putWord _ _) _

theorem adds_putRule (id : Int) (rule : Rule) : (putRule id rule).Adds :=
  fun _ => keeps_modify fun _ grows =>
    { grows with
      rules := fun other isStored =>
        Graph.contains_insert_of_contains _ _ _ (grows.rules other isStored) }

theorem adds_putRuleNames (change : Table Key GivenId → Table Key GivenId) :
    (putRuleNames change).Adds :=
  fun _ => keeps_modify fun _ grows =>
    { grows with }

theorem adds_reserveRule (name requested : Data) : (reserveRule name requested).Adds := by
  refine (onlyAsks_keyOf _ _).adds.bind fun key => onlyAsks_get.adds.bind fun graph => ?_
  split
  · exact (onlyAsks_refuseIf _ _).adds.bind fun _ => adds_pure _
  · exact (adds_allocateGiven _).bind fun _ => (adds_putRuleNames _).bind fun _ => adds_pure _

theorem adds_registerRules (names : List Text) : (registerRules names).Adds :=
  fun start => keeps_mapM fun _ =>
    (adds_reserveRule _ _).bind (fun _ => adds_pure _) start

theorem adds_addRule (requested : Data) (draft : RuleDraft) (describe : Rule → Except Error Rule) :
    (addRule requested draft describe).Adds := by
  refine (adds_ask _).bind fun _ => (adds_ask _).bind fun _ => onlyAsks_get.adds.bind fun graph => ?_
  refine (onlyAsks_keyOf _ _).adds.bind fun key => (onlyAsks_refuseIf _ _).adds.bind fun _ => ?_
  refine (adds_reserveRule _ _).bind fun id => Adds.bind (fun start => ?_) fun logic => ?_
  · refine (onlyAsks_logicOf draft).keeps.tryCatch fun error => ?_
    split
    · exact (adds_putRuleNames _).bind (fun _ => (onlyAsks_throw _).adds) start
    · exact (onlyAsks_throw _).adds start
  · exact (adds_lift _).bind fun _ => (adds_lift _).bind fun _ => (adds_lift _).bind fun _ =>
      (adds_lift _).bind fun _ => (adds_putRule _ _).bind fun _ => adds_pure _

theorem adds_replaceText (id : Int) (text : Text) : (replaceText id text).Adds :=
  (adds_ask _).bind fun _ => (adds_ask _).bind fun _ => adds_putRule _ _

theorem adds_setRule (id : Int) (field : Text) (data : Data) : (setRule id field data).Adds :=
  (adds_ask _).bind fun _ => (adds_lift _).bind fun _ => adds_putRule _ _

theorem adds_updateRule (id : Int) (text : Option Text) (changes : Fields) :
    (updateRule id text changes).Adds := by
  refine (adds_ask _).bind fun rule => (onlyAsks_refuseIf _ _).adds.bind fun _ => Adds.bind ?_ fun _ => ?_
  · cases text with
    | none => exact adds_pure _
    | some text => exact adds_replaceText id text
  · exact Adds.bind (fun start => keeps_forM fun change _ => adds_setRule id _ _ start) fun _ =>
      adds_ask _

theorem adds_putSequence (id : Int) (sequence : RuleSequence) : (putSequence id sequence).Adds :=
  fun _ => keeps_modify fun _ grows =>
    { grows with
      sequences := fun other isStored =>
        Graph.contains_insert_of_contains _ _ _ (grows.sequences other isStored) }

theorem adds_addSequence (requested name : Data) (fromLanguage toLanguage : Text)
    (steps : Written (List SequenceStep)) (describe : RuleSequence → Except Error RuleSequence) :
    (addSequence requested name fromLanguage toLanguage steps describe).Adds :=
  (adds_ask _).bind fun _ => (adds_ask _).bind fun _ => (onlyAsks_stepsOf _ _).adds.bind fun _ =>
    (adds_allocateFor _).bind fun _ => (adds_lift _).bind fun _ => (adds_lift _).bind fun _ =>
      (onlyAsks_checkSteps _).adds.bind fun _ => (adds_putSequence _ _).bind fun _ => adds_pure _

theorem adds_updateSteps (id : Int) (steps : Written (List SequenceStep)) :
    (updateSteps id steps).Adds :=
  (adds_ask _).bind fun _ => (onlyAsks_stepsOf _ _).adds.bind fun _ =>
    (onlyAsks_checkSteps _).adds.bind fun _ => (adds_putSequence _ _).bind fun _ => adds_pure _

theorem keepsConnected_deleteWord (id : Int) : (deleteWord id).Keeps IsConnected :=
  (onlyAsks_ask _).keeps.bind fun _ => keeps_modify fun _ isConnected => isConnected.withoutWord id

theorem keepsConnected_deleteRule (id : Int) : (deleteRule id).Keeps IsConnected :=
  onlyAsks_get.keeps.bind fun _ => (onlyAsks_ask _).keeps.bind fun rule =>
    (onlyAsks_refuse _).keeps.bind fun _ => keeps_modify fun _ isConnected =>
      isConnected.withoutRule id rule.name

theorem keepsConnected_storeParadigm (paradigm : Paradigm) :
    (storeParadigm paradigm).Keeps IsConnected := by
  intro graph isConnected
  unfold storeParadigm
  rw [ends_bind]
  refine (onlyAsks_checkCells paradigm).ends isConnected fun _ passed => ?_
  exact isConnected.putParadigm _ (checkCells_eq_ok.mp passed)

theorem keepsConnected_addParadigm (requested : Data) (language : Text) (written : Option Text)
    (describe : Paradigm → Except Error Paradigm) :
    (addParadigm requested language written describe).Keeps IsConnected :=
  (onlyAsks_ask _).keeps.bind fun _ => (onlyAsks_gridOf _).keeps.bind fun _ =>
    (adds_allocateFor _).keepsConnected.bind fun _ => (onlyAsks_lift _).keeps.bind fun _ =>
      keepsConnected_storeParadigm _

theorem keepsConnected_addTemplate (paradigm : Paradigm) : (addTemplate paradigm).Keeps IsConnected :=
  (onlyAsks_ask _).keeps.bind fun _ => (adds_allocate _).keepsConnected.bind fun _ =>
    keepsConnected_storeParadigm _

theorem keepsConnected_setCell (id row column : Int) (rules : List Int) :
    (setCell id row column rules).Keeps IsConnected := by
  refine keeps_ask fun paradigm graph isConnected isFound => ?_
  rw [ends_bind]
  have asks := onlyAsks_forM fun rule (_ : rule ∈ rules) => onlyAsks_checkRule rule
  refine asks.ends isConnected fun _ areFound => ?_
  rw [ends_bind, ends_lift]
  refine ⟨fun grid isGrid => isConnected.putParadigm id fun rule isMember => ?_,
    fun _ _ => isConnected⟩
  have areStored := (on_forM_eq_ok fun rule _ => onlyAsks_checkRule rule).mp areFound
  rcases mem_rules_setCell isGrid isMember with isOld | isNew
  · exact isConnected.cells paradigm (Table.mem_values_of_get? (Graph.found_eq_ok isFound)) rule isOld
  · exact exists_found_iff.mp (on_asked_eq_ok.mp (areStored rule isNew))

theorem keepsConnected_addLink (link : Link) (givenSource givenTarget : Data) :
    (addLink link givenSource givenTarget).Keeps IsConnected := by
  intro graph isConnected
  unfold addLink
  rw [ends_bind]
  refine ends_checkLink (fun _ => isConnected) fun belongs => ?_
  rw [ends_bind, ends_get, ends_bind, ends_refuseIf]
  exact ⟨fun _ => isConnected, fun _ => isConnected.putLink belongs⟩

theorem keepsConnected_updateLink (link : Link) : (updateLink link).Keeps IsConnected := by
  refine (onlyAsks_requireLink _).keeps.bind fun _ graph isConnected => ?_
  rw [ends_bind]
  exact ends_checkLink (fun _ => isConnected) fun belongs => isConnected.putLink belongs

theorem keepsConnected_deleteLink (key : LinkKey) : (deleteLink key).Keeps IsConnected :=
  (onlyAsks_requireLink _).keeps.bind fun _ => keeps_modify fun _ isConnected =>
    isConnected.eraseLink key

theorem keepsConnected_addCompound (requested : Data) (whole : Int) (components : List Int) :
    (addCompound requested whole components).Keeps IsConnected := by
  intro graph isConnected
  unfold addCompound
  rw [ends_bind]
  have asks := onlyAsks_forM fun id (_ : id ∈ whole :: components) => onlyAsks_checkWord id
  refine asks.ends isConnected fun _ areFound => ?_
  have areStored := (on_forM_eq_ok fun id _ => onlyAsks_checkWord id).mp areFound
  rw [ends_bind]
  refine (adds_allocateFor requested graph graph graph.growsTo_refl).mono
    (fun id after grows => ?_) fun _ grows => isConnected.grow grows
  refine (isConnected.grow grows).putCompound id fun word isWord => grows.words word ?_
  exact exists_found_iff.mp (on_asked_eq_ok.mp (areStored word isWord))

theorem adds_needField (record : Fields) (name : Text) : (needField record name).Adds := adds_lift _

theorem adds_enterWord (record : Fields) : (enterWord record).Adds :=
  (adds_needField _ _).bind fun _ => (adds_needField _ _).bind fun _ =>
    (adds_needField _ _).bind fun _ => (adds_ask _).bind fun _ => adds_addWord _ _ _

theorem adds_enterRule (record : Fields) (logic : Option Logic) : (enterRule record logic).Adds :=
  (adds_needField _ _).bind fun _ => (adds_needField _ _).bind fun _ =>
    (adds_needField _ _).bind fun _ => (adds_needField _ _).bind fun _ =>
      (adds_needField _ _).bind fun _ => (adds_ask _).bind fun _ => (adds_ask _).bind fun _ =>
        adds_addRule _ _ _

theorem adds_enterSequence (readSteps : Fields → Except Error (Written (List SequenceStep)))
    (record : Fields) : (enterSequence readSteps record).Adds :=
  (adds_needField _ _).bind fun _ => (adds_needField _ _).bind fun _ =>
    (adds_needField _ _).bind fun _ => (adds_lift _).bind fun _ =>
      (adds_needField _ _).bind fun _ => (adds_ask _).bind fun _ => (adds_ask _).bind fun _ =>
        adds_addSequence _ _ _ _ _ _

theorem keepsConnected_addGivenParadigm (requested : Data) (language : Text) (written : Option Text)
    (details : Fields) : (addGivenParadigm requested language written details).Keeps IsConnected := by
  unfold addGivenParadigm
  exact keepsConnected_addParadigm requested language written _

theorem keepsConnected_enterLink (record : Fields) : (enterLink record).Keeps IsConnected :=
  (onlyAsks_needField _ _).keeps.bind fun _ => (onlyAsks_needField _ _).keeps.bind fun _ =>
    (onlyAsks_needField _ _).keeps.bind fun _ => (onlyAsks_lift _).keeps.bind fun _ =>
      (onlyAsks_lift _).keeps.bind fun _ => keepsConnected_addLink _ _ _

theorem keepsConnected_enterCompound (record : Fields) : (enterCompound record).Keeps IsConnected := by
  unfold enterCompound
  refine (onlyAsks_needField _ _).keeps.bind fun whole => (onlyAsks_needField _ _).keeps.bind fun words => ?_
  refine (onlyAsks_needField _ _).keeps.bind fun id => ?_
  split
  · refine Keeps.bind (keeps_forM fun word _ => (onlyAsks_checkWordUnder word).keeps) fun _ => ?_
    refine (onlyAsks_lift _).keeps.bind fun whole => (onlyAsks_lift _).keeps.bind fun components => ?_
    exact keepsConnected_addCompound id whole components
  · exact (onlyAsks_throw _).keeps

end Edit

open Edit in
theorem Mutation.keepsConnected_run (mutation : Mutation) : mutation.run.Keeps Graph.IsConnected := by
  cases mutation with
  | addLanguage language isNamed => exact (adds_addLanguage language).keepsConnected
  | setLanguage language field data => exact (adds_setLanguage language field data).keepsConnected
  | addPhoneme language phoneme => exact (adds_addPhoneme language phoneme).keepsConnected
  | deletePhoneme language spelling => exact (adds_deletePhoneme language spelling).keepsConnected
  | addWord record => exact (adds_enterWord record).keepsConnected.passOver
  | updateWord id changes => exact (adds_updateWord id changes).keepsConnected.passOver
  | deleteWord id => exact keepsConnected_deleteWord id
  | reserveRule name requested => exact (adds_reserveRule name requested).keepsConnected.passOver
  | registerRules names => exact (adds_registerRules names).keepsConnected.passOver
  | addRule record logic => exact (adds_enterRule record logic).keepsConnected.passOver
  | updateRule id text changes => exact (adds_updateRule id text changes).keepsConnected.passOver
  | deleteRule id => exact keepsConnected_deleteRule id
  | addSequence steps record => exact (adds_enterSequence _ record).keepsConnected.passOver
  | updateSteps id steps => exact (adds_updateSteps id steps).keepsConnected.passOver
  | addParadigm requested language written details =>
      exact (keepsConnected_addGivenParadigm requested language written details).passOver
  | addTemplate paradigm => exact (keepsConnected_addTemplate paradigm).passOver
  | setCell id row column rules => exact (keepsConnected_setCell id row column rules).passOver
  | addLink record => exact (keepsConnected_enterLink record).passOver
  | updateLink link => exact (keepsConnected_updateLink link).passOver
  | deleteLink key => exact keepsConnected_deleteLink key
  | addCompound record => exact (keepsConnected_enterCompound record).passOver
  | advanceIds nextId => exact (adds_advanceIds nextId).keepsConnected

theorem Graph.isConnected_empty : IsConnected {} :=
  ⟨(fun _ isEntry => nomatch isEntry), (fun _ isMember => nomatch isMember),
    fun _ isMember => nomatch isMember⟩

/-- In every graph that a run of mutations comes to, each link is stored under its own key
between words that are stored, with rules and a sequence that are stored; the rules of each
cell are stored, and so are the words of each compound. -/
theorem Graph.IsReachable.isConnected {graph : Graph} (isReachable : graph.IsReachable) :
    (∀ key link, graph.links.get? key = some link → key = ⟨link.source, link.target, link.kind⟩ ∧
      graph.words.contains link.source = true ∧ graph.words.contains link.target = true ∧
      (∀ id ∈ link.rules, graph.rules.contains id = true) ∧
      ∀ id, link.sequence = some id → graph.sequences.contains id = true) ∧
    (∀ id paradigm, graph.paradigms.get? id = some paradigm →
      ∀ row ∈ paradigm.grid.cells, ∀ cell ∈ row, ∀ rule ∈ cell, graph.rules.contains rule = true) ∧
    ∀ id compound, graph.compounds.get? id = some compound →
      graph.words.contains compound.whole = true ∧
        ∀ word ∈ compound.components, graph.words.contains word = true := by
  have isConnected := isReachable.kept isConnected_empty fun mutation _ => mutation.keepsConnected_run
  refine ⟨fun key link isFound => ?_, fun id paradigm isFound row isRow cell isCell rule isRule => ?_,
    fun id compound isFound => ?_⟩
  · obtain ⟨isKey, belongs⟩ := isConnected.links _ (Table.mem_entries_of_get? isFound)
    exact ⟨isKey, belongs.source, belongs.target, belongs.rules, belongs.sequence⟩
  · refine isConnected.cells paradigm (Table.mem_values_of_get? isFound) rule ?_
    exact List.mem_flatten.mpr ⟨cell, List.mem_flatten.mpr ⟨row, isRow, isCell⟩, isRule⟩
  · exact List.forall_mem_cons.mp (isConnected.compounds compound (Table.mem_values_of_get? isFound))

/-- A run in which ids are asked for, a rule is stored in place of another one, a word goes by
another id than it is stored under, and a compound asks for a word that is not there. -/
def Graph.entangled : Graph := .ofRun [
  .addLanguage { name := "A", shortName := "a" } Mutation.isNamed_a,
  .addWord [("text", .text "x"), ("language", .text "a"), ("id", .integer 7)],
  .addWord [("text", .text "y"), ("language", .text "a"), ("id", .integer 7)],
  .addWord [("text", .text "y"), ("language", .text "a"), ("id", .integer 3)],
  .updateWord 3 [("id", .integer 9)],
  .addRule [("name", .text "r"), ("from_language", .text "a"), ("to_language", .null),
    ("text", .text "- no change"), ("id", .integer 5)] none,
  .addRule [("name", .text "s"), ("from_language", .text "a"), ("to_language", .null),
    ("text", .text "- no change"), ("id", .integer 5)] none,
  .addTemplate { id := 4, name := "p", language := "a", grid := { cells := [[[5]]] } },
  .addLink [("from_id", .integer 3), ("to_id", .integer 7), ("type", .text "derived"),
    ("rule_ids", .list [.integer 5])],
  .addCompound [("compound_id", .integer 7), ("component_ids", .list [.integer 3, .integer 3]),
    ("id", .integer 7)],
  .addCompound [("compound_id", .integer 9), ("component_ids", .list []), ("id", .null)]]

theorem Graph.isConnected_entangled :
    entangled.IsReachable ∧
      (entangled.links.get? ⟨3, 7, .derived⟩).map Link.rules = some [5] ∧
      ∀ key link, entangled.links.get? key = some link → entangled.words.contains link.source = true := by
  have isReachable : entangled.IsReachable := isReachedBy_ofRun fun _ _ => trivial
  refine ⟨isReachable, by decide +kernel, fun key link isFound => ?_⟩
  exact (isReachable.isConnected.1 key link isFound).2.1

end Diachrony
