import Diachrony.Proofs.Graph.Allotment

/-!
# Which ids are in use

All kinds of things share their ids, and so do the names that are reserved for rules.  Whatever
may be said of the ids that come into use can be said of those that are handed out, since
nothing is stored under another one: no edit stores a thing under an id of its own making.
-/
namespace Diachrony

/-- Which ids may be in use while some id is the next free one, and which of them names may stand
for.  They may be so later on. -/
structure IdPolicy where
  Admits : Int → Int → Prop
  AdmitsName : Int → Key → GivenId → Prop
  lasts : ∀ {before after id : Int}, before ≤ after → Admits before id → Admits after id
  nameLasts : ∀ {before after : Int} {key : Key} {given : GivenId}, before ≤ after →
    AdmitsName before key given → AdmitsName after key given
  named : ∀ {nextId : Int} {key : Key} {given : GivenId}, AdmitsName nextId key given →
    Admits nextId (given.next - 1)

namespace Graph

/-- An id is in use if something is stored under it or it is reserved for the name of a rule.  A
reserved id that is no whole number counts as the next one above it. -/
inductive Uses (graph : Graph) : Int → Prop
  | word {id : Int} : graph.words.contains id = true → Uses graph id
  | rule {id : Int} : graph.rules.contains id = true → Uses graph id
  | sequence {id : Int} : graph.sequences.contains id = true → Uses graph id
  | paradigm {id : Int} : graph.paradigms.contains id = true → Uses graph id
  | compound {id : Int} : graph.compounds.contains id = true → Uses graph id
  | name {key : Key} {given : GivenId} : graph.ruleNames.get? key = some given →
      Uses graph (given.next - 1)

/-- No id below some number is handed out unless it is asked for, and the ids in use are those
that a policy admits. -/
structure Obeys (policy : IdPolicy) (start : Int) (graph : Graph) : Prop where
  grown : start ≤ graph.nextId
  words : ∀ id, graph.words.contains id = true → policy.Admits graph.nextId id
  rules : ∀ id, graph.rules.contains id = true → policy.Admits graph.nextId id
  sequences : ∀ id, graph.sequences.contains id = true → policy.Admits graph.nextId id
  paradigms : ∀ id, graph.paradigms.contains id = true → policy.Admits graph.nextId id
  compounds : ∀ id, graph.compounds.contains id = true → policy.Admits graph.nextId id
  names : ∀ key given, graph.ruleNames.get? key = some given →
    policy.AdmitsName graph.nextId key given

variable {policy : IdPolicy} {start : Int} {graph : Graph}

theorem Obeys.admits (obeys : graph.Obeys policy start) {id : Int} (isUsed : graph.Uses id) :
    policy.Admits graph.nextId id := by
  cases isUsed with
  | word isStored => exact obeys.words id isStored
  | rule isStored => exact obeys.rules id isStored
  | sequence isStored => exact obeys.sequences id isStored
  | paradigm isStored => exact obeys.paradigms id isStored
  | compound isStored => exact obeys.compounds id isStored
  | name isNamed => exact policy.named (obeys.names _ _ isNamed)

theorem obeys_of_uses (grown : start ≤ graph.nextId)
    (areAdmitted : ∀ id, graph.Uses id → policy.Admits graph.nextId id)
    (names : ∀ key given, graph.ruleNames.get? key = some given →
      policy.AdmitsName graph.nextId key given) : graph.Obeys policy start where
  grown := grown
  words := fun id isStored => areAdmitted id (.word isStored)
  rules := fun id isStored => areAdmitted id (.rule isStored)
  sequences := fun id isStored => areAdmitted id (.sequence isStored)
  paradigms := fun id isStored => areAdmitted id (.paradigm isStored)
  compounds := fun id isStored => areAdmitted id (.compound isStored)
  names := names

theorem Obeys.count (obeys : graph.Obeys policy start) {nextId : Int}
    (grown : graph.nextId ≤ nextId) : Obeys policy start { graph with nextId } where
  grown := Int.le_trans obeys.grown grown
  words := fun id isStored => policy.lasts grown (obeys.words id isStored)
  rules := fun id isStored => policy.lasts grown (obeys.rules id isStored)
  sequences := fun id isStored => policy.lasts grown (obeys.sequences id isStored)
  paradigms := fun id isStored => policy.lasts grown (obeys.paradigms id isStored)
  compounds := fun id isStored => policy.lasts grown (obeys.compounds id isStored)
  names := fun key given isNamed => policy.nameLasts grown (obeys.names key given isNamed)

theorem admits_insert {α : Type} {table : Table Int α} {id : Int} {value : α} {May : Int → Prop}
    (areAdmitted : ∀ other, table.contains other = true → May other) (isAdmitted : May id) :
    ∀ other, (table.insert id value).contains other = true → May other := by
  intro other isStored
  rw [Table.contains_insert, Bool.or_eq_true, decide_eq_true_eq] at isStored
  rcases isStored with rfl | isStored
  · exact isAdmitted
  · exact areAdmitted other isStored

section

variable (obeys : graph.Obeys policy start) {id : Int} (isAdmitted : policy.Admits graph.nextId id)
include obeys isAdmitted

theorem Obeys.putWord (word : Word) :
    Obeys policy start { graph with words := graph.words.insert id word } :=
  { obeys with words := admits_insert obeys.words isAdmitted }

theorem Obeys.putRule (rule : Rule) :
    Obeys policy start { graph with rules := graph.rules.insert id rule } :=
  { obeys with rules := admits_insert obeys.rules isAdmitted }

theorem Obeys.putSequence (sequence : RuleSequence) :
    Obeys policy start { graph with sequences := graph.sequences.insert id sequence } :=
  { obeys with sequences := admits_insert obeys.sequences isAdmitted }

theorem Obeys.putParadigm (paradigm : Paradigm) :
    Obeys policy start { graph with paradigms := graph.paradigms.insert id paradigm } :=
  { obeys with paradigms := admits_insert obeys.paradigms isAdmitted }

theorem Obeys.putCompound (compound : Compound) :
    Obeys policy start { graph with compounds := graph.compounds.insert id compound } :=
  { obeys with compounds := admits_insert obeys.compounds isAdmitted }

end

section

variable (obeys : graph.Obeys policy start)
include obeys

theorem Obeys.putName {key : Key} {given : GivenId}
    (isAdmitted : policy.AdmitsName graph.nextId key given) :
    Obeys policy start { graph with ruleNames := graph.ruleNames.insert key given } := by
  refine { obeys with names := fun other found isNamed => ?_ }
  rw [Table.get?_insert] at isNamed
  split at isNamed
  · rename_i isKey
    cases isNamed
    exact isKey ▸ isAdmitted
  · exact obeys.names other found isNamed

theorem Obeys.eraseName (key : Key) :
    Obeys policy start { graph with ruleNames := graph.ruleNames.erase key } := by
  refine { obeys with names := fun other found isNamed => ?_ }
  rw [Table.get?_erase] at isNamed
  split at isNamed
  · cases isNamed
  · exact obeys.names other found isNamed

theorem Obeys.withoutWord (id : Int) : (Edit.withoutWord graph id).Obeys policy start := by
  refine { obeys with words := fun other isStored => ?_, compounds := fun other isStored => ?_ }
  · exact obeys.words other (Table.contains_of_contains_erase isStored)
  · change ((graph.compounds.filter _).mapValues _).contains other = true at isStored
    rw [Table.contains_mapValues] at isStored
    exact obeys.compounds other (Table.contains_of_contains_filter isStored)

theorem Obeys.withoutRule (id : Int) (name : Text) :
    (Edit.withoutRule graph id name).Obeys policy start := by
  refine { obeys.eraseName (.text name) with
    rules := fun other isStored => obeys.rules other (Table.contains_of_contains_erase isStored)
    sequences := fun other isStored => obeys.sequences other ?_
    paradigms := fun other isStored => obeys.paradigms other ?_ }
  · exact (Table.contains_mapValues _ _ _).symm.trans isStored
  · exact (Table.contains_mapValues _ _ _).symm.trans isStored

end

end Graph

/-- A policy grants a request if it admits the id that is then handed out, under any name. -/
def IdPolicy.Grants (policy : IdPolicy) (start : Int) (requested : Data) : Prop :=
  ∀ (graph : Graph) (given : GivenId), start ≤ graph.nextId → graph.Allots requested given →
    ∀ key, policy.AdmitsName (max graph.nextId given.next) key given

/-- Ids in use are below the next free one. -/
def IdPolicy.counted : IdPolicy where
  Admits nextId id := id < nextId
  AdmitsName nextId _ given := given.next - 1 < nextId
  lasts grown isBelow := Int.lt_of_lt_of_le isBelow grown
  nameLasts grown isBelow := Int.lt_of_lt_of_le isBelow grown
  named isBelow := isBelow

theorem IdPolicy.counted_grants (start : Int) (requested : Data) : counted.Grants start requested := by
  intro graph given _ _ _
  change given.next - 1 < max graph.nextId given.next
  omega

namespace Edit

open Diachrony.Graph (Obeys)

variable {α β : Type} {policy : IdPolicy} {start : Int}

/-- An edit that leaves a graph in which all ids are admitted as such a graph, whether it fails
or not. -/
abbrev Follows (policy : IdPolicy) (start : Int) (edit : Edit α) : Prop :=
  edit.Keeps (Obeys policy start)

theorem follows_ask (query : Graph → Except Error α) : (ask query).Follows policy start :=
  (onlyAsks_ask query).keeps

theorem follows_lift (result : Except Error α) : (lift result).Follows policy start :=
  (onlyAsks_lift result).keeps

theorem follows_pure (value : α) : (pure value : Edit α).Follows policy start :=
  (onlyAsks_pure value).keeps

theorem follows_advanceIds (nextId : Int) : (advanceIds nextId).Follows policy start :=
  keeps_modify fun _ obeys => obeys.count (Int.le_max_left _ _)

/-- What was looked up may be relied on where it goes on. -/
theorem keeps_bind_lift {Kept : Graph → Prop} {result : Except Error α} {next : α → Edit β}
    (goesOn : ∀ value, result = .ok value → (next value).Keeps Kept) :
    (lift result >>= next).Keeps Kept := by
  intro graph isKept
  rw [ends_bind, ends_lift]
  exact ⟨fun value isValue => goesOn value isValue graph isKept, fun _ _ => isKept⟩

/-- An id is admitted once it is handed out, and it stays so. -/
theorem follows_bind_allocateFor {requested : Data} {next : Int → Edit α}
    (grants : policy.Grants start requested)
    (goesOn : ∀ id, (next id).Keeps fun graph =>
      graph.Obeys policy start ∧ policy.Admits graph.nextId id) :
    (allocateFor requested >>= next).Follows policy start := by
  intro graph obeys
  rw [ends_bind]
  refine ends_allocateFor (fun id given allots isNumber => ?_) fun after counts => ?_
  · have isAdmitted := policy.named (grants graph given obeys.grown allots .absent)
    rw [GivenId.next_of_number? isNumber, Int.add_sub_cancel] at isAdmitted
    exact (goesOn id (handedOut graph id) ⟨obeys.count (Int.le_max_left _ _), isAdmitted⟩).mono
      (fun _ _ isKept => isKept.1) fun _ isKept => isKept.1
  · rw [counts.same]
    exact obeys.count counts.grown

theorem follows_putLanguage (shortName : Text) (language : Language) :
    (putLanguage shortName language).Follows policy start :=
  keeps_modify fun _ obeys => { obeys with }

theorem follows_addLanguage (language : Language) : (addLanguage language).Follows policy start :=
  onlyAsks_get.keeps.bind fun _ => (onlyAsks_refuseIf _ _).keeps.bind fun _ =>
    follows_putLanguage _ _

theorem follows_setLanguage (shortName field : Text) (data : Data) :
    (setLanguage shortName field data).Follows policy start :=
  (follows_ask _).bind fun _ => (follows_lift _).bind fun _ => follows_putLanguage _ _

theorem follows_addPhoneme (shortName : Text) (phoneme : Phoneme) :
    (addPhoneme shortName phoneme).Follows policy start :=
  (follows_ask _).bind fun _ => follows_putLanguage _ _

theorem follows_deletePhoneme (shortName spelling : Text) :
    (deletePhoneme shortName spelling).Follows policy start := by
  refine (follows_ask _).bind fun language => ?_
  dsimp only
  split
  · exact (onlyAsks_throw _).keeps
  · exact follows_putLanguage _ _

theorem follows_addWord {requested : Data} (grants : policy.Grants start requested) (language : Text)
    (describe : Word → Except Error Word) :
    (addWord requested language describe).Follows policy start := by
  refine (follows_ask _).bind fun _ => onlyAsks_get.keeps.bind fun graph => ?_
  refine (onlyAsks_refuseIf _ _).keeps.bind fun _ => follows_bind_allocateFor grants fun id => ?_
  refine (onlyAsks_lift _).keeps.bind fun word => Keeps.bind ?_ fun _ => (onlyAsks_pure _).keeps
  exact keeps_modify fun _ ⟨obeys, isAdmitted⟩ => ⟨obeys.putWord isAdmitted word, isAdmitted⟩

theorem follows_setWord (id : Int) (field : Text) (data : Data) :
    (setWord id field data).Follows policy start := by
  refine keeps_ask fun word graph obeys isFound => ?_
  have isAdmitted := obeys.words id (contains_of_found isFound)
  rw [ends_bind, ends_lift]
  exact ⟨fun changed _ => obeys.putWord isAdmitted changed, fun _ _ => obeys⟩

theorem follows_updateWord (id : Int) (changes : Fields) :
    (updateWord id changes).Follows policy start := by
  refine Keeps.bind (keeps_forM fun change _ => ?_) fun _ => follows_ask _
  exact follows_setWord id change.1 change.2

theorem follows_deleteWord (id : Int) : (deleteWord id).Follows policy start :=
  (follows_ask _).bind fun _ => keeps_modify fun _ obeys => obeys.withoutWord id

/-- The id that a name stands for is admitted, whether the name was there before or is new. -/
theorem ends_reserve_admitted {graph : Graph} {name requested : Data}
    (grants : policy.Grants start requested) (obeys : graph.Obeys policy start) :
    (reserveRule name requested).Ends graph
      (fun given after => after.Obeys policy start ∧ policy.Admits after.nextId (given.next - 1))
      (Obeys policy start) := by
  refine ends_reserve obeys (fun key given _ isNamed => ⟨obeys, policy.named (obeys.names key given isNamed)⟩)
    fun key given _ _ allots => ?_
  have isAdmitted := grants graph given obeys.grown allots key
  exact ⟨(obeys.count (Int.le_max_left _ _)).putName isAdmitted, policy.named isAdmitted⟩

theorem follows_reserveRule {requested : Data} (grants : policy.Grants start requested) (name : Data) :
    (reserveRule name requested).Follows policy start :=
  fun _ obeys => (ends_reserve_admitted grants obeys).mono (fun _ _ isKept => isKept.1) fun _ isKept =>
    isKept

theorem follows_registerRules (grants : policy.Grants start .null) (names : List Text) :
    (registerRules names).Follows policy start :=
  keeps_mapM fun name => (follows_reserveRule grants (.text name)).bind fun _ => follows_pure _

theorem follows_addRule {requested : Data} (grants : policy.Grants start requested) (draft : RuleDraft)
    (describe : Rule → Except Error Rule) :
    (addRule requested draft describe).Follows policy start := by
  refine (follows_ask _).bind fun _ => (follows_ask _).bind fun _ => onlyAsks_get.keeps.bind fun graph => ?_
  refine (onlyAsks_keyOf _ _).keeps.bind fun key => (onlyAsks_refuseIf _ _).keeps.bind fun _ => ?_
  intro graph obeys
  rw [ends_bind]
  refine (ends_reserve_admitted grants obeys).mono (fun given after isReserved => ?_) fun _ isKept =>
    isKept
  have keeps : ∀ logic : Logic, (do
      let id ← lift (Record.asInt "id" given.toData)
      let name ← lift (Record.asText "name" draft.name)
      let sourceText ← lift (Record.orNull (Record.asText "source_text") draft.sourceText)
      let rule ← lift (describe (draft.rule id name sourceText logic))
      putRule id rule
      return rule : Edit Rule).Keeps fun graph =>
        graph.Obeys policy start ∧ policy.Admits graph.nextId (given.next - 1) := by
    intro logic
    refine keeps_bind_lift fun id isId => (onlyAsks_lift _).keeps.bind fun name => ?_
    refine (onlyAsks_lift _).keeps.bind fun text => (onlyAsks_lift _).keeps.bind fun rule => ?_
    refine Keeps.bind (keeps_modify fun graph isKept => ?_) fun _ => (onlyAsks_pure _).keeps
    have isSame : id = given.next - 1 := by
      rw [GivenId.next_of_number? (GivenId.number?_of_asInt isId), Int.add_sub_cancel]
    exact ⟨isKept.1.putRule (isSame ▸ isKept.2) rule, isKept.2⟩
  rw [ends_bind]
  refine (onlyAsks_logicOf draft).ends_tryCatch (fun logic _ => ?_) fun error _ => ?_
  · exact (keeps logic after isReserved).mono (fun _ _ isKept => isKept.1) fun _ isKept => isKept.1
  · split
    · exact isReserved.1.eraseName key
    · exact isReserved.1

theorem follows_setRule (id : Int) (field : Text) (data : Data) :
    (setRule id field data).Follows policy start := by
  refine keeps_ask fun rule graph obeys isFound => ?_
  have isAdmitted := obeys.rules id (contains_of_found isFound)
  rw [ends_bind, ends_lift]
  exact ⟨fun changed _ => obeys.putRule isAdmitted changed, fun _ _ => obeys⟩

theorem follows_replaceText (id : Int) (text : Text) : (replaceText id text).Follows policy start := by
  refine keeps_ask fun rule graph obeys isFound => ?_
  have isAdmitted := obeys.rules id (contains_of_found isFound)
  rw [ends_bind, ends_ask]
  exact ⟨fun logic _ => obeys.putRule isAdmitted _, fun _ _ => obeys⟩

theorem follows_updateRule (id : Int) (text : Option Text) (changes : Fields) :
    (updateRule id text changes).Follows policy start := by
  refine (follows_ask _).bind fun rule => (onlyAsks_refuseIf _ _).keeps.bind fun _ => Keeps.bind ?_ fun _ => ?_
  · cases text with
    | none => exact follows_pure _
    | some text => exact follows_replaceText id text
  · refine Keeps.bind (keeps_forM fun change _ => ?_) fun _ => follows_ask _
    exact follows_setRule id change.1 change.2

theorem follows_deleteRule (id : Int) : (deleteRule id).Follows policy start :=
  onlyAsks_get.keeps.bind fun _ => (follows_ask _).bind fun rule =>
    (onlyAsks_refuse _).keeps.bind fun _ => keeps_modify fun _ obeys => obeys.withoutRule id rule.name

theorem follows_addSequence {requested : Data} (grants : policy.Grants start requested) (name : Data)
    (fromLanguage toLanguage : Text) (steps : Written (List SequenceStep))
    (describe : RuleSequence → Except Error RuleSequence) :
    (addSequence requested name fromLanguage toLanguage steps describe).Follows policy start := by
  refine (follows_ask _).bind fun _ => (follows_ask _).bind fun _ => (onlyAsks_stepsOf _ _).keeps.bind fun _ => ?_
  refine follows_bind_allocateFor grants fun id => (onlyAsks_lift _).keeps.bind fun _ => ?_
  refine (onlyAsks_lift _).keeps.bind fun sequence => (onlyAsks_checkSteps _).keeps.bind fun _ => ?_
  refine Keeps.bind ?_ fun _ => (onlyAsks_pure _).keeps
  exact keeps_modify fun _ ⟨obeys, isAdmitted⟩ => ⟨obeys.putSequence isAdmitted sequence, isAdmitted⟩

theorem follows_updateSteps (id : Int) (steps : Written (List SequenceStep)) :
    (updateSteps id steps).Follows policy start := by
  refine keeps_ask fun sequence graph obeys isFound => ?_
  have isAdmitted := obeys.sequences id (contains_of_found isFound)
  rw [ends_bind]
  refine (onlyAsks_stepsOf _ _).ends obeys fun steps _ => ?_
  dsimp only
  rw [ends_bind]
  exact (onlyAsks_checkSteps _).ends obeys fun _ _ => obeys.putSequence isAdmitted _

theorem keeps_storeParadigm {paradigm : Paradigm} {id : Int} (isId : paradigm.id = id) :
    (storeParadigm paradigm).Keeps fun graph =>
      graph.Obeys policy start ∧ policy.Admits graph.nextId id := by
  subst isId
  refine (onlyAsks_checkCells _).keeps.bind fun _ => Keeps.bind ?_ fun _ => (onlyAsks_pure _).keeps
  exact keeps_modify fun _ ⟨obeys, isAdmitted⟩ => ⟨obeys.putParadigm isAdmitted paradigm, isAdmitted⟩

theorem follows_addParadigm {requested : Data} (grants : policy.Grants start requested)
    {language : Text} {written : Option Text} {describe : Paradigm → Except Error Paradigm}
    (describes : ∀ paradigm after, describe paradigm = .ok after → after.id = paradigm.id) :
    (addParadigm requested language written describe).Follows policy start := by
  refine (follows_ask _).bind fun _ => (onlyAsks_gridOf _).keeps.bind fun grid => ?_
  refine follows_bind_allocateFor grants fun id => keeps_bind_lift fun paradigm isParadigm => ?_
  exact keeps_storeParadigm (describes _ paradigm isParadigm)

/-- A paradigm that was made elsewhere requests its id if that is above zero. -/
def templateRequest (paradigm : Paradigm) : Data :=
  if 0 < paradigm.id then .integer paradigm.id else .null

theorem allocate_template (paradigm : Paradigm) :
    allocate (if 0 < paradigm.id then some paradigm.id else none) =
      allocateFor (templateRequest paradigm) := by
  unfold templateRequest
  split <;> rfl

theorem follows_addTemplate {paradigm : Paradigm}
    (grants : policy.Grants start (templateRequest paradigm)) :
    (addTemplate paradigm).Follows policy start := by
  refine (follows_ask _).bind fun _ => ?_
  rw [allocate_template]
  exact follows_bind_allocateFor grants fun id => keeps_storeParadigm rfl

theorem follows_setCell (id row column : Int) (rules : List Int) :
    (setCell id row column rules).Follows policy start := by
  refine keeps_ask fun paradigm graph obeys isFound => ?_
  have isAdmitted := obeys.paradigms id (contains_of_found isFound)
  rw [ends_bind]
  refine (onlyAsks_forM fun rule _ => onlyAsks_checkRule rule).ends obeys fun _ _ => ?_
  rw [ends_bind, ends_lift]
  exact ⟨fun grid _ => obeys.putParadigm isAdmitted _, fun _ _ => obeys⟩

theorem follows_putLink (link : Link) : (putLink link).Follows policy start :=
  keeps_modify fun _ obeys => { obeys with }

theorem follows_addLink (link : Link) (givenSource givenTarget : Data) :
    (addLink link givenSource givenTarget).Follows policy start :=
  (onlyAsks_checkLink _).keeps.bind fun _ => onlyAsks_get.keeps.bind fun _ =>
    (onlyAsks_refuseIf _ _).keeps.bind fun _ => (follows_putLink link).bind fun _ => follows_pure _

theorem follows_updateLink (link : Link) : (updateLink link).Follows policy start :=
  (onlyAsks_requireLink _).keeps.bind fun _ => (onlyAsks_checkLink _).keeps.bind fun _ =>
    (follows_putLink link).bind fun _ => follows_pure _

theorem follows_deleteLink (key : LinkKey) : (deleteLink key).Follows policy start :=
  (onlyAsks_requireLink _).keeps.bind fun _ => keeps_modify fun _ obeys => { obeys with }

theorem follows_addCompound {requested : Data} (grants : policy.Grants start requested) (whole : Int)
    (components : List Int) : (addCompound requested whole components).Follows policy start := by
  refine Keeps.bind (onlyAsks_forM fun word _ => onlyAsks_checkWord word).keeps fun _ => ?_
  refine follows_bind_allocateFor grants fun id => Keeps.bind ?_ fun _ => (onlyAsks_pure _).keeps
  exact keeps_modify fun _ ⟨obeys, isAdmitted⟩ => ⟨obeys.putCompound isAdmitted _, isAdmitted⟩

theorem follows_needField (record : Fields) (name : Text) :
    (needField record name).Follows policy start := follows_lift _

def requestIn (record : Fields) : List Data := (Record.get? record "id").toList

section

variable {record : Fields}

theorem mem_requestIn_of_require {requested : Data}
    (isRequest : Record.require record "id" = .ok requested) : requested ∈ requestIn record := by
  unfold Record.require at isRequest
  unfold requestIn
  split at isRequest
  · rename_i found isFound
    cases isRequest
    rw [isFound]
    exact List.mem_singleton_self _
  · cases isRequest

theorem follows_bind_needId {next : Data → Edit α}
    (goesOn : ∀ requested ∈ requestIn record, (next requested).Follows policy start) :
    (needField record "id" >>= next).Follows policy start :=
  keeps_bind_lift fun requested isRequest => goesOn requested (mem_requestIn_of_require isRequest)

variable (grants : ∀ requested ∈ requestIn record, policy.Grants start requested)

include grants

theorem follows_enterWord : (enterWord record).Follows policy start := by
  refine (follows_needField _ _).bind fun _ => (follows_needField _ _).bind fun _ => ?_
  refine follows_bind_needId fun requested isRequest => (follows_ask _).bind fun _ => ?_
  exact follows_addWord (grants requested isRequest) _ _

theorem follows_enterRuleName : (enterRuleName record).Follows policy start := by
  refine (follows_needField _ _).bind fun name => follows_bind_needId fun requested isRequest => ?_
  exact (follows_reserveRule (grants requested isRequest) name).passOver

theorem follows_enterRule (logic : Option Logic) : (enterRule record logic).Follows policy start := by
  refine (follows_needField _ _).bind fun _ => (follows_needField _ _).bind fun _ => ?_
  refine (follows_needField _ _).bind fun _ => (follows_needField _ _).bind fun _ => ?_
  refine follows_bind_needId fun requested isRequest => (follows_ask _).bind fun _ => ?_
  exact (follows_ask _).bind fun _ => follows_addRule (grants requested isRequest) _ _

theorem follows_enterSequence (readSteps : Fields → Except Error (Written (List SequenceStep))) :
    (enterSequence readSteps record).Follows policy start := by
  refine (follows_needField _ _).bind fun _ => (follows_needField _ _).bind fun _ => ?_
  refine (follows_needField _ _).bind fun _ => (follows_lift _).bind fun _ => ?_
  refine follows_bind_needId fun requested isRequest => (follows_ask _).bind fun _ => ?_
  exact (follows_ask _).bind fun _ => follows_addSequence (grants requested isRequest) _ _ _ _ _

theorem follows_enterCompound : (enterCompound record).Follows policy start := by
  refine (follows_needField _ _).bind fun _ => (follows_needField _ _).bind fun _ => ?_
  refine follows_bind_needId fun requested isRequest => ?_
  split
  · refine Keeps.bind ?_ fun _ => ?_
    · exact (onlyAsks_forM fun word _ => onlyAsks_checkWordUnder word).keeps
    refine (follows_lift _).bind fun _ => (follows_lift _).bind fun _ => ?_
    exact follows_addCompound (grants requested isRequest) _ _
  · exact (onlyAsks_throw _).keeps

end

theorem follows_addGivenParadigm {requested : Data} (grants : policy.Grants start requested)
    (language : Text) (written : Option Text) (details : Fields) :
    (addGivenParadigm requested language written details).Follows policy start := by
  unfold addGivenParadigm
  exact follows_addParadigm grants fun paradigm after gave => (keeps_of_paradigmDetails gave).1

theorem follows_enterLink (record : Fields) : (enterLink record).Follows policy start := by
  refine (follows_needField _ _).bind fun _ => (follows_needField _ _).bind fun _ => ?_
  refine (follows_needField _ _).bind fun _ => (follows_lift _).bind fun _ => ?_
  exact (follows_lift _).bind fun _ => follows_addLink _ _ _

end Edit

namespace Mutation

open Edit

def requests : Mutation → List Data
  | addWord record | addRule record _ | addSequence _ record | addCompound record => requestIn record
  | reserveRule _ requested | addParadigm requested .. => [requested]
  | registerRules _ => [.null]
  | addTemplate paradigm => [templateRequest paradigm]
  | _ => []

/-- A mutation brings no id into use that a policy does not admit, if its requests are granted. -/
theorem follows_run {policy : IdPolicy} {start : Int} {mutation : Mutation}
    (grants : ∀ requested ∈ mutation.requests, policy.Grants start requested) :
    mutation.run.Follows policy start := by
  cases mutation with
  | addLanguage language isNamed => exact follows_addLanguage language
  | setLanguage language field data => exact follows_setLanguage language field data
  | addPhoneme language phoneme => exact follows_addPhoneme language phoneme
  | deletePhoneme language spelling => exact follows_deletePhoneme language spelling
  | addWord record => exact (follows_enterWord grants).passOver
  | updateWord id changes => exact (follows_updateWord id changes).passOver
  | deleteWord id => exact follows_deleteWord id
  | reserveRule name requested =>
      exact (follows_reserveRule (grants requested (List.mem_singleton_self _)) name).passOver
  | registerRules names =>
      exact (follows_registerRules (grants .null (List.mem_singleton_self _)) names).passOver
  | addRule record logic => exact (follows_enterRule grants logic).passOver
  | updateRule id text changes => exact (follows_updateRule id text changes).passOver
  | deleteRule id => exact follows_deleteRule id
  | addSequence steps record => exact (follows_enterSequence grants _).passOver
  | updateSteps id steps => exact (follows_updateSteps id steps).passOver
  | addParadigm requested language written details =>
      have isGranted := grants requested (List.mem_singleton_self _)
      exact (follows_addGivenParadigm isGranted language written details).passOver
  | addTemplate paradigm =>
      exact (follows_addTemplate (grants _ (List.mem_singleton_self _))).passOver
  | setCell id row column rules => exact (follows_setCell id row column rules).passOver
  | addLink record => exact (follows_enterLink record).passOver
  | updateLink link => exact (follows_updateLink link).passOver
  | deleteLink key => exact follows_deleteLink key
  | addCompound record => exact (follows_enterCompound grants).passOver
  | advanceIds nextId => exact follows_advanceIds nextId

end Mutation

end Diachrony
