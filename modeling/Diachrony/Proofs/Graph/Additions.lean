import Diachrony.Proofs.Archive.Histories

/-!
# What additions leave as it is

An addition that succeeds stores one thing in one place, and all else stays where it is, with
its names.  A language, a word and a link are refused where there is one already, a rule that was
awaited comes where it was awaited, and an id that is handed out without being asked for is free.
Whatever else asks for an id gets it, and takes the place of what is stored there.
-/
namespace Diachrony

/-- Where a thing is stored in a graph. -/
inductive Place where
  | language (shortName : Text)
  | word (id : Int)
  | rule (id : Int)
  | sequence (id : Int)
  | paradigm (id : Int)
  | link (key : LinkKey)
  | compound (id : Int)

/-- The id under which a thing is stored, if it is stored under one. -/
def Place.id? : Place → Option Int
  | language _ | link _ => none
  | word id | rule id | sequence id | paradigm id | compound id => some id

def Place.Thing : Place → Type
  | language _ => Language
  | word _ => Word
  | rule _ => Rule
  | sequence _ => RuleSequence
  | paradigm _ => Paradigm
  | link _ => Link
  | compound _ => Compound

namespace Graph

def at? (graph : Graph) : (place : Place) → Option place.Thing
  | .language shortName => graph.languages.get? shortName
  | .word id => graph.words.get? id
  | .rule id => graph.rules.get? id
  | .sequence id => graph.sequences.get? id
  | .paradigm id => graph.paradigms.get? id
  | .link key => graph.links.get? key
  | .compound id => graph.compounds.get? id

def put (graph : Graph) : (place : Place) → place.Thing → Graph
  | .language shortName, language =>
      { graph with languages := graph.languages.insert shortName language }
  | .word id, word => { graph with words := graph.words.insert id word }
  | .rule id, rule => { graph with rules := graph.rules.insert id rule }
  | .sequence id, sequence => { graph with sequences := graph.sequences.insert id sequence }
  | .paradigm id, paradigm => { graph with paradigms := graph.paradigms.insert id paradigm }
  | .link key, link => { graph with links := graph.links.insert key link }
  | .compound id, compound => { graph with compounds := graph.compounds.insert id compound }

variable {graph after : Graph} {MayBe : Place → Prop}

theorem at?_put_self (place : Place) (thing : place.Thing) :
    (graph.put place thing).at? place = some thing := by
  cases place <;> exact (Table.get?_insert _ _ _ _).trans (if_pos rfl)

theorem at?_put_of_ne {place other : Place} (isOther : other ≠ place) (thing : place.Thing) :
    (graph.put place thing).at? other = graph.at? other := by
  cases place <;> cases other <;> first
    | rfl
    | exact (Table.get?_insert _ _ _ _).trans (if_neg fun same => isOther (congrArg _ same))

/-- Counting and naming move nothing. -/
theorem at?_reserved (nextId : Int) (ruleNames : Table Key GivenId) (place : Place) :
    ({ graph with nextId, ruleNames } : Graph).at? place = graph.at? place := by
  cases place <;> rfl

theorem ruleNames_put (place : Place) (thing : place.Thing) :
    (graph.put place thing).ruleNames = graph.ruleNames := by
  cases place <;> rfl

/-- One thing has been stored in some place where it may be.  All else is where it was, and names
stand for what they stood for. -/
def Gains (MayBe : Place → Prop) (graph after : Graph) : Prop :=
  ∃ place : Place, MayBe place ∧ (after.at? place).isSome = true ∧
    (∀ other, other ≠ place → after.at? other = graph.at? other) ∧
    ∀ key given, graph.ruleNames.get? key = some given → after.ruleNames.get? key = some given

theorem gains_put {nextId : Int} {ruleNames : Table Key GivenId} (place : Place)
    (thing : place.Thing)
    (names : ∀ key given, graph.ruleNames.get? key = some given → ruleNames.get? key = some given)
    (mayBe : MayBe place) :
    graph.Gains MayBe (({ graph with nextId, ruleNames } : Graph).put place thing) := by
  refine ⟨place, mayBe, ?_, fun other isOther => ?_, fun key given isNamed => ?_⟩
  · rw [at?_put_self]
    rfl
  · rw [at?_put_of_ne isOther, at?_reserved]
  · rw [ruleNames_put]
    exact names key given isNamed

theorem uses_of_at? {place : Place} {id : Int} (isStored : (graph.at? place).isSome = true)
    (isId : place.id? = some id) : graph.Uses id := by
  cases place with
  | language | link => cases isId
  | word => exact Option.some.inj isId ▸ .word isStored
  | rule => exact Option.some.inj isId ▸ .rule isStored
  | sequence => exact Option.some.inj isId ▸ .sequence isStored
  | paradigm => exact Option.some.inj isId ▸ .paradigm isStored
  | compound => exact Option.some.inj isId ▸ .compound isStored

def HandsOut (graph : Graph) (requested : Data) (id : Int) : Prop :=
  ∃ given, graph.Allots requested given ∧ given.number? = some id

theorem HandsOut.eq_nextId_or_requested {requested : Data} {id : Int}
    (isHandedOut : graph.HandsOut requested id) : id = graph.nextId ∨ requested.number? = some id := by
  obtain ⟨given, allots, isNumber⟩ := isHandedOut
  by_cases noRequest : requested = .null
  · subst noRequest
    cases allots
    cases isNumber
    exact .inl rfl
  · exact .inr ((allots.number? noRequest).trans isNumber)

/-- An id that is in use is handed out only where it is requested. -/
theorem HandsOut.requested_of_uses {start id : Int} {requested : Data}
    (isHandedOut : graph.HandsOut requested id) (counted : graph.Obeys .counted start)
    (isUsed : graph.Uses id) : requested.number? = some id :=
  isHandedOut.eq_nextId_or_requested.resolve_left (Int.ne_of_lt (counted.admits isUsed))

/-- An id that was reserved for the name of a rule. -/
def Awaits (graph : Graph) (id : Int) : Prop :=
  ∃ key given, graph.ruleNames.get? key = some given ∧ given.number? = some id

def IsNewName (graph : Graph) (record : Fields) : Prop :=
  ∃ name key, Record.require record "name" = .ok name ∧ name.key? = some key ∧
    graph.ruleNames.contains key = false

end Graph

namespace Edit

open Diachrony.Graph (Gains gains_put)

variable {α β : Type} {graph : Graph} {MayBe : Place → Prop} {requested : Data}

/-- What holds of the value that an edit gives, and of the graph then, if it gives one. -/
abbrev Yields (edit : Edit α) (graph : Graph) (Given : α → Graph → Prop) : Prop :=
  edit.Ends graph Given fun _ => True

section

variable {Given : β → Graph → Prop}

theorem OnlyAsks.yields_bind {edit : Edit α} {next : α → Edit β} (asks : edit.OnlyAsks)
    (goesOn : ∀ value, edit.on graph = (.ok value, graph) → (next value).Yields graph Given) :
    (edit >>= next).Yields graph Given := by
  unfold Yields
  rw [ends_bind]
  exact asks.ends trivial goesOn

theorem Yields.passOver {edit : Edit α} {Kept : Graph → Prop}
    (yields : edit.Yields graph fun _ => Kept) :
    (do let _ ← edit : Edit Unit).Yields graph fun _ => Kept := by
  unfold Yields
  rw [ends_bind]
  exact yields

theorem yields_bind_ask {query : Graph → Except Error α} {next : α → Edit β}
    (goesOn : ∀ value, (next value).Yields graph Given) : (ask query >>= next).Yields graph Given :=
  (onlyAsks_ask query).yields_bind fun value _ => goesOn value

theorem yields_bind_lift {result : Except Error α} {next : α → Edit β}
    (goesOn : ∀ value, result = .ok value → (next value).Yields graph Given) :
    (lift result >>= next).Yields graph Given :=
  (onlyAsks_lift result).yields_bind fun value gave => goesOn value (congrArg Prod.fst gave)

theorem yields_bind_needId {record : Fields} {next : Data → Edit β}
    (goesOn : ∀ requested ∈ requestIn record, (next requested).Yields graph Given) :
    (needField record "id" >>= next).Yields graph Given :=
  yields_bind_lift fun requested isRequest => goesOn requested (mem_requestIn_of_require isRequest)

theorem yields_bind_allocateFor {next : Int → Edit β}
    (goesOn : ∀ id, graph.HandsOut requested id → (next id).Yields (handedOut graph id) Given) :
    (allocateFor requested >>= next).Yields graph Given := by
  unfold Yields
  rw [ends_bind]
  exact ends_allocateFor (fun id given allots isNumber => goesOn id ⟨given, allots, isNumber⟩)
    fun _ _ => trivial

end

theorem yields_addLanguage {language : Language}
    (mayBe : graph.languages.contains language.shortName = false →
      MayBe (.language language.shortName)) :
    (addLanguage language).Yields graph fun _ => graph.Gains MayBe := by
  refine onlyAsks_get.yields_bind fun _ isGraph => ?_
  cases isGraph
  refine (onlyAsks_refuseIf _ _).yields_bind fun _ isPassed => ?_
  exact gains_put (.language language.shortName) language (fun _ _ isNamed => isNamed)
    (mayBe (on_refuseIf_eq_ok.mp isPassed))

theorem yields_addWord (language : Text) (describe : Word → Except Error Word)
    (mayBe : ∀ id, graph.HandsOut requested id →
      requested.number?.any graph.words.contains = false → MayBe (.word id)) :
    (addWord requested language describe).Yields graph fun _ => graph.Gains MayBe := by
  refine yields_bind_ask fun _ => onlyAsks_get.yields_bind fun _ isGraph => ?_
  cases isGraph
  refine (onlyAsks_refuseIf _ _).yields_bind fun _ isPassed => ?_
  refine yields_bind_allocateFor fun id isHandedOut => yields_bind_lift fun word _ => ?_
  exact gains_put (.word id) word (fun _ _ isNamed => isNamed)
    (mayBe id isHandedOut (on_refuseIf_eq_ok.mp isPassed))

/-- A name that has no rule stands for an id under which there is no rule, or else it is new and
gets an id that is handed out. -/
theorem yields_bind_reserve {name : Data} {key : Key} (isKey : name.key? = some key)
    (noRule : graph.namedRule? key = none) {next : GivenId → Edit β} {Given : β → Graph → Prop}
    (goesOn : ∀ given nextId ruleNames,
      (∀ key given, graph.ruleNames.get? key = some given → ruleNames.get? key = some given) →
      (∀ id, given.number? = some id →
        graph.Awaits id ∧ graph.rules.get? id = none ∨
          graph.ruleNames.contains key = false ∧ graph.HandsOut requested id) →
      (next given).Yields { graph with nextId, ruleNames } Given) :
    (reserveRule name requested >>= next).Yields graph Given := by
  unfold Yields
  rw [ends_bind]
  refine ends_reserve trivial (fun known given isKnown isNamed => ?_) fun new given isNew notNamed allots => ?_
  · refine goesOn given graph.nextId graph.ruleNames (fun _ _ isNamed => isNamed) fun id isNumber => .inl ?_
    cases isKey.symm.trans isKnown
    refine ⟨⟨key, given, isNamed, isNumber⟩, ?_⟩
    unfold Graph.namedRule? at noRule
    rw [isNamed] at noRule
    change (given.number?.bind fun id => graph.rules.get? id) = none at noRule
    rwa [isNumber] at noRule
  · cases isKey.symm.trans isNew
    refine goesOn given _ _ (fun other found isNamed => ?_) fun id isNumber => .inr ⟨?_, given, allots, isNumber⟩
    · rw [Table.get?_insert, if_neg, isNamed]
      rintro rfl
      cases notNamed.symm.trans isNamed
    · rw [Table.contains, notNamed]
      rfl

theorem yields_addRule (draft : RuleDraft) (describe : Rule → Except Error Rule)
    (awaited : ∀ id, graph.Awaits id → graph.rules.get? id = none → MayBe (.rule id))
    (new : ∀ id key, draft.name.key? = some key → graph.ruleNames.contains key = false →
      graph.HandsOut requested id → MayBe (.rule id)) :
    (addRule requested draft describe).Yields graph fun _ => graph.Gains MayBe := by
  refine yields_bind_ask fun _ => yields_bind_ask fun _ => onlyAsks_get.yields_bind fun _ isGraph => ?_
  cases isGraph
  refine (onlyAsks_keyOf _ _).yields_bind fun key isKey => ?_
  refine (onlyAsks_refuseIf _ _).yields_bind fun _ isPassed => ?_
  have isKey := key?_of_keyOf isKey
  have noRule : graph.namedRule? key = none := by simpa using on_refuseIf_eq_ok.mp isPassed
  refine yields_bind_reserve isKey noRule fun given nextId ruleNames names isGiven => ?_
  unfold Yields
  rw [ends_bind]
  refine (onlyAsks_logicOf draft).ends_tryCatch (fun logic _ => ?_) fun error _ => ?_
  · refine yields_bind_lift fun id isId => yields_bind_lift fun _ _ => yields_bind_lift fun _ _ => ?_
    refine yields_bind_lift fun rule _ => gains_put (.rule id) rule names ?_
    rcases isGiven id (GivenId.number?_of_asInt isId) with ⟨isAwaited, isFree⟩ | ⟨isNew, isHandedOut⟩
    · exact awaited id isAwaited isFree
    · exact new id key isKey isNew isHandedOut
  · split <;> trivial

theorem yields_addSequence (name : Data) (fromLanguage toLanguage : Text)
    (steps : Written (List SequenceStep)) (describe : RuleSequence → Except Error RuleSequence)
    (mayBe : ∀ id, graph.HandsOut requested id → MayBe (.sequence id)) :
    (addSequence requested name fromLanguage toLanguage steps describe).Yields graph
      fun _ => graph.Gains MayBe := by
  refine yields_bind_ask fun _ => yields_bind_ask fun _ => (onlyAsks_stepsOf _ _).yields_bind fun _ _ => ?_
  refine yields_bind_allocateFor fun id isHandedOut => yields_bind_lift fun _ _ => ?_
  refine yields_bind_lift fun sequence _ => (onlyAsks_checkSteps _).yields_bind fun _ _ => ?_
  exact gains_put (.sequence id) sequence (fun _ _ isNamed => isNamed) (mayBe id isHandedOut)

/-- A paradigm is stored under its own id. -/
theorem yields_storeParadigm {paradigm : Paradigm} {nextId : Int}
    (mayBe : MayBe (.paradigm paradigm.id)) :
    (storeParadigm paradigm).Yields { graph with nextId } fun _ => graph.Gains MayBe := by
  refine (onlyAsks_checkCells _).yields_bind fun _ _ => ?_
  exact gains_put (.paradigm paradigm.id) paradigm (fun _ _ isNamed => isNamed) mayBe

theorem yields_addGivenParadigm (language : Text) (written : Option Text) (details : Fields)
    (mayBe : ∀ id, graph.HandsOut requested id → MayBe (.paradigm id)) :
    (addGivenParadigm requested language written details).Yields graph
      fun _ => graph.Gains MayBe := by
  unfold addGivenParadigm
  refine yields_bind_ask fun _ => (onlyAsks_gridOf _).yields_bind fun _ _ => ?_
  refine yields_bind_allocateFor fun id isHandedOut => yields_bind_lift fun paradigm gave => ?_
  have isId : paradigm.id = id := (keeps_of_paradigmDetails gave).1
  exact yields_storeParadigm (isId ▸ mayBe id isHandedOut)

theorem yields_addTemplate {paradigm : Paradigm}
    (mayBe : ∀ id, graph.HandsOut (templateRequest paradigm) id → MayBe (.paradigm id)) :
    (addTemplate paradigm).Yields graph fun _ => graph.Gains MayBe := by
  refine yields_bind_ask fun _ => ?_
  rw [allocate_template]
  exact yields_bind_allocateFor fun id isHandedOut => yields_storeParadigm (mayBe id isHandedOut)

theorem yields_addLink {link : Link} (givenSource givenTarget : Data)
    (mayBe : graph.links.contains link.key = false → MayBe (.link link.key)) :
    (addLink link givenSource givenTarget).Yields graph fun _ => graph.Gains MayBe := by
  refine (onlyAsks_checkLink _).yields_bind fun _ _ => onlyAsks_get.yields_bind fun _ isGraph => ?_
  cases isGraph
  refine (onlyAsks_refuseIf _ _).yields_bind fun _ isPassed => ?_
  exact gains_put (.link link.key) link (fun _ _ isNamed => isNamed)
    (mayBe (on_refuseIf_eq_ok.mp isPassed))

theorem yields_addCompound (whole : Int) (components : List Int)
    (mayBe : ∀ id, graph.HandsOut requested id → MayBe (.compound id)) :
    (addCompound requested whole components).Yields graph fun _ => graph.Gains MayBe := by
  refine OnlyAsks.yields_bind (onlyAsks_forM fun word _ => onlyAsks_checkWord word) fun _ _ => ?_
  refine yields_bind_allocateFor fun id isHandedOut => ?_
  exact gains_put (.compound id) ⟨id, whole, components⟩ (fun _ _ isNamed => isNamed)
    (mayBe id isHandedOut)

section

variable {record : Fields}

theorem yields_enterWord
    (mayBe : ∀ requested ∈ requestIn record, ∀ id, graph.HandsOut requested id →
      requested.number?.any graph.words.contains = false → MayBe (.word id)) :
    (enterWord record).Yields graph fun _ => graph.Gains MayBe := by
  refine yields_bind_lift fun _ _ => yields_bind_lift fun _ _ => ?_
  refine yields_bind_needId fun requested isRequest => yields_bind_ask fun _ => ?_
  exact yields_addWord _ _ (mayBe requested isRequest)

theorem yields_enterRule (logic : Option Logic)
    (awaited : ∀ id, graph.Awaits id → graph.rules.get? id = none → MayBe (.rule id))
    (new : graph.IsNewName record → ∀ requested ∈ requestIn record, ∀ id,
      graph.HandsOut requested id → MayBe (.rule id)) :
    (enterRule record logic).Yields graph fun _ => graph.Gains MayBe := by
  refine yields_bind_lift fun name isName => yields_bind_lift fun _ _ => yields_bind_lift fun _ _ => ?_
  refine yields_bind_lift fun _ _ => yields_bind_needId fun requested isRequest => ?_
  refine yields_bind_ask fun _ => yields_bind_ask fun _ => ?_
  exact yields_addRule _ _ awaited fun id key isKey isNew =>
    new ⟨name, key, isName, isKey, isNew⟩ requested isRequest id

theorem yields_enterSequence (readSteps : Fields → Except Error (Written (List SequenceStep)))
    (mayBe : ∀ requested ∈ requestIn record, ∀ id, graph.HandsOut requested id →
      MayBe (.sequence id)) :
    (enterSequence readSteps record).Yields graph fun _ => graph.Gains MayBe := by
  refine yields_bind_lift fun _ _ => yields_bind_lift fun _ _ => yields_bind_lift fun _ _ => ?_
  refine yields_bind_lift fun _ _ => yields_bind_needId fun requested isRequest => ?_
  refine yields_bind_ask fun _ => yields_bind_ask fun _ => ?_
  exact yields_addSequence _ _ _ _ _ (mayBe requested isRequest)

theorem yields_enterLink
    (mayBe : ∀ key, graph.links.contains key = false → MayBe (.link key)) :
    (enterLink record).Yields graph fun _ => graph.Gains MayBe := by
  refine yields_bind_lift fun _ _ => yields_bind_lift fun _ _ => yields_bind_lift fun _ _ => ?_
  exact yields_bind_lift fun _ _ => yields_bind_lift fun _ _ => yields_addLink _ _ (mayBe _)

theorem yields_enterCompound
    (mayBe : ∀ requested ∈ requestIn record, ∀ id, graph.HandsOut requested id →
      MayBe (.compound id)) :
    (enterCompound record).Yields graph fun _ => graph.Gains MayBe := by
  refine yields_bind_lift fun _ _ => yields_bind_lift fun _ _ => ?_
  refine yields_bind_needId fun requested isRequest => ?_
  split
  · refine OnlyAsks.yields_bind (onlyAsks_forM fun word _ => onlyAsks_checkWordUnder word) fun _ _ => ?_
    refine yields_bind_lift fun _ _ => yields_bind_lift fun _ _ => ?_
    exact yields_addCompound _ _ (mayBe requested isRequest)
  · trivial

end

end Edit

namespace Mutation

open Edit

variable {graph : Graph} {mutation : Mutation}

def IsAddition : Mutation → Prop
  | addLanguage .. | addWord .. | addRule .. | addSequence .. | addParadigm .. | addTemplate ..
  | addLink .. | addCompound .. => True
  | _ => False

def Asks (mutation : Mutation) (id : Int) : Prop :=
  ∃ requested ∈ mutation.requests, requested.number? = some id

/-- An addition that stores a thing under an id that is requested for it, whatever is stored
there.  A rule is such a thing if its name is not reserved. -/
def Overrides (graph : Graph) (mutation : Mutation) (id : Int) : Prop :=
  mutation.Asks id ∧ match mutation with
    | addRule record _ => graph.IsNewName record
    | addSequence .. | addParadigm .. | addTemplate .. | addCompound .. => True
    | _ => False

/-- A place where a mutation may store a thing.  If something is there, the mutation overrides
it.  If the place has an id, that is the next free one, or one that was requested before or is
requested now. -/
structure MayPutAt (graph : Graph) (mutation : Mutation) (place : Place) : Prop where
  free : (graph.at? place).isSome = true → ∃ id, place.id? = some id ∧ mutation.Overrides graph id
  given : ∀ id, place.id? = some id → id = graph.nextId ∨ mutation.Asks id ∨ graph.Awaits id

theorem mayPutAt_of_free {place : Place} (noId : place.id? = none)
    (isFree : (graph.at? place).isSome = false) : mutation.MayPutAt graph place where
  free := fun isStored => nomatch isFree.symm.trans isStored
  given := fun _ isId => nomatch noId.symm.trans isId

section

variable {start : Int} (counted : graph.Obeys .counted start)

include counted

theorem mayPutAt_of_handsOut {id : Int} {place : Place} {requested : Data} (isId : place.id? = some id)
    (isRequest : requested ∈ mutation.requests) (isHandedOut : graph.HandsOut requested id)
    (overrides : (graph.at? place).isSome = true → requested.number? = some id →
      mutation.Overrides graph id) : mutation.MayPutAt graph place where
  free := fun isStored =>
    ⟨id, isId, overrides isStored (isHandedOut.requested_of_uses counted (Graph.uses_of_at? isStored isId))⟩
  given := by
    intro other isOther
    cases isId.symm.trans isOther
    exact isHandedOut.eq_nextId_or_requested.imp_right fun isRequested =>
      .inl ⟨requested, isRequest, isRequested⟩

/-- An addition stores one thing, in a place where it may be. -/
theorem yields_run (isAddition : mutation.IsAddition) :
    mutation.run.Yields graph fun _ => graph.Gains (mutation.MayPutAt graph) := by
  cases mutation with
  | addLanguage language isNamed =>
      exact yields_addLanguage fun isFree => mayPutAt_of_free rfl isFree
  | addWord record =>
      refine Yields.passOver (yields_enterWord fun requested isRequest id isHandedOut isFree => ?_)
      refine mayPutAt_of_handsOut counted rfl isRequest isHandedOut fun isStored isRequested => ?_
      rw [isRequested] at isFree
      cases isFree.symm.trans isStored
  | addRule record logic =>
      refine Yields.passOver (yields_enterRule logic (fun id isAwaited isFree => ?_)
        fun isNew requested isRequest id isHandedOut => ?_)
      · refine ⟨fun isStored => ?_, fun other isOther => .inr (.inr ?_)⟩
        · cases (congrArg Option.isSome isFree).symm.trans isStored
        · cases isOther
          exact isAwaited
      · exact mayPutAt_of_handsOut counted rfl isRequest isHandedOut fun _ isRequested =>
          ⟨⟨requested, isRequest, isRequested⟩, isNew⟩
  | addSequence steps record =>
      refine Yields.passOver (yields_enterSequence _ fun requested isRequest id isHandedOut => ?_)
      exact mayPutAt_of_handsOut counted rfl isRequest isHandedOut fun _ isRequested =>
        ⟨⟨requested, isRequest, isRequested⟩, trivial⟩
  | addParadigm requested language written details =>
      refine Yields.passOver (yields_addGivenParadigm _ _ _ fun id isHandedOut => ?_)
      have isRequest := List.mem_singleton_self requested
      exact mayPutAt_of_handsOut counted rfl isRequest isHandedOut fun _ isRequested =>
        ⟨⟨requested, isRequest, isRequested⟩, trivial⟩
  | addTemplate paradigm =>
      refine Yields.passOver (yields_addTemplate fun id isHandedOut => ?_)
      have isRequest := List.mem_singleton_self (templateRequest paradigm)
      exact mayPutAt_of_handsOut counted rfl isRequest isHandedOut fun _ isRequested =>
        ⟨⟨_, isRequest, isRequested⟩, trivial⟩
  | addLink record =>
      exact (yields_enterLink fun key isFree => mayPutAt_of_free rfl isFree).passOver
  | addCompound record =>
      refine Yields.passOver (yields_enterCompound fun requested isRequest id isHandedOut => ?_)
      exact mayPutAt_of_handsOut counted rfl isRequest isHandedOut fun _ isRequested =>
        ⟨⟨requested, isRequest, isRequested⟩, trivial⟩
  | _ => exact isAddition.elim

end

end Mutation

namespace Graph

variable {graph after : Graph} {mutation : Mutation}

/-- A rule is found under a name as long as the name stands for what it stood for and the rule is
where it was. -/
theorem ruleByName_of_kept {name : Text} {rule : Rule} (isFound : graph.ruleByName name = .ok rule)
    (names : ∀ key given, graph.ruleNames.get? key = some given →
      after.ruleNames.get? key = some given)
    (stays : ∀ id, graph.rules.get? id = some rule → after.rules.get? id = some rule) :
    after.ruleByName name = .ok rule := by
  have isNamed := found_eq_ok isFound
  unfold namedRule? at isNamed
  obtain ⟨given, isGiven, isStored⟩ := Option.bind_eq_some_iff.mp isNamed
  obtain ⟨id, isNumber, isStored⟩ := Option.bind_eq_some_iff.mp isStored
  unfold ruleByName namedRule?
  rw [names _ given isGiven]
  change found .rule name (given.number?.bind fun id => after.rules.get? id) = .ok rule
  rw [isNumber]
  change found .rule name (after.rules.get? id) = .ok rule
  rw [stays id isStored]
  rfl

/-- A word and two rules, one of which has asked for its id. -/
def populated : Graph := ofRun [
  .addLanguage { name := "A", shortName := "a" } Mutation.isNamed_a,
  .addWord [("text", .text "x"), ("language", .text "a"), ("id", .null)],
  .addRule [("name", .text "q"), ("from_language", .text "a"), ("to_language", .null),
    ("text", .text "- no change"), ("id", .null)] none,
  .addRule [("name", .text "r"), ("from_language", .text "a"), ("to_language", .null),
    ("text", .text "- no change"), ("id", .integer 5)] none]

end Graph

end Diachrony
