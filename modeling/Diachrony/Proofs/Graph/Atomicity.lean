import Diachrony.Proofs.Graph.Allotment
import Diachrony.Proofs.Record.Refusal

/-!
# Mutations that fail leave all tables as they were

An edit looks and reads first and stores last, and what it stores it stores at once; only an id
may have been used up when it fails.  A rule reserves its name before it is read, and gives it
back when it cannot be read.  Some edits store one thing after another; what can be wrong once
they have begun is only the value of a field.
-/
namespace Diachrony

namespace Error

/-- Whether an error says that an index points outside of what it counts in. -/
def isOutOfRange : Error → Bool
  | noSuchSound _ | noSuchCell .. | noSuchRow | noSuchColumn | indexTooLarge => true
  | _ => false

/-- Whether an error is one of those that say what is wrong with a call: the error has a code,
or an index is out of range. -/
def isReported (error : Error) : Bool := error.isRecordable || error.isOutOfRange

end Error

theorem OnlyInvalid.not_isReported {α : Type} {result : Except Error α} (only : OnlyInvalid result)
    {error : Error} (failed : result = .error error) : error.isReported = false := by
  obtain ⟨field, rfl⟩ := only error failed
  rfl

/-- The text of a rule fails to be read without an index that is out of range. -/
theorem Logic.not_isOutOfRange_of_readFor {resolver : Resolver} {rule : Data} {text : Text}
    {error : Error} (failed : readFor resolver rule text = .error error) :
    error.isOutOfRange = false := by
  unfold readFor at failed
  cases isRead : read resolver text with
  | ok logic =>
      rw [isRead] at failed
      cases failed
  | error located =>
      rw [isRead] at failed
      cases failed
      unfold errorIn
      dsimp only
      split <;> rfl

namespace Edit

open Diachrony.Graph (CountsTo countsTo_refl countsTo_count)
open Record (assign)

variable {α β : Type} {graph : Graph}

def OnlyCounts (edit : Edit α) : Prop := ∀ graph : Graph, graph.CountsTo (edit.on graph).2

theorem OnlyAsks.onlyCounts {edit : Edit α} (asks : edit.OnlyAsks) : edit.OnlyCounts := by
  intro graph
  rw [asks graph]
  exact graph.countsTo_refl

theorem onlyCounts_allocate (requested : Option Int) : (allocate requested).OnlyCounts :=
  fun _ => countsTo_count (Int.le_max_left _ _)

theorem onlyCounts_advanceIds (nextId : Int) : (advanceIds nextId).OnlyCounts :=
  fun _ => countsTo_count (Int.le_max_left _ _)

theorem onlyCounts_allocateFor (requested : Data) : (allocateFor requested).OnlyCounts := by
  intro graph
  have ends : (allocateFor requested).Ends graph (fun _ => graph.CountsTo) graph.CountsTo :=
    ends_allocateFor (fun id _ _ _ => countsTo_handedOut graph id) fun _ counts => counts
  unfold Ends at ends
  cases isRun : (allocateFor requested).on graph with
  | mk result after =>
      rw [isRun] at ends
      cases result <;> exact ends

/-- An edit that leaves all tables of a graph as they are, if it fails with an error that says
what is wrong with the call. -/
def IsAtomicOn (graph : Graph) (edit : Edit α) : Prop :=
  ∀ error after, edit.on graph = (.error error, after) → error.isReported = true →
    graph.CountsTo after

/-- An edit that leaves all tables of any graph as they are, if it fails so. -/
def IsAtomic (edit : Edit α) : Prop := ∀ graph, edit.IsAtomicOn graph

theorem OnlyCounts.isAtomic {edit : Edit α} (counts : edit.OnlyCounts) : edit.IsAtomic := by
  intro graph error after failed _
  have counted := counts graph
  rw [failed] at counted
  exact counted

theorem AllOrNothing.isAtomic {edit : Edit α} (undivided : edit.AllOrNothing) : edit.IsAtomic := by
  intro graph error after failed _
  rw [undivided graph after error failed]
  exact graph.countsTo_refl

/-- What follows an edit may count on all that is known once the edit has succeeded. -/
theorem IsAtomicOn.bind {edit : Edit α} {next : α → Edit β} (atomic : edit.IsAtomicOn graph)
    (goesOn : ∀ value between, edit.on graph = (.ok value, between) →
      ∀ error after, (next value).on between = (.error error, after) → error.isReported = true →
        graph.CountsTo after) : (edit >>= next).IsAtomicOn graph := by
  intro error after failed isReported
  rw [on_bind] at failed
  cases isRun : edit.on graph with
  | mk result between =>
      rw [isRun] at failed
      cases result with
      | ok value => exact goesOn value between isRun error after failed isReported
      | error first =>
          cases failed
          exact atomic _ _ isRun isReported

theorem OnlyCounts.bind_isAtomic {edit : Edit α} {next : α → Edit β} (counts : edit.OnlyCounts)
    (goesOn : ∀ value, (next value).IsAtomic) : (edit >>= next).IsAtomic := by
  intro graph
  refine (counts.isAtomic graph).bind fun value between isRun error after failed isReported => ?_
  have counted := counts graph
  rw [isRun] at counted
  exact counted.trans (goesOn value between error after failed isReported)

theorem OnlyAsks.bind_isAtomic {edit : Edit α} {next : α → Edit β} (asks : edit.OnlyAsks)
    (goesOn : ∀ value, (next value).IsAtomic) : (edit >>= next).IsAtomic :=
  asks.onlyCounts.bind_isAtomic goesOn

/-- Asking is followed by what is done where it was asked. -/
theorem OnlyAsks.bind_isAtomicOn {edit : Edit α} {next : α → Edit β} (asks : edit.OnlyAsks)
    (goesOn : ∀ value, edit.on graph = (.ok value, graph) → (next value).IsAtomicOn graph) :
    (edit >>= next).IsAtomicOn graph := by
  refine (asks.onlyCounts.isAtomic graph).bind fun value between isRun => ?_
  have kept := asks graph
  rw [isRun] at kept
  cases kept
  exact goesOn value isRun

theorem IsAtomic.passOver {edit : Edit α} (atomic : edit.IsAtomic) :
    (do let _ ← edit : Edit Unit).IsAtomic := by
  intro graph
  refine (atomic graph).bind fun value between _ error after failed => ?_
  cases failed

/-- A change is the last thing that is done, except for giving a value. -/
theorem isAtomic_modify (change : Graph → Graph) (value : α) :
    (do modify change; return value : Edit α).IsAtomic :=
  ((allOrNothing_modify change).map fun _ => value).isAtomic

/-- An edit that keeps what holds of a graph where it succeeds, and otherwise fails in a way that
does not say what is wrong with the call. -/
def Proceeds (Kept : Graph → Prop) (edit : Edit α) : Prop :=
  ∀ graph, Kept graph → match edit.on graph with
    | (.ok _, after) => Kept after
    | (.error error, _) => error.isReported = false

variable {Kept : Graph → Prop}

theorem Proceeds.bind {edit : Edit α} {next : α → Edit β} (proceeds : edit.Proceeds Kept)
    (goesOn : ∀ value, (next value).Proceeds Kept) : (edit >>= next).Proceeds Kept := by
  intro graph isKept
  have first := proceeds graph isKept
  rw [on_bind]
  cases isRun : edit.on graph with
  | mk result between =>
      rw [isRun] at first
      cases result with
      | ok value => exact goesOn value between first
      | error error => exact first

theorem proceeds_forM {items : List α} {visit : α → Edit PUnit}
    (each : ∀ item, (visit item).Proceeds Kept) : (items.forM visit).Proceeds Kept := by
  induction items with
  | nil => exact fun _ isKept => isKept
  | cons item items inductionHypothesis => exact (each item).bind fun _ => inductionHypothesis

theorem proceeds_lift {result : Except Error α} (only : OnlyInvalid result) :
    (lift result).Proceeds Kept := by
  intro graph isKept
  rw [on_lift]
  cases result with
  | ok value => exact isKept
  | error error => exact only.not_isReported rfl

theorem proceeds_modify {change : Graph → Graph} (isKept : ∀ graph, Kept graph → Kept (change graph)) :
    (modify change : Edit PUnit).Proceeds Kept := isKept

/-- What is stored is found. -/
theorem proceeds_ask {query : Graph → Except Error α}
    (isFound : ∀ graph, Kept graph → ∃ value, query graph = .ok value) :
    (ask query).Proceeds Kept := by
  intro graph isKept
  obtain ⟨value, gave⟩ := isFound graph isKept
  rw [on_ask, gave]
  exact isKept

theorem Proceeds.not_failed {edit : Edit α} (proceeds : edit.Proceeds Kept) (isKept : Kept graph)
    {error : Error} {after : Graph} (failed : edit.on graph = (.error error, after)) :
    error.isReported = false := by
  have ends := proceeds graph isKept
  rw [failed] at ends
  exact ends

theorem isAtomic_putLanguage (shortName : Text) (language : Language) :
    (putLanguage shortName language).IsAtomic := (allOrNothing_modify _).isAtomic

theorem isAtomic_addLanguage (language : Language) : (addLanguage language).IsAtomic :=
  onlyAsks_get.bind_isAtomic fun _ =>
    (onlyAsks_refuseIf _ _).bind_isAtomic fun _ => isAtomic_putLanguage _ _

theorem isAtomic_setLanguage (shortName field : Text) (data : Data) :
    (setLanguage shortName field data).IsAtomic :=
  (onlyAsks_ask _).bind_isAtomic fun _ =>
    (onlyAsks_lift _).bind_isAtomic fun _ => isAtomic_putLanguage _ _

theorem isAtomic_addPhoneme (shortName : Text) (phoneme : Phoneme) :
    (addPhoneme shortName phoneme).IsAtomic :=
  (onlyAsks_ask _).bind_isAtomic fun _ => isAtomic_putLanguage _ _

theorem isAtomic_deletePhoneme (shortName spelling : Text) :
    (deletePhoneme shortName spelling).IsAtomic := by
  refine (onlyAsks_ask _).bind_isAtomic fun language => ?_
  dsimp only
  split
  · exact (onlyAsks_throw _).onlyCounts.isAtomic
  · exact isAtomic_putLanguage _ _

theorem onlyCounts_needField (record : Fields) (name : Text) : (needField record name).OnlyCounts :=
  (onlyAsks_lift _).onlyCounts

theorem isAtomic_addWord (requested : Data) (language : Text) (describe : Word → Except Error Word) :
    (addWord requested language describe).IsAtomic := by
  refine (onlyAsks_ask _).bind_isAtomic fun _ => ?_
  refine onlyAsks_get.bind_isAtomic fun graph => ?_
  refine (onlyAsks_refuseIf _ _).bind_isAtomic fun _ => ?_
  refine (onlyCounts_allocateFor _).bind_isAtomic fun id => ?_
  refine (onlyAsks_lift _).bind_isAtomic fun word => ?_
  exact isAtomic_modify _ word

theorem isAtomic_enterWord (record : Fields) : (enterWord record).IsAtomic := by
  refine (onlyCounts_needField _ _).bind_isAtomic fun text => ?_
  refine (onlyCounts_needField _ _).bind_isAtomic fun language => ?_
  refine (onlyCounts_needField _ _).bind_isAtomic fun id => ?_
  refine (onlyAsks_ask _).bind_isAtomic fun language => ?_
  exact isAtomic_addWord _ _ _

/-- Once the word is there, only the value of a field can be wrong. -/
theorem proceeds_setWord (id : Int) (field : Text) (data : Data) :
    (setWord id field data).Proceeds fun graph => graph.words.contains id = true := by
  refine (proceeds_ask fun graph isStored => exists_found_iff.mpr isStored).bind fun word => ?_
  refine (proceeds_lift (Record.onlyInvalid_assign Word.onlyInvalid_known _ _ _)).bind fun _ => ?_
  exact proceeds_modify fun graph isStored => Graph.contains_insert_of_contains _ _ _ isStored

theorem proceeds_updateWord (id : Int) (changes : Fields) :
    (updateWord id changes).Proceeds fun graph => graph.words.contains id = true := by
  unfold updateWord
  refine Proceeds.bind (proceeds_forM fun change => ?_) fun _ => ?_
  · exact proceeds_setWord id change.1 change.2
  · exact proceeds_ask fun graph isStored => exists_found_iff.mpr isStored

theorem isAtomic_updateWord (id : Int) (changes : Fields) : (updateWord id changes).IsAtomic := by
  intro graph
  by_cases isStored : graph.words.contains id = true
  · intro error after failed isReported
    rw [(proceeds_updateWord id changes).not_failed isStored failed] at isReported
    cases isReported
  · have notFound : ∀ word, graph.word id ≠ .ok word := fun word isFound =>
      isStored (exists_found_iff.mp ⟨word, isFound⟩)
    cases changes with
    | nil => exact ((onlyAsks_pure _).bind fun _ => onlyAsks_ask _).onlyCounts.isAtomic graph
    | cons change changes =>
        intro error after failed _
        change ((setWord id change.1 change.2 >>= fun _ => changes.forM _) >>= fun _ => _).on graph =
          _ at failed
        unfold setWord at failed
        rw [bind_assoc, bind_assoc, on_bind, on_ask] at failed
        cases isLooked : graph.word id with
        | ok word => exact absurd isLooked (notFound word)
        | error complaint =>
            rw [isLooked] at failed
            cases failed
            exact graph.countsTo_refl

theorem isAtomic_deleteWord (id : Int) : (deleteWord id).IsAtomic :=
  (onlyAsks_ask _).bind_isAtomic fun _ => (allOrNothing_modify _).isAtomic

theorem isAtomic_reserveRule (name requested : Data) : (reserveRule name requested).IsAtomic := by
  intro graph error after failed _
  have ends : (reserveRule name requested).Ends graph (fun _ _ => True) graph.CountsTo :=
    ends_reserve graph.countsTo_refl (fun _ _ _ _ => trivial) fun _ _ _ _ _ => trivial
  exact (ends_iff.mp ends).2 error after failed

/-- Texts can be names, and a name that asks for no id is given one. -/
theorem proceeds_registerRules (names : List Text) :
    (registerRules names).Proceeds fun _ => True := by
  have reserves : ∀ name : Text,
      (reserveRule (.text name) .null).Proceeds fun _ => True := by
    intro name graph _
    have isKey : (Data.text name).key? = some (.text name) := rfl
    unfold reserveRule
    rw [on_bind, keyOf, isKey, on_pure]
    dsimp only
    rw [on_bind, show (get : Edit Graph).on graph = (.ok graph, graph) from rfl]
    dsimp only
    cases graph.ruleNames.get? (.text name) with
    | none =>
        dsimp only
        rw [on_bind, on_allocateGiven_null]
        trivial
    | some id => trivial
  unfold registerRules
  induction names.eraseDups with
  | nil => exact fun _ _ => trivial
  | cons name names inductionHypothesis =>
      rw [List.mapM_cons]
      refine Proceeds.bind ((reserves name).bind fun _ _ _ => trivial) fun _ => ?_
      exact inductionHypothesis.bind fun _ _ _ => trivial

theorem isAtomic_registerRules (names : List Text) : (registerRules names).IsAtomic := by
  intro graph error after failed isReported
  rw [(proceeds_registerRules names).not_failed trivial failed] at isReported
  cases isReported

theorem not_isOutOfRange_of_logicOf {draft : RuleDraft} {error : Error} {after : Graph}
    (failed : (logicOf draft).on graph = (.error error, after)) : error.isOutOfRange = false := by
  have isSame : ∀ text : Text,
      (ask fun graph => Logic.readFor graph.resolver draft.name text).on graph = (.error error, after) →
      error.isOutOfRange = false := by
    intro text failed
    rw [on_ask] at failed
    exact Logic.not_isOutOfRange_of_readFor (congrArg Prod.fst failed)
  unfold logicOf at failed
  split at failed
  · cases failed
  · split at failed
    · exact isSame [] failed
    · split at failed
      · exact isSame _ failed
      · cases failed
        rfl

/-- What is still to be said of a rule once its logic is read. -/
theorem proceeds_describeRule {draft : RuleDraft} {describe : Rule → Except Error Rule}
    (describes : ∀ rule, OnlyInvalid (describe rule)) (id : GivenId) (logic : Logic) :
    (do
      let id ← lift (Record.asInt "id" id.toData)
      let name ← lift (Record.asText "name" draft.name)
      let sourceText ← lift (Record.orNull (Record.asText "source_text") draft.sourceText)
      let rule ← lift (describe (draft.rule id name sourceText logic))
      putRule id rule
      return rule : Edit Rule).Proceeds fun _ => True := by
  refine (proceeds_lift (Record.onlyInvalid_asInt _ _)).bind fun number => ?_
  refine (proceeds_lift (Record.onlyInvalid_asText _ _)).bind fun name => ?_
  refine (proceeds_lift (Record.onlyInvalid_orNull (Record.onlyInvalid_asText _) _)).bind fun text => ?_
  refine (proceeds_lift (describes _)).bind fun rule => ?_
  exact (proceeds_modify fun _ _ => trivial).bind fun _ _ _ => trivial

theorem on_giveBack (isGivenBack : Bool) (key : Key) (complaint : Error) (graph : Graph) :
    (do
      if isGivenBack then putRuleNames (·.erase key)
      throw complaint : Edit α).on graph =
      (.error complaint,
        if isGivenBack then { graph with ruleNames := graph.ruleNames.erase key } else graph) := by
  cases isGivenBack <;> rfl

/-- A name that is reserved stands as it stood, or it is new and stands last. -/
theorem ends_reserve_apart {name : Data} {key : Key} {graph : Graph} (requested : Data)
    (isName : name.key? = some key) :
    (reserveRule name requested).Ends graph (fun id after =>
      graph.ruleNames.contains key = true ∧ after = graph ∨
      graph.ruleNames.contains key = false ∧ after =
        { graph with
          nextId := max graph.nextId id.next
          ruleNames := graph.ruleNames.insert key id }) fun _ => True := by
  refine ends_reserve trivial (fun other id isOther isNamed => .inl ⟨?_, rfl⟩)
    fun other id isOther isNew _ => .inr ?_
  · cases isName.symm.trans isOther
    exact Table.contains_of_get? isNamed
  · cases isName.symm.trans isOther
    refine ⟨?_, rfl⟩
    rw [Table.contains, isNew]
    rfl

/-- The name of a rule that cannot be read is given back, unless it was reserved before. -/
theorem isAtomic_addRule {requested : Data} {draft : RuleDraft} {describe : Rule → Except Error Rule}
    (describes : ∀ rule, OnlyInvalid (describe rule)) :
    (addRule requested draft describe).IsAtomic := by
  intro graph
  unfold addRule
  refine (onlyAsks_ask _).bind_isAtomicOn fun _ _ => ?_
  refine (onlyAsks_ask _).bind_isAtomicOn fun _ _ => ?_
  refine onlyAsks_get.bind_isAtomicOn fun found isFound => ?_
  obtain rfl : graph = found := Except.ok.inj (congrArg Prod.fst isFound)
  refine (onlyAsks_keyOf _ _).bind_isAtomicOn fun key isKey => ?_
  refine (onlyAsks_refuseIf _ _).bind_isAtomicOn fun _ _ => ?_
  refine (isAtomic_reserveRule _ _ graph).bind fun id between isReserved error after failed isReported => ?_
  have isBetween :=
    (ends_iff.mp (ends_reserve_apart requested (key?_of_keyOf isKey))).1 id between isReserved
  have kept := onlyAsks_logicOf draft between
  rw [on_bind, on_tryCatch] at failed
  cases isRead : (logicOf draft).on between with
  | mk result unchanged =>
      rw [isRead] at failed kept
      cases kept
      cases result with
      | ok logic =>
          rw [(proceeds_describeRule describes id logic).not_failed trivial failed] at isReported
          cases isReported
      | error complaint =>
          have notOut := not_isOutOfRange_of_logicOf isRead
          dsimp only at failed
          rw [on_giveBack] at failed
          obtain ⟨isError, isAfter⟩ := Prod.mk.inj failed
          cases isError
          have isRecordable : error.isRecordable = true := by
            rw [Error.isReported, notOut, Bool.or_false] at isReported
            exact isReported
          rw [isRecordable, Bool.and_true] at isAfter
          rcases isBetween with ⟨isReserved, rfl⟩ | ⟨isNew, rfl⟩
          · rw [isReserved] at isAfter
            exact isAfter ▸ countsTo_refl _
          · rw [isNew, Bool.not_false, if_pos rfl] at isAfter
            dsimp only at isAfter
            rw [Table.erase_insert isNew] at isAfter
            exact isAfter ▸ countsTo_count (Int.le_max_left _ _)

theorem isAtomic_enterRule (record : Fields) (logic : Option Logic) :
    (enterRule record logic).IsAtomic := by
  refine (onlyCounts_needField _ _).bind_isAtomic fun name => ?_
  refine (onlyCounts_needField _ _).bind_isAtomic fun source => ?_
  refine (onlyCounts_needField _ _).bind_isAtomic fun target => ?_
  refine (onlyCounts_needField _ _).bind_isAtomic fun sourceText => ?_
  refine (onlyCounts_needField _ _).bind_isAtomic fun id => ?_
  refine (onlyAsks_ask _).bind_isAtomic fun fromLanguage => ?_
  refine (onlyAsks_ask _).bind_isAtomic fun toLanguage => ?_
  exact isAtomic_addRule fun rule =>
    Record.onlyInvalid_assignKnown Rule.onlyInvalid_detailsKnown rule record

theorem isAtomic_replaceText (id : Int) (text : Text) : (replaceText id text).IsAtomic :=
  (onlyAsks_ask _).bind_isAtomic fun _ =>
    (onlyAsks_ask _).bind_isAtomic fun _ => (allOrNothing_modify _).isAtomic

/-- Once the rule is there, only the value of a field can be wrong. -/
theorem proceeds_setRule (id : Int) (field : Text) (data : Data) :
    (setRule id field data).Proceeds fun graph => graph.rules.contains id = true := by
  refine (proceeds_ask fun graph isStored => exists_found_iff.mpr isStored).bind fun rule => ?_
  refine (proceeds_lift (Record.onlyInvalid_assign Rule.onlyInvalid_known _ _ _)).bind fun _ => ?_
  exact proceeds_modify fun graph isStored => Graph.contains_insert_of_contains _ _ _ isStored

theorem isAtomic_updateRule (id : Int) (text : Option Text) (changes : Fields) :
    (updateRule id text changes).IsAtomic := by
  intro graph
  refine (onlyAsks_ask _).bind_isAtomicOn fun rule isFound => ?_
  refine (onlyAsks_refuseIf _ _).bind_isAtomicOn fun _ _ => ?_
  have isStored : graph.rules.contains id = true := exists_found_iff.mp ⟨rule, on_ask_eq_ok.mp isFound⟩
  have replaces : (text.forM (replaceText id)).IsAtomic ∧ (text.forM (replaceText id)).Adds := by
    cases text with
    | none => exact ⟨(onlyAsks_pure _).onlyCounts.isAtomic, adds_pure _⟩
    | some text => exact ⟨isAtomic_replaceText id text, adds_replaceText id text⟩
  refine (replaces.1 graph).bind fun _ between isRun error after failed isReported => ?_
  have grows := (ends_iff.mp (replaces.2 graph graph graph.growsTo_refl)).1 _ between isRun
  have proceeds : (do
      changes.forM fun change => setRule id change.1 change.2
      ask (·.rule id) : Edit Rule).Proceeds fun graph => graph.rules.contains id = true := by
    refine Proceeds.bind (proceeds_forM fun change => ?_) fun _ => ?_
    · exact proceeds_setRule id change.1 change.2
    · exact proceeds_ask fun graph isStored => exists_found_iff.mpr isStored
  rw [proceeds.not_failed (grows.rules id isStored) failed] at isReported
  cases isReported

theorem isAtomic_deleteRule (id : Int) : (deleteRule id).IsAtomic :=
  onlyAsks_get.bind_isAtomic fun _ =>
    (onlyAsks_ask _).bind_isAtomic fun _ =>
      (onlyAsks_refuse _).bind_isAtomic fun _ => (allOrNothing_modify _).isAtomic

theorem isAtomic_enterSequence (readSteps : Fields → Except Error (Written (List SequenceStep)))
    (record : Fields) : (enterSequence readSteps record).IsAtomic := by
  refine (onlyCounts_needField _ _).bind_isAtomic fun name => ?_
  refine (onlyCounts_needField _ _).bind_isAtomic fun source => ?_
  refine (onlyCounts_needField _ _).bind_isAtomic fun target => ?_
  refine (onlyAsks_lift _).bind_isAtomic fun steps => ?_
  refine (onlyCounts_needField _ _).bind_isAtomic fun id => ?_
  refine (onlyAsks_ask _).bind_isAtomic fun fromLanguage => ?_
  refine (onlyAsks_ask _).bind_isAtomic fun toLanguage => ?_
  refine (onlyAsks_ask _).bind_isAtomic fun _ => ?_
  refine (onlyAsks_ask _).bind_isAtomic fun _ => ?_
  refine (onlyAsks_stepsOf _ _).bind_isAtomic fun steps => ?_
  refine (onlyCounts_allocateFor _).bind_isAtomic fun id => ?_
  refine (onlyAsks_lift _).bind_isAtomic fun name => ?_
  refine (onlyAsks_lift _).bind_isAtomic fun sequence => ?_
  refine (onlyAsks_checkSteps _).bind_isAtomic fun _ => ?_
  exact isAtomic_modify _ sequence

theorem isAtomic_updateSteps (id : Int) (steps : Written (List SequenceStep)) :
    (updateSteps id steps).IsAtomic := by
  refine (onlyAsks_ask _).bind_isAtomic fun sequence => ?_
  refine (onlyAsks_stepsOf _ _).bind_isAtomic fun steps => ?_
  refine (onlyAsks_checkSteps _).bind_isAtomic fun _ => ?_
  exact isAtomic_modify _ _

theorem isAtomic_storeParadigm (paradigm : Paradigm) : (storeParadigm paradigm).IsAtomic :=
  (onlyAsks_checkCells _).bind_isAtomic fun _ => isAtomic_modify _ paradigm

theorem isAtomic_addGivenParadigm (requested : Data) (language : Text) (written : Option Text)
    (details : Fields) : (addGivenParadigm requested language written details).IsAtomic := by
  refine (onlyAsks_ask _).bind_isAtomic fun _ => ?_
  refine (onlyAsks_gridOf _).bind_isAtomic fun grid => ?_
  refine (onlyCounts_allocateFor _).bind_isAtomic fun id => ?_
  refine (onlyAsks_lift _).bind_isAtomic fun paradigm => ?_
  exact isAtomic_storeParadigm paradigm

theorem isAtomic_addTemplate (paradigm : Paradigm) : (addTemplate paradigm).IsAtomic :=
  (onlyAsks_ask _).bind_isAtomic fun _ =>
    (onlyCounts_allocate _).bind_isAtomic fun _ => isAtomic_storeParadigm _

theorem isAtomic_setCell (id row column : Int) (rules : List Int) :
    (setCell id row column rules).IsAtomic := by
  refine (onlyAsks_ask _).bind_isAtomic fun paradigm => ?_
  refine OnlyAsks.bind_isAtomic ?_ fun _ => ?_
  · exact onlyAsks_forM fun rule _ => onlyAsks_checkRule rule
  · refine (onlyAsks_lift _).bind_isAtomic fun grid => ?_
    exact isAtomic_modify _ _

theorem isAtomic_enterLink (record : Fields) : (enterLink record).IsAtomic := by
  refine (onlyCounts_needField _ _).bind_isAtomic fun source => ?_
  refine (onlyCounts_needField _ _).bind_isAtomic fun target => ?_
  refine (onlyCounts_needField _ _).bind_isAtomic fun kind => ?_
  refine (onlyAsks_lift _).bind_isAtomic fun _ => ?_
  refine (onlyAsks_lift _).bind_isAtomic fun link => ?_
  refine (onlyAsks_checkLink _).bind_isAtomic fun _ => ?_
  refine onlyAsks_get.bind_isAtomic fun graph => ?_
  refine (onlyAsks_refuseIf _ _).bind_isAtomic fun _ => ?_
  exact isAtomic_modify _ link

theorem isAtomic_updateLink (link : Link) : (updateLink link).IsAtomic :=
  (onlyAsks_requireLink _).bind_isAtomic fun _ =>
    (onlyAsks_checkLink _).bind_isAtomic fun _ => isAtomic_modify _ link

theorem isAtomic_deleteLink (key : LinkKey) : (deleteLink key).IsAtomic :=
  (onlyAsks_requireLink _).bind_isAtomic fun _ => (allOrNothing_modify _).isAtomic

theorem isAtomic_enterCompound (record : Fields) : (enterCompound record).IsAtomic := by
  refine (onlyCounts_needField _ _).bind_isAtomic fun whole => ?_
  refine (onlyCounts_needField _ _).bind_isAtomic fun components => ?_
  refine (onlyCounts_needField _ _).bind_isAtomic fun id => ?_
  split
  · refine OnlyAsks.bind_isAtomic ?_ fun _ => ?_
    · exact onlyAsks_forM fun word _ => onlyAsks_checkWordUnder word
    refine (onlyAsks_lift _).bind_isAtomic fun whole => ?_
    refine (onlyAsks_lift _).bind_isAtomic fun components => ?_
    refine OnlyAsks.bind_isAtomic ?_ fun _ => ?_
    · exact onlyAsks_forM fun word _ => onlyAsks_checkWord word
    refine (onlyCounts_allocateFor _).bind_isAtomic fun id => ?_
    exact isAtomic_modify _ _
  · exact (onlyAsks_throw _).onlyCounts.isAtomic

end Edit

open Edit

/-- Whatever is wrong with a call, it leaves all tables as they were, in their order; only ids may
have been used up. -/
theorem Mutation.failed_leaves_tables {graph after : Graph} {mutation : Mutation} {error : Error}
    (failed : mutation.run.on graph = (.error error, after)) (isReported : error.isReported = true) :
    graph.CountsTo after := by
  suffices atomic : mutation.run.IsAtomic from atomic graph error after failed isReported
  cases mutation with
  | addLanguage language isNamed => exact isAtomic_addLanguage language
  | setLanguage language field data => exact isAtomic_setLanguage language field data
  | addPhoneme language phoneme => exact isAtomic_addPhoneme language phoneme
  | deletePhoneme language spelling => exact isAtomic_deletePhoneme language spelling
  | addWord record => exact (isAtomic_enterWord record).passOver
  | updateWord id changes => exact (isAtomic_updateWord id changes).passOver
  | deleteWord id => exact isAtomic_deleteWord id
  | reserveRule name requested => exact (isAtomic_reserveRule name requested).passOver
  | registerRules names => exact (isAtomic_registerRules names).passOver
  | addRule record logic => exact (isAtomic_enterRule record logic).passOver
  | updateRule id text changes => exact (isAtomic_updateRule id text changes).passOver
  | deleteRule id => exact isAtomic_deleteRule id
  | addSequence steps record => exact (isAtomic_enterSequence _ record).passOver
  | updateSteps id steps => exact (isAtomic_updateSteps id steps).passOver
  | addParadigm requested language written details =>
      exact (isAtomic_addGivenParadigm requested language written details).passOver
  | addTemplate paradigm => exact (isAtomic_addTemplate paradigm).passOver
  | setCell id row column rules => exact (isAtomic_setCell id row column rules).passOver
  | addLink record => exact (isAtomic_enterLink record).passOver
  | updateLink link => exact (isAtomic_updateLink link).passOver
  | deleteLink key => exact isAtomic_deleteLink key
  | addCompound record => exact (isAtomic_enterCompound record).passOver
  | advanceIds nextId => exact (onlyCounts_advanceIds nextId).isAtomic

/-- A rule whose text is no instruction has used up an id, and its name is free again. -/
theorem Mutation.failed_leaves_tables_unreadableRule :
    let graph := Graph.ofRun [.addLanguage { name := "A", shortName := "a" } isNamed_a]
    let mutation := Mutation.addRule [("name", .text "r"), ("from_language", .text "a"),
      ("to_language", .null), ("text", .text "- fly"), ("id", .null)] none
    ∃ error after, mutation.run.on graph = (.error error, after) ∧ error.isReported = true ∧
      after.nextId = 2 ∧ graph.CountsTo after := by
  intro graph mutation
  have isSeen : (match mutation.run.on graph with
      | (.error error, after) => error.isReported && after.nextId == 2
      | _ => false) = true := by decide +kernel
  cases isRun : mutation.run.on graph with
  | mk result after =>
      rw [isRun] at isSeen
      cases result with
      | ok value => cases isSeen
      | error error =>
          obtain ⟨isReported, isNext⟩ := Bool.and_eq_true_iff.mp isSeen
          exact ⟨error, after, rfl, isReported, eq_of_beq isNext,
            failed_leaves_tables isRun isReported⟩

end Diachrony
