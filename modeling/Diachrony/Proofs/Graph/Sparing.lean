import Diachrony.Proofs.Graph.Connection

/-!
# What edits leave alone

Each edit is about a few tables of a graph.  Whatever is seen of a graph without a look at these
is the same behind the edit, and so it is behind one that fails half way.
-/
namespace Diachrony

variable {α β γ : Type}

namespace Edit

def Spares (view : Graph → γ) (edit : Edit α) : Prop :=
  ∀ start : Graph, edit.Keeps fun graph => view graph = view start

variable {view : Graph → γ}

/-- What depends on nothing but what is spared, is kept. -/
theorem Spares.keeps {edit : Edit α} {Kept : Graph → Prop} (spares : edit.Spares view)
    (depends : ∀ before after, view after = view before → Kept before → Kept after) :
    edit.Keeps Kept :=
  fun graph isKept => (spares graph graph rfl).mono
    (fun _ after same => depends graph after same isKept)
    fun after same => depends graph after same isKept

theorem OnlyAsks.spares {edit : Edit α} (asks : edit.OnlyAsks) : edit.Spares view :=
  fun _ => asks.keeps

theorem Spares.bind {edit : Edit α} {next : α → Edit β} (spares : edit.Spares view)
    (goesOn : ∀ value, (next value).Spares view) : (edit >>= next).Spares view :=
  fun start => (spares start).bind fun value => goesOn value start

theorem spares_pure (value : α) : (pure value : Edit α).Spares view :=
  (onlyAsks_pure value).spares

theorem spares_ask (query : Graph → Except Error α) : (ask query).Spares view :=
  (onlyAsks_ask query).spares

theorem spares_lift (result : Except Error α) : (lift result : Edit α).Spares view :=
  (onlyAsks_lift result).spares

theorem Spares.passOver {edit : Edit α} (spares : edit.Spares view) :
    (do let _ ← edit : Edit Unit).Spares view :=
  spares.bind fun _ => spares_pure _

theorem spares_modify {change : Graph → Graph} (ignored : ∀ graph, view (change graph) = view graph) :
    (modify change : Edit PUnit).Spares view :=
  fun _ => keeps_modify fun graph same => (ignored graph).trans same

section

variable (ignored : ∀ (graph : Graph) nextId, view { graph with nextId } = view graph)

include ignored

theorem spares_allocate (requested : Option Int) : (allocate requested).Spares view :=
  fun _ graph same => (ignored graph _).trans same

theorem spares_advanceIds (nextId : Int) : (advanceIds nextId).Spares view :=
  spares_modify fun graph => ignored graph _

theorem spares_allocateGiven (requested : Data) : (allocateGiven requested).Spares view := by
  unfold allocateGiven
  split
  · exact (spares_allocate ignored none).bind fun _ => spares_pure _
  · exact (spares_advanceIds ignored _).bind fun _ => spares_pure _
  · exact (onlyAsks_throw _).spares

theorem spares_allocateFor (requested : Data) : (allocateFor requested).Spares view :=
  (spares_allocateGiven ignored requested).bind fun _ => spares_lift _

end

section

variable (ignored : ∀ (graph : Graph) languages, view { graph with languages } = view graph)

include ignored

theorem spares_putLanguage (shortName : Text) (language : Language) :
    (putLanguage shortName language).Spares view :=
  spares_modify fun graph => ignored graph _

theorem spares_addLanguage (language : Language) : (addLanguage language).Spares view :=
  onlyAsks_get.spares.bind fun _ => (onlyAsks_refuseIf _ _).spares.bind fun _ =>
    spares_putLanguage ignored _ _

theorem spares_setLanguage (shortName field : Text) (data : Data) :
    (setLanguage shortName field data).Spares view :=
  (spares_ask _).bind fun _ => (spares_lift _).bind fun _ => spares_putLanguage ignored _ _

theorem spares_addPhoneme (shortName : Text) (phoneme : Phoneme) :
    (addPhoneme shortName phoneme).Spares view :=
  (spares_ask _).bind fun _ => spares_putLanguage ignored _ _

theorem spares_deletePhoneme (shortName spelling : Text) :
    (deletePhoneme shortName spelling).Spares view := by
  refine (spares_ask _).bind fun language => ?_
  dsimp only
  split
  · exact (onlyAsks_throw _).spares
  · exact spares_putLanguage ignored _ _

end

section

variable (ignored : ∀ (graph : Graph) nextId words, view { graph with nextId, words } = view graph)

include ignored

theorem spares_putWord (id : Int) (word : Word) : (putWord id word).Spares view :=
  spares_modify fun graph => ignored graph graph.nextId _

theorem spares_enterWord (record : Fields) : (enterWord record).Spares view := by
  refine (onlyAsks_needField _ _).spares.bind fun text => ?_
  refine (onlyAsks_needField _ _).spares.bind fun language => ?_
  refine (onlyAsks_needField _ _).spares.bind fun requested => ?_
  refine (spares_ask _).bind fun language => (spares_ask _).bind fun _ => ?_
  refine onlyAsks_get.spares.bind fun _ => (onlyAsks_refuseIf _ _).spares.bind fun _ => ?_
  refine (spares_allocateFor (fun graph nextId => ignored graph nextId graph.words) _).bind
    fun id => ?_
  refine (spares_lift _).bind fun word => (spares_putWord ignored id word).bind fun _ => ?_
  exact spares_pure _

theorem spares_updateWord (id : Int) (changes : Fields) : (updateWord id changes).Spares view := by
  have sets (change : Text × Data) : (setWord id change.1 change.2).Spares view :=
    (spares_ask _).bind fun _ => (spares_lift _).bind fun _ => spares_putWord ignored _ _
  have setsAll : (changes.forM fun change => setWord id change.1 change.2).Spares view :=
    fun start => keeps_forM fun change _ => sets change start
  exact setsAll.bind fun _ => spares_ask _

end

theorem spares_deleteWord (ignored : ∀ (graph : Graph) words links compounds,
    view { graph with words, links, compounds } = view graph) (id : Int) :
    (deleteWord id).Spares view :=
  (spares_ask _).bind fun _ => spares_modify fun graph => ignored graph _ _ _

section

variable (ignored : ∀ (graph : Graph) nextId rules ruleNames,
  view { graph with nextId, rules, ruleNames } = view graph)

include ignored

theorem spares_putRule (id : Int) (rule : Rule) : (putRule id rule).Spares view :=
  spares_modify fun graph => ignored graph graph.nextId _ graph.ruleNames

theorem spares_putRuleNames (change : Table Key GivenId → Table Key GivenId) :
    (putRuleNames change).Spares view :=
  spares_modify fun graph => ignored graph graph.nextId graph.rules _

theorem spares_reserveRule (name requested : Data) : (reserveRule name requested).Spares view := by
  refine (onlyAsks_keyOf _ _).spares.bind fun key => onlyAsks_get.spares.bind fun _ => ?_
  split
  · exact (onlyAsks_refuseIf _ _).spares.bind fun _ => spares_pure _
  · have counts (graph : Graph) nextId := ignored graph nextId graph.rules graph.ruleNames
    exact (spares_allocateGiven counts _).bind fun _ =>
      (spares_putRuleNames ignored _).bind fun _ => spares_pure _

theorem spares_registerRules (names : List Text) : (registerRules names).Spares view :=
  fun start => keeps_mapM fun _ =>
    (spares_reserveRule ignored _ _).bind (fun _ => spares_pure _) start

theorem spares_addRule (requested : Data) (draft : RuleDraft)
    (describe : Rule → Except Error Rule) : (addRule requested draft describe).Spares view := by
  refine (spares_ask _).bind fun _ => (spares_ask _).bind fun _ => onlyAsks_get.spares.bind fun _ => ?_
  refine (onlyAsks_keyOf _ _).spares.bind fun key => (onlyAsks_refuseIf _ _).spares.bind fun _ => ?_
  refine (spares_reserveRule ignored _ _).bind fun id => Spares.bind (fun start => ?_) fun logic => ?_
  · refine (onlyAsks_logicOf draft).keeps.tryCatch fun error => ?_
    split
    · exact (spares_putRuleNames ignored _).bind (fun _ => (onlyAsks_throw _).spares) start
    · exact (onlyAsks_throw _).spares start
  · refine (spares_lift _).bind fun _ => (spares_lift _).bind fun _ => (spares_lift _).bind fun _ => ?_
    refine (spares_lift _).bind fun rule => (spares_putRule ignored _ rule).bind fun _ => ?_
    exact spares_pure _

theorem spares_enterRule (record : Fields) (logic : Option Logic) :
    (enterRule record logic).Spares view := by
  refine (onlyAsks_needField _ _).spares.bind fun name => ?_
  refine (onlyAsks_needField _ _).spares.bind fun source => ?_
  refine (onlyAsks_needField _ _).spares.bind fun target => ?_
  refine (onlyAsks_needField _ _).spares.bind fun sourceText => ?_
  refine (onlyAsks_needField _ _).spares.bind fun requested => ?_
  exact (spares_ask _).bind fun _ => (spares_ask _).bind fun _ => spares_addRule ignored _ _ _

theorem spares_replaceText (id : Int) (text : Text) : (replaceText id text).Spares view :=
  (spares_ask _).bind fun _ => (spares_ask _).bind fun _ => spares_putRule ignored _ _

theorem spares_setRule (id : Int) (field : Text) (data : Data) : (setRule id field data).Spares view :=
  (spares_ask _).bind fun _ => (spares_lift _).bind fun _ => spares_putRule ignored _ _

theorem spares_updateRule (id : Int) (text : Option Text) (changes : Fields) :
    (updateRule id text changes).Spares view := by
  refine (spares_ask _).bind fun rule => (onlyAsks_refuseIf _ _).spares.bind fun _ => ?_
  refine Spares.bind ?_ fun _ => ?_
  · cases text with
    | none => exact spares_pure _
    | some text => exact spares_replaceText ignored id text
  · exact Spares.bind (fun start => keeps_forM fun _ _ => spares_setRule ignored id _ _ start)
      fun _ => spares_ask _

end

theorem spares_deleteRule (ignored : ∀ (graph : Graph) rules ruleNames sequences paradigms links,
    view { graph with rules, ruleNames, sequences, paradigms, links } = view graph) (id : Int) :
    (deleteRule id).Spares view :=
  onlyAsks_get.spares.bind fun _ => (spares_ask _).bind fun _ =>
    (onlyAsks_refuse _).spares.bind fun _ => spares_modify fun graph => ignored graph _ _ _ _ _

section

variable (ignored : ∀ (graph : Graph) nextId sequences,
  view { graph with nextId, sequences } = view graph)

include ignored

theorem spares_putSequence (id : Int) (sequence : RuleSequence) :
    (putSequence id sequence).Spares view :=
  spares_modify fun graph => ignored graph graph.nextId _

theorem spares_enterSequence (readSteps : Fields → Except Error (Written (List SequenceStep)))
    (record : Fields) : (enterSequence readSteps record).Spares view := by
  refine (onlyAsks_needField _ _).spares.bind fun name => ?_
  refine (onlyAsks_needField _ _).spares.bind fun source => ?_
  refine (onlyAsks_needField _ _).spares.bind fun target => (spares_lift _).bind fun steps => ?_
  refine (onlyAsks_needField _ _).spares.bind fun requested => (spares_ask _).bind fun _ => ?_
  refine (spares_ask _).bind fun _ => (spares_ask _).bind fun _ => (spares_ask _).bind fun _ => ?_
  refine (onlyAsks_stepsOf _ _).spares.bind fun steps => ?_
  refine (spares_allocateFor (fun graph nextId => ignored graph nextId graph.sequences) _).bind
    fun id => ?_
  refine (spares_lift _).bind fun name => (spares_lift _).bind fun sequence => ?_
  refine (onlyAsks_checkSteps _).spares.bind fun _ => ?_
  exact (spares_putSequence ignored _ _).bind fun _ => spares_pure _

theorem spares_updateSteps (id : Int) (steps : Written (List SequenceStep)) :
    (updateSteps id steps).Spares view :=
  (spares_ask _).bind fun _ => (onlyAsks_stepsOf _ _).spares.bind fun _ =>
    (onlyAsks_checkSteps _).spares.bind fun _ =>
      (spares_putSequence ignored _ _).bind fun _ => spares_pure _

end

section

variable (ignored : ∀ (graph : Graph) nextId paradigms,
  view { graph with nextId, paradigms } = view graph)

include ignored

theorem spares_putParadigm (id : Int) (paradigm : Paradigm) :
    (putParadigm id paradigm).Spares view :=
  spares_modify fun graph => ignored graph graph.nextId _

theorem spares_storeParadigm (paradigm : Paradigm) : (storeParadigm paradigm).Spares view :=
  (onlyAsks_checkCells _).spares.bind fun _ =>
    (spares_putParadigm ignored _ _).bind fun _ => spares_pure _

theorem spares_addGivenParadigm (requested : Data) (language : Text) (written : Option Text)
    (details : Fields) : (addGivenParadigm requested language written details).Spares view := by
  unfold addGivenParadigm
  refine (spares_ask _).bind fun _ => (onlyAsks_gridOf _).spares.bind fun _ => ?_
  refine (spares_allocateFor (fun graph nextId => ignored graph nextId graph.paradigms) _).bind
    fun id => ?_
  exact (spares_lift _).bind fun _ => spares_storeParadigm ignored _

theorem spares_addTemplate (paradigm : Paradigm) : (addTemplate paradigm).Spares view := by
  refine (spares_ask _).bind fun _ => ?_
  refine (spares_allocate (fun graph nextId => ignored graph nextId graph.paradigms) _).bind
    fun id => ?_
  exact spares_storeParadigm ignored _

theorem spares_setCell (id row column : Int) (rules : List Int) :
    (setCell id row column rules).Spares view :=
  (spares_ask _).bind fun _ =>
    (onlyAsks_forM fun rule _ => onlyAsks_checkRule rule).spares.bind fun _ =>
      (spares_lift _).bind fun _ =>
        (spares_putParadigm ignored _ _).bind fun _ => spares_pure _

end

section

variable (ignored : ∀ (graph : Graph) links, view { graph with links } = view graph)

include ignored

theorem spares_putLink (link : Link) : (putLink link).Spares view :=
  spares_modify fun graph => ignored graph _

theorem spares_enterLink (record : Fields) : (enterLink record).Spares view := by
  refine (onlyAsks_needField _ _).spares.bind fun source => ?_
  refine (onlyAsks_needField _ _).spares.bind fun target => ?_
  refine (onlyAsks_needField _ _).spares.bind fun kind => (spares_lift _).bind fun _ => ?_
  refine (spares_lift _).bind fun link => (onlyAsks_checkLink _).spares.bind fun _ => ?_
  refine onlyAsks_get.spares.bind fun _ => (onlyAsks_refuseIf _ _).spares.bind fun _ => ?_
  exact (spares_putLink ignored _).bind fun _ => spares_pure _

theorem spares_updateLink (link : Link) : (updateLink link).Spares view :=
  (onlyAsks_requireLink _).spares.bind fun _ => (onlyAsks_checkLink _).spares.bind fun _ =>
    (spares_putLink ignored _).bind fun _ => spares_pure _

theorem spares_deleteLink (key : LinkKey) : (deleteLink key).Spares view :=
  (onlyAsks_requireLink _).spares.bind fun _ => spares_modify fun graph => ignored graph _

end

theorem spares_enterCompound (ignored : ∀ (graph : Graph) nextId compounds,
    view { graph with nextId, compounds } = view graph) (record : Fields) :
    (enterCompound record).Spares view := by
  refine (onlyAsks_needField _ _).spares.bind fun whole => ?_
  refine (onlyAsks_needField _ _).spares.bind fun words => ?_
  refine (onlyAsks_needField _ _).spares.bind fun requested => ?_
  split
  · refine Spares.bind ?_ fun _ => ?_
    · exact (onlyAsks_forM fun word _ => onlyAsks_checkWordUnder word).spares
    refine (spares_lift _).bind fun whole => (spares_lift _).bind fun words => ?_
    refine Spares.bind ?_ fun _ => ?_
    · exact (onlyAsks_forM fun word _ => onlyAsks_checkWord word).spares
    refine (spares_allocateFor (fun graph nextId => ignored graph nextId graph.compounds) _).bind
      fun id => ?_
    exact Spares.bind (spares_modify fun graph => ignored graph graph.nextId _) fun _ => spares_pure _
  · exact (onlyAsks_throw _).spares

end Edit

namespace Mutation

open Edit

/-- What is seen of a graph without a look at the tables that a mutation is about. -/
def IsIgnoredBy (view : Graph → γ) : Mutation → Prop
  | addLanguage .. | setLanguage .. | addPhoneme .. | deletePhoneme .. =>
    ∀ (graph : Graph) languages, view { graph with languages } = view graph
  | addWord .. | updateWord .. =>
    ∀ (graph : Graph) nextId words, view { graph with nextId, words } = view graph
  | deleteWord .. => ∀ (graph : Graph) words links compounds,
    view { graph with words, links, compounds } = view graph
  | reserveRule .. | registerRules .. | addRule .. | updateRule .. =>
    ∀ (graph : Graph) nextId rules ruleNames,
      view { graph with nextId, rules, ruleNames } = view graph
  | deleteRule .. => ∀ (graph : Graph) rules ruleNames sequences paradigms links,
    view { graph with rules, ruleNames, sequences, paradigms, links } = view graph
  | addSequence .. | updateSteps .. =>
    ∀ (graph : Graph) nextId sequences, view { graph with nextId, sequences } = view graph
  | addParadigm .. | addTemplate .. | setCell .. =>
    ∀ (graph : Graph) nextId paradigms, view { graph with nextId, paradigms } = view graph
  | addLink .. | updateLink .. | deleteLink .. =>
    ∀ (graph : Graph) links, view { graph with links } = view graph
  | addCompound .. =>
    ∀ (graph : Graph) nextId compounds, view { graph with nextId, compounds } = view graph
  | advanceIds .. => ∀ (graph : Graph) nextId, view { graph with nextId } = view graph

/-- A mutation leaves alone what is not about it. -/
theorem spares_run {view : Graph → γ} {mutation : Mutation} (ignored : mutation.IsIgnoredBy view) :
    mutation.run.Spares view := by
  cases mutation with
  | addLanguage language isNamed => exact spares_addLanguage ignored language
  | setLanguage language field data => exact spares_setLanguage ignored language field data
  | addPhoneme language phoneme => exact spares_addPhoneme ignored language phoneme
  | deletePhoneme language spelling => exact spares_deletePhoneme ignored language spelling
  | addWord record => exact (spares_enterWord ignored record).passOver
  | updateWord id changes => exact (spares_updateWord ignored id changes).passOver
  | deleteWord id => exact spares_deleteWord ignored id
  | reserveRule name requested => exact (spares_reserveRule ignored name requested).passOver
  | registerRules names => exact (spares_registerRules ignored names).passOver
  | addRule record logic => exact (spares_enterRule ignored record logic).passOver
  | updateRule id text changes => exact (spares_updateRule ignored id text changes).passOver
  | deleteRule id => exact spares_deleteRule ignored id
  | addSequence steps record => exact (spares_enterSequence ignored _ record).passOver
  | updateSteps id steps => exact (spares_updateSteps ignored id steps).passOver
  | addParadigm requested language written details =>
      exact (spares_addGivenParadigm ignored requested language written details).passOver
  | addTemplate paradigm => exact (spares_addTemplate ignored paradigm).passOver
  | setCell id row column rules => exact (spares_setCell ignored id row column rules).passOver
  | addLink record => exact (spares_enterLink ignored record).passOver
  | updateLink link => exact (spares_updateLink ignored link).passOver
  | deleteLink key => exact spares_deleteLink ignored key
  | addCompound record => exact (spares_enterCompound ignored record).passOver
  | advanceIds nextId => exact spares_advanceIds ignored nextId

end Mutation

end Diachrony
