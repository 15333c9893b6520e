import Diachrony.Proofs.Graph.Edits

/-!
# Graphs that a run of edits comes to

A mutation is one call of an edit.  It is regular if it leaves it to the graph to hand out
ids, takes rules as texts and assigns no field of what is stored.  Whatever regular
mutations are made, and whether they fail or not, the graph is orderly.
-/
namespace Diachrony

open Edit

def AsksNoId (record : Fields) : Prop := Record.get? record "id" = some .null

namespace Edit

open Record

/-- Adds a paradigm with the details that are given; the grid is one of them only where it
is not written. -/
def addGivenParadigm (requested : Data) (language : Text) (written : Option Text)
    (details : Fields) : Edit Paradigm :=
  let gridFields : List Text := if written.isSome then ["row_titles", "column_titles", "cells"] else []
  addParadigm requested language written fun paradigm =>
    assignKnown Paradigm.known paradigm (without ("id" :: "language" :: gridFields) details)

theorem needField_of_asksNoId {record : Fields} (noId : AsksNoId record) :
    needField record "id" = pure .null := by
  unfold needField require
  rw [show get? record "id" = some .null from noId]
  rfl

theorem onlyAsks_needField (record : Fields) (name : Text) : (needField record name).OnlyAsks :=
  onlyAsks_lift _

theorem keepsOrder_enterWord {record : Fields} (noId : AsksNoId record) :
    (enterWord record).KeepsOrder := by
  unfold enterWord
  refine (onlyAsks_needField _ _).keeps.bind fun text => ?_
  refine (onlyAsks_needField _ _).keeps.bind fun _ => ?_
  rw [needField_of_asksNoId noId, pure_bind]
  refine (onlyAsks_ask _).keeps.bind fun language => ?_
  refine keepsOrder_addWord fun word after gave => ?_
  refine assignKnown_induction (fun found => found.id = word.id ∧ found.language = word.language)
    ⟨rfl, rfl⟩ (fun before field next isMember isKnown same => ?_) gave
  have isOther : field.1 ≠ "id" ∧ field.1 ≠ "language" := by
    rcases List.mem_cons.mp isMember with rfl | isMember
    · change ("text" : Text) ≠ "id" ∧ ("text" : Text) ≠ "language"
      decide
    · have notNamed := not_mem_of_without isMember
      simp only [List.mem_cons, not_or] at notNamed
      exact ⟨notNamed.1, notNamed.2.2.1⟩
  have kept := Word.keeps_of_known isOther.1 isOther.2 isKnown
  exact ⟨kept.1.trans same.1, kept.2.trans same.2⟩

theorem keepsOrder_enterRule {record : Fields} (noId : AsksNoId record) :
    (enterRule record).KeepsOrder := by
  unfold enterRule
  refine (onlyAsks_needField _ _).keeps.bind fun name => ?_
  refine (onlyAsks_needField _ _).keeps.bind fun source => ?_
  refine (onlyAsks_needField _ _).keeps.bind fun target => ?_
  refine (onlyAsks_needField _ _).keeps.bind fun sourceText => ?_
  rw [needField_of_asksNoId noId, pure_bind]
  refine (onlyAsks_ask _).keeps.bind fun fromLanguage => ?_
  refine (onlyAsks_ask _).keeps.bind fun toLanguage => ?_
  exact keepsOrder_addRule rfl fun rule after gave => Rule.sameButDetails_of_assignKnown gave

theorem keepsOrder_enterSequence {record : Fields}
    (readSteps : Fields → Except Error (Written (List SequenceStep))) (noId : AsksNoId record) :
    (enterSequence readSteps record).KeepsOrder := by
  unfold enterSequence
  refine (onlyAsks_needField _ _).keeps.bind fun name => ?_
  refine (onlyAsks_needField _ _).keeps.bind fun source => ?_
  refine (onlyAsks_needField _ _).keeps.bind fun target => ?_
  refine (onlyAsks_lift _).keeps.bind fun steps => ?_
  rw [needField_of_asksNoId noId, pure_bind]
  refine (onlyAsks_ask _).keeps.bind fun fromLanguage => ?_
  refine (onlyAsks_ask _).keeps.bind fun toLanguage => ?_
  exact keepsOrder_addSequence fun sequence after gave => RuleSequence.keeps_of_assignKnown gave

theorem keepsOrder_enterLink (record : Fields) : (enterLink record).KeepsOrder := by
  unfold enterLink
  refine (onlyAsks_needField _ _).keeps.bind fun source => ?_
  refine (onlyAsks_needField _ _).keeps.bind fun target => ?_
  refine (onlyAsks_needField _ _).keeps.bind fun kind => ?_
  refine (onlyAsks_lift _).keeps.bind fun _ => ?_
  refine (onlyAsks_lift _).keeps.bind fun link => ?_
  exact keepsOrder_addLink link source target

theorem onlyAsks_checkWordUnder (data : Data) :
    (do let _ ← ask (·.wordUnder data) : Edit Unit).OnlyAsks :=
  (onlyAsks_ask _).bind fun _ => onlyAsks_pure _

theorem keepsOrder_enterCompound {record : Fields} (noId : AsksNoId record) :
    (enterCompound record).KeepsOrder := by
  unfold enterCompound
  refine (onlyAsks_needField _ _).keeps.bind fun whole => ?_
  refine (onlyAsks_needField _ _).keeps.bind fun components => ?_
  rw [needField_of_asksNoId noId, pure_bind]
  split
  · refine Keeps.bind ?_ fun _ => ?_
    · exact keeps_forM fun word _ => (onlyAsks_checkWordUnder word).keeps
    · refine (onlyAsks_lift _).keeps.bind fun whole => ?_
      refine (onlyAsks_lift _).keeps.bind fun components => ?_
      exact keepsOrder_addCompound whole components
  · exact (onlyAsks_throw _).keeps

/-- What a paradigm is given when it is added says nothing about its id and its language. -/
theorem keeps_of_paradigmDetails {names : List Text} {details : Fields} {paradigm after : Paradigm}
    (gave : assignKnown Paradigm.known paradigm (without ("id" :: "language" :: names) details) =
      .ok after) : after.id = paradigm.id ∧ after.language = paradigm.language := by
  refine assignKnown_induction
    (fun found => found.id = paradigm.id ∧ found.language = paradigm.language)
    ⟨rfl, rfl⟩ (fun before field next isMember isKnown same => ?_) gave
  have notNamed := not_mem_of_without isMember
  simp only [List.mem_cons, not_or] at notNamed
  have isOther : field.1 ≠ "id" ∧ field.1 ≠ "language" := ⟨notNamed.1, notNamed.2.1⟩
  have kept := Paradigm.keeps_of_known isOther.1 isOther.2 isKnown
  exact ⟨kept.1.trans same.1, kept.2.trans same.2⟩

theorem keepsOrder_addGivenParadigm (language : Text) (written : Option Text) (details : Fields) :
    (addGivenParadigm .null language written details).KeepsOrder := by
  unfold addGivenParadigm
  exact keepsOrder_addParadigm fun paradigm after gave => keeps_of_paradigmDetails gave

end Edit

/-- One call of an edit. -/
inductive Mutation where
  | addLanguage (language : Language) (isNamed : language.shortName ≠ [])
  | setLanguage (language field : Text) (data : Data)
  | addPhoneme (language : Text) (phoneme : Phoneme)
  | deletePhoneme (language spelling : Text)
  | addWord (record : Fields)
  | updateWord (id : Int) (changes : Fields)
  | deleteWord (id : Int)
  | reserveRule (name requested : Data)
  | registerRules (names : List Text)
  | addRule (record : Fields) (logic : Option Logic)
  | updateRule (id : Int) (text : Option Text) (changes : Fields)
  | deleteRule (id : Int)
  | addSequence (steps : Written (List SequenceStep)) (record : Fields)
  | updateSteps (id : Int) (steps : Written (List SequenceStep))
  | addParadigm (requested : Data) (language : Text) (written : Option Text) (details : Fields)
  | addTemplate (paradigm : Paradigm)
  | setCell (id row column : Int) (rules : List Int)
  | addLink (record : Fields)
  | updateLink (link : Link)
  | deleteLink (key : LinkKey)
  | addCompound (record : Fields)
  | advanceIds (nextId : Int)

namespace Mutation

/-- The languages of the examples have short names. -/
theorem isNamed_a : ("a" : Text) ≠ [] := by decide

theorem isNamed_b : ("b" : Text) ≠ [] := by decide

def run : Mutation → Edit Unit
  | addLanguage language _ => Edit.addLanguage language
  | setLanguage language field data => Edit.setLanguage language field data
  | addPhoneme language phoneme => Edit.addPhoneme language phoneme
  | deletePhoneme language spelling => Edit.deletePhoneme language spelling
  | addWord record => do let _ ← enterWord record
  | updateWord id changes => do let _ ← Edit.updateWord id changes
  | deleteWord id => Edit.deleteWord id
  | reserveRule name requested => do let _ ← Edit.reserveRule name requested
  | registerRules names => do let _ ← Edit.registerRules names
  | addRule record logic => do let _ ← enterRule record logic
  | updateRule id text changes => do let _ ← Edit.updateRule id text changes
  | deleteRule id => Edit.deleteRule id
  | addSequence steps record => do let _ ← enterSequence (fun _ => .ok steps) record
  | updateSteps id steps => do let _ ← Edit.updateSteps id steps
  | addParadigm requested language written details => do
    let _ ← addGivenParadigm requested language written details
  | addTemplate paradigm => do let _ ← Edit.addTemplate paradigm
  | setCell id row column rules => do let _ ← Edit.setCell id row column rules
  | addLink record => do let _ ← enterLink record
  | updateLink link => do let _ ← Edit.updateLink link
  | deleteLink key => Edit.deleteLink key
  | addCompound record => do let _ ← enterCompound record
  | advanceIds nextId => Edit.advanceIds nextId

/-- A mutation that leaves ids to the graph, takes rules as texts and assigns no fields. -/
def IsRegular : Mutation → Prop
  | setLanguage .. => False
  | addWord record | addSequence _ record | addCompound record => AsksNoId record
  | addRule record logic => AsksNoId record ∧ logic = none
  | updateWord _ changes | updateRule _ _ changes => changes = []
  | reserveRule _ requested | addParadigm requested .. => requested = .null
  | addTemplate paradigm => paradigm.id ≤ 0
  | _ => True

theorem keepsOrder_run {mutation : Mutation} (isRegular : mutation.IsRegular) :
    mutation.run.KeepsOrder := by
  cases mutation with
  | addLanguage language isNamed => exact keepsOrder_addLanguage isNamed
  | setLanguage language field data => exact isRegular.elim
  | addPhoneme language phoneme => exact keepsOrder_addPhoneme language phoneme
  | deletePhoneme language spelling => exact keepsOrder_deletePhoneme language spelling
  | addWord record => exact (keepsOrder_enterWord isRegular).passOver
  | updateWord id changes =>
      cases isRegular
      exact Keeps.passOver (((onlyAsks_pure _).bind fun _ => onlyAsks_ask _).keeps)
  | deleteWord id => exact keepsOrder_deleteWord id
  | reserveRule name requested =>
      cases isRegular
      exact (keepsOrder_reserveRule name).passOver
  | registerRules names => exact (keepsOrder_registerRules names).passOver
  | addRule record logic =>
      obtain ⟨noId, rfl⟩ := isRegular
      exact (keepsOrder_enterRule noId).passOver
  | updateRule id text changes =>
      cases isRegular
      exact (keepsOrder_updateRule id text).passOver
  | deleteRule id => exact keepsOrder_deleteRule id
  | addSequence steps record => exact (keepsOrder_enterSequence _ isRegular).passOver
  | updateSteps id steps => exact (keepsOrder_updateSteps id steps).passOver
  | addParadigm requested language written details =>
      cases isRegular
      exact (keepsOrder_addGivenParadigm language written details).passOver
  | addTemplate paradigm => exact (keepsOrder_addTemplate isRegular).passOver
  | setCell id row column rules => exact (keepsOrder_setCell id row column rules).passOver
  | addLink record => exact (keepsOrder_enterLink record).passOver
  | updateLink link => exact (keepsOrder_updateLink link).passOver
  | deleteLink key => exact keepsOrder_deleteLink key
  | addCompound record => exact (keepsOrder_enterCompound isRegular).passOver
  | advanceIds nextId => exact keepsOrder_advanceIds nextId

end Mutation

namespace Graph

/-- A graph that a run of mutations of some kind comes to from the empty one.  A mutation
that fails has changed what it had changed until then. -/
inductive IsReachedBy (Allowed : Mutation → Prop) : Graph → Prop
  | empty : IsReachedBy Allowed {}
  | mutate {graph : Graph} {mutation : Mutation} (isAllowed : Allowed mutation)
    (isReached : IsReachedBy Allowed graph) : IsReachedBy Allowed (mutation.run.on graph).2

/-- What holds of the empty graph, and is kept by each mutation, holds after a run of them. -/
theorem IsReachedBy.kept {Allowed : Mutation → Prop} {Kept : Graph → Prop} {graph : Graph}
    (isReached : graph.IsReachedBy Allowed) (isKept : Kept {})
    (keeps : ∀ mutation, Allowed mutation → mutation.run.Keeps Kept) : Kept graph := by
  induction isReached with
  | empty => exact isKept
  | mutate isAllowed _ inductionHypothesis =>
      exact (keeps _ isAllowed).on inductionHypothesis

def ofRun (mutations : List Mutation) : Graph :=
  mutations.foldl (fun graph mutation => (mutation.run.on graph).2) {}

theorem isReachedBy_ofRun {Allowed : Mutation → Prop} {mutations : List Mutation}
    (areAllowed : ∀ mutation ∈ mutations, Allowed mutation) :
    (ofRun mutations).IsReachedBy Allowed := by
  unfold ofRun
  have goesOn : ∀ graph : Graph, graph.IsReachedBy Allowed →
      (mutations.foldl (fun graph mutation => (mutation.run.on graph).2) graph).IsReachedBy
        Allowed := by
    induction mutations with
    | nil => exact fun _ isReached => isReached
    | cons mutation mutations inductionHypothesis =>
        intro graph isReached
        obtain ⟨isAllowed, areAllowed⟩ := List.forall_mem_cons.mp areAllowed
        exact inductionHypothesis areAllowed _ (isReached.mutate isAllowed)
  exact goesOn {} .empty

/-- A graph that some run of mutations comes to. -/
def IsReachable (graph : Graph) : Prop := graph.IsReachedBy fun _ => True

/-- A graph that some run of regular mutations comes to. -/
def IsReachedRegularly (graph : Graph) : Prop := graph.IsReachedBy Mutation.IsRegular

/-- Every graph that a run of regular mutations comes to is orderly. -/
theorem IsReachedRegularly.isOrderly {graph : Graph} (isReached : graph.IsReachedRegularly) :
    graph.IsOrderly :=
  isReached.kept isOrderly_empty fun _ isRegular => Mutation.keepsOrder_run isRegular

end Graph

end Diachrony
