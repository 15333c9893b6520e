import Diachrony.Graph.Entry
import Diachrony.Proofs.Edit
import Diachrony.Proofs.Graph.Orderly

/-!
# What is checked before something is stored

The checks only ask, and they are passed by what has all that it refers to in the graph.
-/
namespace Diachrony

namespace Edit

variable {α : Type} {graph : Graph}

/-- What an edit was seen to give it gave. -/
theorem on_of_toOption {edit : Edit α} {value : α} (isSeen : (edit.on graph).1.toOption = some value) :
    edit.on graph = (.ok value, (edit.on graph).2) :=
  Prod.ext (Except.toOption_eq_some.mp isSeen) rfl

theorem found_iff {kind : EntityKind} {identifier : Text} {value? : Option α} {value : α} :
    Graph.found kind identifier value? = .ok value ↔ value? = some value := by
  constructor
  · exact Graph.found_eq_ok
  · rintro rfl
    rfl

theorem on_ask_eq_ok {query : Graph → Except Error α} {value : α} :
    (ask query).on graph = (.ok value, graph) ↔ query graph = .ok value := by
  rw [on_ask, Prod.mk.injEq]
  exact and_iff_left rfl

/-- What is asked for, and then passed over, is there. -/
theorem on_asked_eq_ok {query : Graph → Except Error α} :
    (ask query >>= fun _ => pure ()).on graph = (.ok (), graph) ↔
      ∃ value, query graph = .ok value := by
  rw [(onlyAsks_ask query).on_bind_eq_ok]
  simp only [on_ask_eq_ok, on_pure, and_true]

theorem exists_found_iff {κ : Type} [DecidableEq κ] {kind : EntityKind} {identifier : Text}
    {table : Table κ α} {key : κ} :
    (∃ value, Graph.found kind identifier (table.get? key) = .ok value) ↔
      table.contains key = true := by
  simp only [found_iff]
  exact Option.isSome_iff_exists.symm

theorem exists_language {name : Text} (isStored : graph.languages.contains name = true) :
    ∃ language, graph.language name = .ok language :=
  exists_found_iff.mpr isStored

theorem languageName_text {name : Text} (isStored : graph.languages.contains name = true) :
    graph.languageName (.text name) = .ok name := by
  obtain ⟨language, isFound⟩ := exists_language isStored
  change (graph.language name >>= fun _ => pure name) = .ok name
  rw [isFound]
  rfl

theorem onlyAsks_refuseIf (isConflicting : Bool) (conflict : Conflict) :
    (refuseIf isConflicting conflict).OnlyAsks := onlyAsks_refuse _

theorem on_refuseIf_eq_ok {isConflicting : Bool} {conflict : Conflict} :
    (refuseIf isConflicting conflict).on graph = (.ok (), graph) ↔ isConflicting = false := by
  cases isConflicting with
  | true => exact iff_of_false (fun gave => nomatch congrArg Prod.fst gave) Bool.noConfusion
  | false => exact iff_of_true rfl rfl

theorem onlyAsks_keyOf (field : Text) (data : Data) : (keyOf field data).OnlyAsks := by
  unfold keyOf
  split
  · exact onlyAsks_pure _
  · exact onlyAsks_throw _

theorem key?_of_keyOf {field : Text} {data : Data} {key : Key} {after : Graph}
    (gave : (keyOf field data).on graph = (.ok key, after)) : data.key? = some key := by
  unfold keyOf at gave
  split at gave
  · rename_i found isKey
    cases gave
    exact isKey
  · cases gave

theorem onlyAsks_requireLink (key : LinkKey) : (requireLink key).OnlyAsks := by
  unfold requireLink
  refine onlyAsks_get.bind fun graph => ?_
  split
  · exact onlyAsks_throw _
  · exact onlyAsks_pure _

theorem onlyAsks_checkRule (id : Int) :
    (do let _ ← ask (·.rule id) : Edit Unit).OnlyAsks :=
  (onlyAsks_ask _).bind fun _ => onlyAsks_pure _

theorem onlyAsks_checkSequence (id : Int) :
    (do let _ ← ask (·.sequence id) : Edit Unit).OnlyAsks :=
  (onlyAsks_ask _).bind fun _ => onlyAsks_pure _

theorem onlyAsks_checkLink (link : Link) : (checkLink link).OnlyAsks := by
  unfold checkLink
  refine (onlyAsks_ask _).bind fun _ => (onlyAsks_ask _).bind fun _ => ?_
  refine OnlyAsks.bind (onlyAsks_forM fun rule _ => onlyAsks_checkRule rule) fun _ => ?_
  exact onlyAsks_forM_option onlyAsks_checkSequence

/-- A link passes the check if it belongs in the graph. -/
theorem checkLink_eq_ok {link : Link} :
    (checkLink link).on graph = (.ok (), graph) ↔ link.BelongsIn graph := by
  have areRules : (link.rules.forM fun rule => do let _ ← ask (·.rule rule)).on graph =
      (.ok (), graph) ↔ ∀ id ∈ link.rules, graph.rules.contains id = true := by
    rw [on_forM_eq_ok fun rule _ => onlyAsks_checkRule rule]
    exact forall₂_congr fun _ _ => on_asked_eq_ok.trans exists_found_iff
  have isSequence : (link.sequence.forM fun sequence => do let _ ← ask (·.sequence sequence)).on graph =
      (.ok (), graph) ↔ ∀ id, link.sequence = some id → graph.sequences.contains id = true := by
    cases link.sequence with
    | none => exact iff_of_true rfl fun _ isNone => nomatch isNone
    | some id =>
        refine (on_asked_eq_ok.trans exists_found_iff).trans ⟨?_, fun isStored => isStored id rfl⟩
        rintro isStored _ ⟨rfl⟩
        exact isStored
  have isWord : ∀ id, (∃ word, (ask (·.word id)).on graph = (.ok word, graph)) ↔
      graph.words.contains id = true := by
    intro id
    simp only [on_ask_eq_ok]
    exact exists_found_iff
  unfold checkLink
  rw [(onlyAsks_ask _).on_bind_eq_ok]
  simp only [(onlyAsks_ask _).on_bind_eq_ok,
    (onlyAsks_forM fun rule _ => onlyAsks_checkRule rule).on_bind_eq_ok]
  constructor
  · rintro ⟨source, isSource, target, isTarget, ⟨⟩, areStored, isStored⟩
    exact ⟨(isWord _).mp ⟨source, isSource⟩, (isWord _).mp ⟨target, isTarget⟩, areRules.mp areStored,
      isSequence.mp isStored⟩
  · rintro ⟨isSource, isTarget, areStored, isStored⟩
    obtain ⟨source, isSource⟩ := (isWord _).mpr isSource
    obtain ⟨target, isTarget⟩ := (isWord _).mpr isTarget
    exact ⟨source, isSource, target, isTarget, (), areRules.mpr areStored, isSequence.mpr isStored⟩

theorem onlyAsks_checkCells (paradigm : Paradigm) : (checkCells paradigm).OnlyAsks := by
  unfold checkCells
  exact onlyAsks_get.bind fun _ => onlyAsks_refuse _

theorem checkCells_eq_ok {paradigm : Paradigm} :
    (checkCells paradigm).on graph = (.ok (), graph) ↔
      ∀ id ∈ paradigm.grid.rules, graph.rules.contains id = true := by
  unfold checkCells
  rw [onlyAsks_get.on_bind_eq_ok]
  constructor
  · rintro ⟨_, ⟨rfl⟩, gave⟩ id isMember
    cases isMissing : paradigm.grid.rules.find? fun rule => !graph.rules.contains rule with
    | none => simpa using List.find?_eq_none.mp isMissing id isMember
    | some rule =>
        dsimp only at gave
        rw [isMissing] at gave
        cases congrArg Prod.fst gave
  · intro areStored
    refine ⟨graph, rfl, ?_⟩
    have noneMissing : (paradigm.grid.rules.find? fun rule => !graph.rules.contains rule) = none := by
      refine List.find?_eq_none.mpr fun id isMember => ?_
      rw [areStored id isMember]
      exact Bool.false_ne_true
    dsimp only
    rw [noneMissing]
    rfl

theorem onlyAsks_checkAlternative (sequence : RuleSequence) (index : Nat) (rule : Rule) (id : Int) :
    (checkAlternative sequence index rule id).OnlyAsks := by
  unfold checkAlternative
  exact (onlyAsks_ask _).bind fun _ => onlyAsks_refuseIf _ _

theorem onlyAsks_checkStep (sequence : RuleSequence) (index : Nat) (step : SequenceStep) :
    (checkStep sequence index step).OnlyAsks := by
  unfold checkStep
  refine (onlyAsks_ask _).bind fun _ => (onlyAsks_refuseIf _ _).bind fun _ => ?_
  exact onlyAsks_forM_option (onlyAsks_checkAlternative _ _ _)

theorem onlyAsks_checkSteps (sequence : RuleSequence) : (checkSteps sequence).OnlyAsks :=
  onlyAsks_forM fun _ _ => onlyAsks_checkStep _ _ _

theorem checkStep_eq_ok {sequence : RuleSequence} {index : Nat} {step : SequenceStep} :
    (checkStep sequence index step).on graph = (.ok (), graph) ↔ step.FitsIn graph sequence := by
  have isAlternative : ∀ rule : Rule,
      (step.alternative.forM (checkAlternative sequence index rule)).on graph = (.ok (), graph) ↔
        ∀ id, step.alternative = some id →
          ∃ other, graph.rules.get? id = some other ∧ other.matchesLanguages rule = true := by
    intro rule
    cases step.alternative with
    | none => exact iff_of_true rfl fun _ isNone => nomatch isNone
    | some id =>
        change (checkAlternative sequence index rule id).on graph = _ ↔ _
        unfold checkAlternative
        rw [(onlyAsks_ask _).on_bind_eq_ok]
        simp only [on_ask_eq_ok, on_refuseIf_eq_ok, Bool.not_eq_false', Option.some.injEq,
          forall_eq']
        exact exists_congr fun other => and_congr_left' found_iff
  unfold checkStep SequenceStep.FitsIn
  rw [(onlyAsks_ask _).on_bind_eq_ok]
  refine exists_congr fun rule => and_congr (on_ask_eq_ok.trans found_iff) ?_
  rw [(onlyAsks_refuseIf _ _).on_bind_eq_ok]
  constructor
  · rintro ⟨⟨⟩, fits, isOther⟩
    have fits := on_refuseIf_eq_ok.mp fits
    exact ⟨by simpa using fits, (isAlternative rule).mp isOther⟩
  · rintro ⟨fits, isOther⟩
    exact ⟨(), on_refuseIf_eq_ok.mpr (by simpa using fits), (isAlternative rule).mpr isOther⟩

/-- The steps of a sequence pass the check if all of them fit. -/
theorem checkSteps_eq_ok {sequence : RuleSequence} :
    (checkSteps sequence).on graph = (.ok (), graph) ↔
      ∀ step ∈ sequence.steps, step.FitsIn graph sequence := by
  unfold checkSteps
  rw [on_forM_eq_ok fun _ _ => onlyAsks_checkStep _ _ _]
  simp only [checkStep_eq_ok]
  constructor
  · intro areFit step isMember
    rw [← List.zipIdx_map_fst 0 sequence.steps] at isMember
    obtain ⟨entry, isEntry, rfl⟩ := List.mem_map.mp isMember
    exact areFit entry isEntry
  · intro areFit entry isMember
    exact areFit entry.1 (List.fst_mem_of_mem_zipIdx isMember)

end Edit

end Diachrony
