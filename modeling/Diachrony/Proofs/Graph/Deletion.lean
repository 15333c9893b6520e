import Diachrony.Proofs.Graph.Mutation

/-!
# What refers to a rule that was deleted

No cell, link, language or other rule refers to a rule that was deleted, and neither does
the alternative of a step.  A step still refers to it if the rule was its own alternative,
and then only.
-/
namespace Diachrony

open Edit

def SequenceStep.RefersTo (step : SequenceStep) (id : Int) : Prop :=
  step.rule = id ∨ step.alternative = some id

/-- Whether the rule of a step is its own alternative. -/
def SequenceStep.IsTwofold (step : SequenceStep) (id : Int) : Prop :=
  step.rule = id ∧ step.alternative = some id

instance (step : SequenceStep) (id : Int) : Decidable (step.IsTwofold id) :=
  inferInstanceAs (Decidable (_ ∧ _))

/-- What is left of a step refers to the rule only where the rule stood twice. -/
theorem SequenceStep.refersTo_withoutRule? {step after : SequenceStep} {id : Int}
    (isLeft : step.withoutRule? id = some after) :
    after.RefersTo id ↔ step.IsTwofold id := by
  unfold withoutRule? at isLeft
  unfold RefersTo IsTwofold
  split at isLeft
  · rename_i isRule
    obtain ⟨alternative, isAlternative, rfl⟩ := Option.map_eq_some_iff.mp isLeft
    simp [isRule, isAlternative]
  · rename_i notRule
    split at isLeft
    · cases isLeft
      simp [notRule]
    · rename_i notAlternative
      cases isLeft
      simp [notRule, notAlternative]

/-- A step with the same rule twice is left with it. -/
theorem SequenceStep.withoutRule?_of_isTwofold {step : SequenceStep} {id : Int}
    (isTwofold : step.IsTwofold id) :
    step.withoutRule? id = some { step with rule := id, alternative := none } := by
  obtain ⟨isRule, isAlternative⟩ := isTwofold
  unfold withoutRule?
  rw [if_pos isRule, isAlternative]
  rfl

/-- The alternative that takes the place of a rule has none itself. -/
theorem SequenceStep.alternative_withoutRule? {step after : SequenceStep} {id : Int}
    (isLeft : step.withoutRule? id = some after) : after.alternative ≠ some id := by
  unfold withoutRule? at isLeft
  split at isLeft
  · obtain ⟨alternative, -, rfl⟩ := Option.map_eq_some_iff.mp isLeft
    exact Option.some_ne_none id ∘ Eq.symm
  · split at isLeft
    · cases isLeft
      exact Option.some_ne_none id ∘ Eq.symm
    · rename_i notAlternative
      cases isLeft
      exact notAlternative

namespace RuleSequence

variable {sequence : RuleSequence} {id : Int}

theorem exists_refersTo_withoutRule :
    (∃ step ∈ (sequence.withoutRule id).steps, step.RefersTo id) ↔
      ∃ step ∈ sequence.steps, step.IsTwofold id := by
  constructor
  · rintro ⟨after, isMember, refers⟩
    obtain ⟨step, isStep, isLeft⟩ := List.mem_filterMap.mp isMember
    exact ⟨step, isStep, (SequenceStep.refersTo_withoutRule? isLeft).mp refers⟩
  · rintro ⟨step, isStep, isTwofold⟩
    have isLeft := SequenceStep.withoutRule?_of_isTwofold isTwofold
    exact ⟨_, List.mem_filterMap.mpr ⟨step, isStep, isLeft⟩,
      (SequenceStep.refersTo_withoutRule? isLeft).mpr isTwofold⟩

theorem alternative_withoutRule {step : SequenceStep}
    (isMember : step ∈ (sequence.withoutRule id).steps) : step.alternative ≠ some id := by
  obtain ⟨before, -, isLeft⟩ := List.mem_filterMap.mp isMember
  exact SequenceStep.alternative_withoutRule? isLeft

end RuleSequence

namespace Graph

/-- A graph in which nothing but the rules of steps may refer to a rule. -/
structure DoesWithout (graph : Graph) (id : Int) : Prop where
  notStored : graph.rules.contains id = false
  alternatives : ∀ sequence ∈ graph.sequences.values, ∀ step ∈ sequence.steps,
    step.alternative ≠ some id
  cells : ∀ paradigm ∈ graph.paradigms.values, id ∉ paradigm.grid.rules
  links : ∀ link ∈ graph.links.values, id ∉ link.rules
  languages : ∀ language ∈ graph.languages.values, id ∉ language.designatedRules
  rules : ∀ rule ∈ graph.rules.values, rule.id ≠ id → id ∉ rule.logic.references

end Graph

namespace Edit

variable {graph after : Graph} {id : Int}

/-- A rule that may be deleted is one that no language designates. -/
theorem notDesignated_of_deletionConflict? {rule : Rule}
    (noConflict : deletionConflict? graph id rule = none) {language : Language}
    (isMember : language ∈ graph.languages.values) : id ∉ language.designatedRules := by
  unfold deletionConflict? at noConflict
  rw [Option.orElse_eq_orElse, Option.orElse_eq_or, Option.or_eq_none_iff, Option.map_eq_none_iff,
    Option.map_eq_none_iff, List.head?_eq_none_iff, List.head?_eq_none_iff, List.filter_eq_nil_iff,
    List.filter_eq_nil_iff] at noConflict
  simpa using noConflict.2 language isMember

/-- Where a rule is deleted, it was stored and there was no conflict. -/
theorem deleteRule_eq_ok :
    (deleteRule id).on graph = (.ok (), after) ↔
      ∃ rule, graph.rules.get? id = some rule ∧ deletionConflict? graph id rule = none ∧
        after = withoutRule graph id rule.name := by
  unfold deleteRule
  rw [onlyAsks_get.on_bind_eq_ok]
  have isStored : ∀ rule, (ask (·.rule id)).on graph = (.ok rule, graph) ↔
      graph.rules.get? id = some rule := fun rule => on_ask_eq_ok.trans found_iff
  simp only [(onlyAsks_ask _).on_bind_eq_ok, isStored, (onlyAsks_refuse _).on_bind_eq_ok]
  constructor
  · rintro ⟨_, ⟨rfl⟩, rule, isFound, ⟨⟨⟩, passed, gave⟩⟩
    refine ⟨rule, isFound, ?_, ?_⟩
    · cases isConflict : deletionConflict? graph id rule with
      | none => rfl
      | some conflict =>
          rw [isConflict] at passed
          cases congrArg Prod.fst passed
    · exact (congrArg Prod.snd gave).symm
  · rintro ⟨rule, isFound, noConflict, rfl⟩
    refine ⟨graph, rfl, rule, isFound, (), ?_, rfl⟩
    rw [noConflict]
    rfl

theorem doesWithout_withoutRule {rule : Rule} (noConflict : deletionConflict? graph id rule = none) :
    (withoutRule graph id rule.name).DoesWithout id where
  notStored := by
    change (graph.rules.erase id).contains id = false
    rw [Table.contains_erase]
    simp
  alternatives := by
    change ∀ sequence ∈ (graph.sequences.mapValues (·.withoutRule id)).values, _
    rw [Table.values_mapValues]
    intro sequence isMember step isStep
    obtain ⟨before, -, rfl⟩ := List.mem_map.mp isMember
    exact RuleSequence.alternative_withoutRule isStep
  cells := by
    change ∀ paradigm ∈ (graph.paradigms.mapValues (·.withoutRule id)).values, _
    rw [Table.values_mapValues]
    intro paradigm isMember isRule
    obtain ⟨before, -, rfl⟩ := List.mem_map.mp isMember
    exact (Graph.mem_rules_eraseRule isRule).2 rfl
  links := by
    change ∀ link ∈ (graph.links.mapValues (·.withoutRule id)).values, _
    rw [Table.values_mapValues]
    intro link isMember isRule
    obtain ⟨before, -, rfl⟩ := List.mem_map.mp isMember
    exact bne_iff_ne.mp (List.mem_filter.mp isRule).2 rfl
  languages := fun _ isMember => notDesignated_of_deletionConflict? noConflict isMember
  rules := by
    intro other isMember differs isReferred
    have isMemberBefore : other ∈ graph.rules.values :=
      (List.filter_sublist.map Prod.snd).subset isMember
    have notUsed := notUsed_of_deletionConflict? noConflict isMemberBefore differs
    rw [List.contains_iff_mem.mpr isReferred] at notUsed
    cases notUsed

/-- When a rule has been deleted, nothing refers to it but what is left of the steps of which
it was both the rule and the alternative.  No stored rule carries its id, if each was stored
under the id that it carried. -/
theorem doesWithout_of_deleteRule (deleted : (deleteRule id).on graph = (.ok (), after)) :
    after.DoesWithout id ∧
      ((∃ sequence ∈ after.sequences.values, ∃ step ∈ sequence.steps, step.RefersTo id) ↔
        ∃ sequence ∈ graph.sequences.values, ∃ step ∈ sequence.steps, step.IsTwofold id) ∧
      ((∀ entry ∈ graph.rules.entries, entry.1 = entry.2.id) →
        ∀ rule ∈ after.rules.values, id ∉ rule.logic.references) := by
  obtain ⟨rule, -, noConflict, rfl⟩ := deleteRule_eq_ok.mp deleted
  have doesWithout := doesWithout_withoutRule noConflict
  refine ⟨doesWithout, ?_, fun areKeyed other isMember => ?_⟩
  · change (∃ sequence ∈ (graph.sequences.mapValues (·.withoutRule id)).values, _) ↔ _
    rw [Table.values_mapValues]
    simp only [List.mem_map, exists_exists_and_eq_and, RuleSequence.exists_refersTo_withoutRule]
  · refine doesWithout.rules other isMember ?_
    obtain ⟨entry, isEntry, rfl⟩ := List.mem_map.mp isMember
    obtain ⟨isEntry, differs⟩ := List.mem_filter.mp isEntry
    rw [← areKeyed entry isEntry]
    exact of_decide_eq_true differs

end Edit

/-- Two rules, in a sequence in all the ways that steps may have them, in a cell and on a link. -/
def Graph.referring : Graph := .ofRun [
  .addLanguage { name := "A", shortName := "a" } Mutation.isNamed_a,
  .addRule [("name", .text "r"), ("from_language", .text "a"), ("to_language", .null),
    ("text", .text "- no change"), ("id", .null)] none,
  .addRule [("name", .text "s"), ("from_language", .text "a"), ("to_language", .null),
    ("text", .text "- no change"), ("id", .null)] none,
  .addSequence (.text "r\ns|r\nr|s\nr|r") [("name", .text "q"), ("from_language", .text "a"),
    ("to_language", .text "a"), ("id", .null)],
  .addTemplate { id := 0, name := "p", language := "a", grid := { cells := [[[1, 2]]] } },
  .addWord [("text", .text "x"), ("language", .text "a"), ("id", .null)],
  .addLink [("from_id", .integer 5), ("to_id", .integer 5), ("type", .text "related"),
    ("rule_ids", .list [.integer 2, .integer 1])]]

namespace Edit

open Diachrony.Graph (referring)

/-- The step that had the rule twice is left with it. -/
theorem doesWithout_of_deleteRule_referring :
    ∃ after, (deleteRule 1).on referring = (.ok (), after) ∧ after.DoesWithout 1 ∧
      ∃ sequence ∈ after.sequences.values, ∃ step ∈ sequence.steps, step.RefersTo 1 := by
  have isDeleted : ((deleteRule 1).on referring).1.toOption = some () := by decide +kernel
  have deleted := on_of_toOption isDeleted
  obtain ⟨doesWithout, refers, -⟩ := doesWithout_of_deleteRule deleted
  refine ⟨_, deleted, doesWithout, refers.mpr ?_⟩
  decide +kernel

end Edit

end Diachrony
