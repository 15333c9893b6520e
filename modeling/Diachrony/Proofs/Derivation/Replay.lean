import Diachrony.Proofs.Derivation.Independence
import Diachrony.Recording

/-!
# A derivation replays

A derivation mixes rules that apply with alternatives, skipped steps, dispreferred
fallbacks and rules that fail; what it records is the list of the rules that
applied.  Run one after the other, these rules make of the starting form what the
derivation made of it, and each of them applies on the way.

This asks that rules and languages stand under the ids and short names they go by:
the record of a derivation tells rules by the ids that they carry, and an inventory is
kept under the short name that its language carries.
-/
namespace Diachrony

open Work

namespace Graph

/-- Every stored rule carries the id it is stored under, and every stored language
goes by the short name it is stored under. -/
structure KeepsNames (graph : Graph) : Prop where
  ruleIds : ∀ id rule, graph.rules.get? id = some rule → rule.id = id
  shortNames : KeepShortNames graph.languages

/-- What some rules come to when they are run one after the other. -/
def outcomes (graph : Graph) (marker : Text) : WordForm → List Int → Session (List Outcome)
  | _, [] => return []
  | form, id :: rules => do
    let outcome ← graph.apply (← graph.rule id) form marker
    return outcome :: (← graph.outcomes marker outcome.form rules)

/-- Rules lead from one form to another one: each of them is stored, and applies to
what those before it have made. -/
inductive Leads (graph : Graph) (marker : Text) : WordForm → List Int → WordForm → Prop
  | nowhere (form : WordForm) : Leads graph marker form [] form
  | on {form next result : WordForm} {id : Int} {rule : Rule} {rules : List Int} :
      graph.rules.get? id = some rule →
      (graph.apply rule form marker).result = .ok ⟨true, next⟩ →
      Leads graph marker next rules result →
      Leads graph marker form (id :: rules) result

variable {graph other : Graph} {marker : Text}

theorem rule_eq_ok {id : Int} {rule : Rule} (stored : graph.rules.get? id = some rule) :
    graph.rule id = .ok rule := by
  simp only [Graph.rule, stored, found]

theorem replay_cons (form : WordForm) {id : Int} {rule : Rule} {rules : List Int}
    (stored : graph.rules.get? id = some rule) :
    graph.replay form (id :: rules) marker =
      (graph.apply rule form marker >>= fun outcome => pure outcome.form) >>=
        fun form => graph.replay form rules marker := by
  unfold Graph.replay
  rw [List.foldlM_cons, rule_eq_ok stored]
  rfl

theorem Leads.replay {form result : WordForm} {rules : List Int}
    (shortNames : KeepShortNames graph.languages) (leads : graph.Leads marker form rules result) :
    (graph.replay form rules marker).result = .ok result := by
  induction leads with
  | nowhere form => rfl
  | @on form next result id rule rules stored applied leads inductionHypothesis =>
      have agreed := agree_apply (Alike.refl shortNames) rule form
      have goesOn : ∀ outcome : Outcome, Agree graph.languages (· = ·)
          (pure outcome.form : Session WordForm) (pure outcome.form) :=
        fun _ => agree_pure rfl
      rw [replay_cons form stored,
        result_bind (agree_bind_eq (agreed _) goesOn)
          fun form => agree_replay (Alike.refl shortNames) rules form marker,
        result_bind (agreed _) goesOn, applied]
      exact inductionHypothesis

theorem agree_outcomes (alike : Alike graph other) (rules : List Int) (form : WordForm) :
    Agree graph.languages (· = ·) (graph.outcomes marker form rules)
      (other.outcomes marker form rules) := by
  induction rules generalizing form with
  | nil => exact agree_pure rfl
  | cons id rules inductionHypothesis =>
      unfold outcomes
      rw [alike.rule]
      refine agree_lookup fun rule _ => ?_
      refine agree_bind_eq (agree_apply alike rule form _) fun outcome => ?_
      exact agree_bind_eq (inductionHypothesis outcome.form) fun _ => agree_pure rfl

theorem Leads.outcomes {form result : WordForm} {rules : List Int}
    (shortNames : KeepShortNames graph.languages) (leads : graph.Leads marker form rules result) :
    ∃ outcomes, (graph.outcomes marker form rules).result = .ok outcomes ∧
      outcomes.length = rules.length ∧ ∀ outcome ∈ outcomes, outcome.applied = true := by
  have alike := Alike.refl shortNames
  induction leads with
  | nowhere form => exact ⟨[], rfl, rfl, by simp⟩
  | @on form next result id rule rules stored applied leads inductionHypothesis =>
      obtain ⟨outcomes, areOutcomes, sameLength, allApplied⟩ := inductionHypothesis
      refine ⟨⟨true, next⟩ :: outcomes, ?_, by simp [sameLength], by simpa using allApplied⟩
      unfold Graph.outcomes
      rw [rule_eq_ok stored]
      change ((graph.apply rule form marker >>= _ : Session (List Outcome))).result = _
      rw [result_bind (agree_apply alike rule form _) fun outcome =>
          agree_bind_eq (agree_outcomes alike rules outcome.form) fun _ => agree_pure rfl,
        applied]
      change ((graph.outcomes marker next rules >>= _ : Session (List Outcome))).result = _
      rw [result_bind (agree_outcomes alike rules next) fun _ => agree_pure rfl, areOutcomes]
      rfl

/-- Rules lead the same way in a graph with the same languages and rules. -/
theorem Leads.of_alike {form result : WordForm} {rules : List Int}
    (alike : Alike graph other) (leads : graph.Leads marker form rules result) :
    other.Leads marker form rules result := by
  induction leads with
  | nowhere form => exact .nowhere form
  | @on form next result id rule rules stored applied leads inductionHypothesis =>
      refine .on (alike.rules ▸ stored) ?_ inductionHypothesis
      rw [← applied]
      exact ((agree_apply alike rule form _).result_eq (Inventories.areOf_empty _)).symm

end Graph

namespace SequenceStep

open Diachrony.Graph

variable {graph : Graph} {marker : Text}

theorem applyUnder_eq_ok (shortNames : KeepShortNames graph.languages) {form : WordForm}
    {id : Int} {rule : Rule} {outcome : Outcome} :
    (applyUnder graph marker form id).result = .ok (rule, outcome) ↔
      graph.rules.get? id = some rule ∧ (graph.apply rule form marker).result = .ok outcome := by
  unfold applyUnder
  cases isStored : graph.rules.get? id with
  | none =>
      simp only [Graph.rule, isStored, found]
      refine iff_of_false (fun gave => ?_) ?_
      · cases gave
      · rintro ⟨isSome, -⟩
        cases isSome
  | some stored =>
      have inTurn : (graph.apply stored form marker >>= fun outcome =>
          (pure (stored, outcome) : Session (Rule × Outcome))).result =
            (graph.apply stored form marker).result >>= fun outcome => .ok (stored, outcome) :=
        result_bind (agree_apply (Alike.refl shortNames) stored form _)
          fun _ => agree_pure rfl
      rw [rule_eq_ok isStored]
      change (graph.apply stored form marker >>= _).result = _ ↔ _
      rw [inTurn, Except.bind_eq_ok]
      constructor
      · rintro ⟨given, applied, ⟨⟩⟩
        exact ⟨rfl, applied⟩
      · rintro ⟨⟨⟩, applied⟩
        exact ⟨outcome, applied, rfl⟩

/-- A rule that is taken is a stored one that applies. -/
theorem taken_applies (shortNames : KeepShortNames graph.languages) {form next : WordForm}
    {error : Option Error} {rules : List (Int × Bool)} {rule : Rule} {isAlternative : Bool}
    (tried : (tryRules graph marker form error rules).result =
      .ok (.taken rule isAlternative next)) :
    ∃ id, graph.rules.get? id = some rule ∧
      (graph.apply rule form marker).result = .ok ⟨true, next⟩ := by
  have alike := Alike.refl shortNames
  induction rules generalizing error with
  | nil => cases tried
  | cons entry rules inductionHypothesis =>
      obtain ⟨id, marked⟩ := entry
      obtain ⟨result, settled, wentOn⟩ := result_bind_ok
        (agree_settle (agree_applyUnder alike form id marker))
        (fun result => by
          cases result with
          | error failure => exact agree_tryRules alike form _ rules
          | ok found =>
              exact agree_ite (fun _ => agree_pure rfl) fun _ =>
                agree_tryRules alike form _ rules) tried
      rw [result_settle] at settled
      cases result with
      | error failure => exact inductionHypothesis wentOn
      | ok found =>
          obtain ⟨stored, outcome⟩ := found
          obtain ⟨isStored, applied⟩ := (applyUnder_eq_ok shortNames).mp (Error.settle_eq_ok settled)
          dsimp only at wentOn
          split at wentOn
          · obtain ⟨hasApplied, form⟩ := outcome
            rename_i itApplied
            cases itApplied
            cases wentOn
            exact ⟨id, isStored, applied⟩
          · exact inductionHypothesis wentOn

/-- The step that a position takes makes its form of the one before, by a stored rule. -/
theorem choice_applies (keepsNames : graph.KeepsNames) {form : WordForm}
    {steps : List (Nat × SequenceStep)} {tried : List TraceEntry} {choice : Choice}
    (took : (tryInTurn graph marker form steps).result = .ok (tried, some choice)) :
    ∃ rule, graph.rules.get? choice.rule = some rule ∧
      (graph.apply rule form marker).result = .ok ⟨true, choice.form⟩ := by
  have alike := Alike.refl keepsNames.shortNames
  induction steps generalizing tried with
  | nil => cases took
  | cons entry steps inductionHypothesis =>
      obtain ⟨index, step⟩ := entry
      obtain ⟨attempt, attempted, wentOn⟩ := result_bind_ok
        (agree_tryRules alike form none _)
        (fun attempt => by
          cases attempt with
          | taken rule isAlternative next => exact agree_pure rfl
          | declined error =>
              exact agree_bind_eq (agree_tryInTurn alike form steps) fun _ => agree_pure rfl)
        took
      cases attempt with
      | taken rule isAlternative next =>
          obtain ⟨id, isStored, applied⟩ := taken_applies keepsNames.shortNames attempted
          cases wentOn
          have same := keepsNames.ruleIds id rule isStored
          exact ⟨rule, same ▸ isStored, applied⟩
      | declined error =>
          obtain ⟨⟨later, choice?⟩, found, paired⟩ := result_bind_ok
            (agree_tryInTurn alike form steps) (fun _ => agree_pure rfl) wentOn
          cases paired
          exact inductionHypothesis found

/-- Behind the rules that are recorded so far, a derivation records rules that lead
from the form so far to its result. -/
theorem derivePositions_leads (keepsNames : graph.KeepsNames) {source form : WordForm}
    {entries : List TraceEntry} {rules : List Int} {positions : List Position}
    {derivation : Derivation}
    (derived : (derivePositions graph marker source form entries rules positions).result =
      .ok derivation) :
    ∃ later, derivation.appliedRules = rules ++ later ∧
      graph.Leads marker form later derivation.result := by
  have alike := Alike.refl keepsNames.shortNames
  induction positions generalizing form entries rules with
  | nil =>
      cases derived
      exact ⟨[], (List.append_nil rules).symm, .nowhere form⟩
  | cons position positions inductionHypothesis =>
      obtain ⟨⟨tried, choice?⟩, took, wentOn⟩ := result_bind_ok
        (agree_tryInTurn alike form position.steps)
        (fun tried => by
          obtain ⟨tried, choice?⟩ := tried
          cases choice? with
          | some choice => exact agree_derivePositions alike source _ _ _ positions
          | none =>
              exact agree_ite (fun _ => agree_derivePositions alike source _ _ _ positions)
                fun _ => agree_pure rfl) derived
      cases choice? with
      | some choice =>
          obtain ⟨rule, isStored, applied⟩ := choice_applies keepsNames took
          obtain ⟨later, recorded, leads⟩ := inductionHypothesis wentOn
          refine ⟨choice.rule :: later, ?_, .on isStored applied leads⟩
          rw [recorded, List.append_assoc, List.singleton_append]
      | none =>
          dsimp only at wentOn
          split at wentOn
          · exact inductionHypothesis wentOn
          · cases wentOn
            exact ⟨[], (List.append_nil rules).symm, .nowhere form⟩

end SequenceStep

namespace Graph

variable {graph : Graph} {marker : Text}

/-- What a derivation records leads from the form it starts at to its result. -/
theorem derive_leads (keepsNames : graph.KeepsNames) {sequence : RuleSequence}
    {form : WordForm} {derivation : Derivation}
    (derived : (graph.derive sequence form marker).result = .ok derivation) :
    graph.Leads marker form derivation.appliedRules derivation.result := by
  obtain ⟨rules, recorded, leads⟩ := SequenceStep.derivePositions_leads keepsNames derived
  rw [List.nil_append] at recorded
  exact recorded ▸ leads

end Graph

end Diachrony
