import Diachrony.Consistency
import Diachrony.Proofs.Application.Independence

/-!
# Derivations do not depend on what was made before

As with single rules, what a sequence makes of a form, and what recorded rules make
of it, depends neither on the inventories that the work goes on from nor on anything
in the graph but its languages and rules.
-/
namespace Diachrony

open Work

variable {graph other : Graph} {marker : Text}

theorem Graph.Alike.rule (alike : Graph.Alike graph other) (id : Int) :
    other.rule id = graph.rule id := by
  simp only [Graph.rule, alike.rules]

namespace SequenceStep

def applyUnder (graph : Graph) (marker : Text) (form : WordForm) (id : Int) :
    Session (Rule × Outcome) := do
  let rule ← graph.rule id
  return (rule, ← graph.apply rule form marker)

/-- Of the rules, only those that are called matter, and of the form only what bears on
rules. -/
theorem agree_applyUnder_of_like {Called : Int → Prop} {Like : WordForm → WordForm → Prop}
    (isLikeness : WordForm.IsLikeness Like) (same : Graph.SameFor Called graph other) {id : Int}
    (isCalled : Called id) {form otherForm : WordForm} (like : Like form otherForm) :
    Agree graph.languages
      (fun made remade => remade.1 = made.1 ∧ Outcome.Alike Like made.2 remade.2)
      (applyUnder graph marker form id) (applyUnder other marker otherForm id) := by
  have sameRule : other.rule id = graph.rule id := by
    simp only [Graph.rule, same.rules id isCalled]
  unfold applyUnder
  rw [sameRule]
  refine agree_lookup fun rule isStored => ?_
  have areCalled := same.references id rule isCalled (Graph.found_eq_ok isStored)
  exact agree_bind
    (Graph.agree_applyWithin isLikeness same _ [] [] areCalled .wholeWord like)
    fun _ _ alike => agree_pure ⟨rfl, alike⟩

theorem agree_applyUnder_of_sameFor {Called : Int → Prop} (same : Graph.SameFor Called graph other)
    {id : Int} (isCalled : Called id) (form : WordForm) :
    Agree graph.languages (· = ·) (applyUnder graph marker form id)
        (applyUnder other marker form id) :=
  (agree_applyUnder_of_like WordForm.isLikeness_eq same isCalled rfl).mono
    fun _ _ ⟨sameRule, alike⟩ => Prod.ext sameRule.symm alike.eq

theorem agree_applyUnder (alike : Graph.Alike graph other) (form : WordForm) (id : Int)
    (marker : Text) :
    Agree graph.languages (· = ·) (applyUnder graph marker form id)
        (applyUnder other marker form id) :=
  agree_applyUnder_of_sameFor alike.sameFor trivial form

theorem agree_tryRules (alike : Graph.Alike graph other) (form : WordForm)
    (error : Option Error) (rules : List (Int × Bool)) :
    Agree graph.languages (· = ·) (tryRules graph marker form error rules)
      (tryRules other marker form error rules) := by
  induction rules generalizing error with
  | nil => exact agree_pure rfl
  | cons entry rules inductionHypothesis =>
      obtain ⟨id, isAlternative⟩ := entry
      refine agree_bind_eq (agree_settle (agree_applyUnder alike form id marker)) fun result => ?_
      cases result with
      | error failure => exact inductionHypothesis (some failure)
      | ok found =>
          exact agree_ite (fun _ => agree_pure rfl) fun _ => inductionHypothesis error

theorem agree_tryInTurn (alike : Graph.Alike graph other) (form : WordForm)
    (steps : List (Nat × SequenceStep)) :
    Agree graph.languages (· = ·) (tryInTurn graph marker form steps)
      (tryInTurn other marker form steps) := by
  have idle : @idleEntry other = @idleEntry graph := by
    funext form index step status error
    simp only [idleEntry, reportedName, alike.rules]
  induction steps with
  | nil => exact agree_pure rfl
  | cons entry steps inductionHypothesis =>
      obtain ⟨index, step⟩ := entry
      unfold tryInTurn
      rw [idle]
      refine agree_bind_eq (agree_tryRules alike form none _) fun attempt => ?_
      cases attempt with
      | taken rule isAlternative result => exact agree_pure rfl
      | declined error =>
          exact agree_bind_eq inductionHypothesis fun _ => agree_pure rfl

theorem agree_derivePositions (alike : Graph.Alike graph other) (source form : WordForm)
    (entries : List TraceEntry) (rules : List Int) (positions : List Position) :
    Agree graph.languages (· = ·)
      (derivePositions graph marker source form entries rules positions)
      (derivePositions other marker source form entries rules positions) := by
  induction positions generalizing form entries rules with
  | nil => exact agree_pure rfl
  | cons position positions inductionHypothesis =>
      refine agree_bind_eq (agree_tryInTurn alike form position.steps) fun tried => ?_
      obtain ⟨entries, choice?⟩ := tried
      cases choice? with
      | some choice => exact inductionHypothesis choice.form _ _
      | none =>
          exact agree_ite (fun _ => inductionHypothesis form _ rules) fun _ => agree_pure rfl

end SequenceStep

namespace Graph

theorem agree_derive (alike : Alike graph other) (sequence : RuleSequence)
    (form : WordForm) (marker : Text) :
    Agree graph.languages (· = ·) (graph.derive sequence form marker)
      (other.derive sequence form marker) :=
  SequenceStep.agree_derivePositions alike form form [] [] _

theorem agree_replay (alike : Alike graph other) (rules : List Int) (form : WordForm)
    (marker : Text) :
    Agree graph.languages (· = ·) (graph.replay form rules marker)
        (other.replay form rules marker) := by
  refine agree_foldlM (fun form id => ?_) rules form
  rw [alike.rule]
  exact agree_lookup fun rule _ =>
    agree_bind_eq (agree_apply alike rule form _) fun _ => agree_pure rfl

end Graph

end Diachrony
