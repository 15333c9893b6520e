import Diachrony.Proofs.Derivation.Trace

/-!
# Errors in a trace

The rules of a step are tried in turn, and each of them applies, does not apply or fails.  Where
none applies, the entry of the step keeps the last error, whatever its status.  Where one does,
the entry keeps none: if the rule of a step fails and its alternative applies, nothing in the
trace tells of the error.
-/
namespace Diachrony

open Work

namespace SequenceStep

/-- What comes of the rules of a step: the errors of those that failed, in their order, and
whether one has applied. -/
structure Trial where
  errors : List Error
  isTaken : Bool

/-- The trial of a step that comes behind the one that was taken. -/
def Trial.omitted : Trial := ⟨[], false⟩

def Trial.behind (trial : Trial) (failure : Error) : Trial :=
  { trial with errors := failure :: trial.errors }

def Trial.kept (trial : Trial) : Option Error :=
  if trial.isTaken then none else trial.errors.getLast?

/-- The trial of some rules on a form, up to the first one that applies. -/
inductive Tries (graph : Graph) (marker : Text) (form : WordForm) :
    Inventories → List Int → Trial → Inventories → Prop
  | exhausted (made : Inventories) : Tries graph marker form made [] ⟨[], false⟩ made
  | applies {made left : Inventories} {id : Int} {rule : Rule} {next : WordForm}
      (ids : List Int) :
      (applyUnder graph marker form id).on made = (.ok (rule, ⟨true, next⟩), left) →
      Tries graph marker form made (id :: ids) ⟨[], true⟩ left
  | passes {made between left : Inventories} {id : Int} {rule : Rule} {next : WordForm}
      {ids : List Int} {trial : Trial} :
      (applyUnder graph marker form id).on made = (.ok (rule, ⟨false, next⟩), between) →
      Tries graph marker form between ids trial left →
      Tries graph marker form made (id :: ids) trial left
  | fails {made between left : Inventories} {id : Int} {failure : Error} {ids : List Int}
      {trial : Trial} :
      (applyUnder graph marker form id).on made = (.error failure, between) →
      failure.isRecordable = true → Tries graph marker form between ids trial left →
      Tries graph marker form made (id :: ids) (trial.behind failure) left

/-- The trials of some steps on a form: those behind the first one that is taken are left out. -/
inductive Rounds (graph : Graph) (marker : Text) (form : WordForm) :
    Inventories → List SequenceStep → List Trial → Inventories → Prop
  | ends (made : Inventories) : Rounds graph marker form made [] [] made
  | takes {made left : Inventories} {step : SequenceStep} {trial : Trial}
      (steps : List SequenceStep) :
      Tries graph marker form made step.rules trial left → trial.isTaken = true →
      Rounds graph marker form made (step :: steps) (trial :: steps.map fun _ => .omitted) left
  | declines {made between left : Inventories} {step : SequenceStep} {trial : Trial}
      {steps : List SequenceStep} {trials : List Trial} :
      Tries graph marker form made step.rules trial between → trial.isTaken = false →
      Rounds graph marker form between steps trials left →
      Rounds graph marker form made (step :: steps) (trial :: trials) left

variable {graph : Graph} {marker : Text} {form : WordForm} {made left : Inventories}

/-- What an attempt says of a trial, where there was an error before it perhaps. -/
def Attempt.Ends (error : Option Error) (trial : Trial) : Attempt → Prop
  | .taken .. => trial.isTaken = true
  | .declined last => trial.isTaken = false ∧ last = trial.errors.getLast?.or error

theorem Attempt.Ends.behind {attempt : Attempt} {failure : Error} {trial : Trial}
    (ends : attempt.Ends (some failure) trial) (error : Option Error) :
    attempt.Ends error (trial.behind failure) := by
  cases attempt with
  | taken => exact ends
  | declined last =>
      obtain ⟨notTaken, rfl⟩ := ends
      refine ⟨notTaken, ?_⟩
      rw [Trial.behind, List.getLast?_cons, Option.or_some, Option.some_or]

theorem tries_of_tryRules {rules : List (Int × Bool)} {error : Option Error} {attempt : Attempt}
    (gave : (tryRules graph marker form error rules).on made = (.ok attempt, left)) :
    ∃ trial, Tries graph marker form made (rules.map Prod.fst) trial left ∧
        attempt.Ends error trial := by
  induction rules generalizing made error with
  | nil =>
      cases gave
      exact ⟨_, .exhausted _, rfl, rfl⟩
  | cons entry rules inductionHypothesis =>
      obtain ⟨id, marked⟩ := entry
      obtain ⟨result, between, settled, wentOn⟩ := on_bind_eq_ok.mp gave
      obtain ⟨applied, areRecordable⟩ := on_settle_eq_ok.mp settled
      cases result with
      | error failure =>
          obtain ⟨trial, tries, ends⟩ := inductionHypothesis wentOn
          exact ⟨_, .fails applied (areRecordable failure rfl) tries, ends.behind error⟩
      | ok found =>
          obtain ⟨rule, hasApplied, next⟩ := found
          cases hasApplied with
          | true =>
              cases wentOn
              exact ⟨_, .applies _ applied, rfl⟩
          | false =>
              obtain ⟨trial, tries, ends⟩ := inductionHypothesis wentOn
              exact ⟨trial, .passes applied tries, ends⟩

theorem tries_of_attempt {step : SequenceStep} {attempt : Attempt}
    (gave : (step.attempt graph marker form).on made = (.ok attempt, left)) :
    ∃ trial, Tries graph marker form made step.rules trial left ∧ attempt.Ends none trial := by
  obtain ⟨trial, tries, ends⟩ := tries_of_tryRules gave
  refine ⟨trial, ?_, ends⟩
  simpa [rules, Function.comp_def] using tries

/-- An entry tells of a trial whether something was taken, and what is kept of the errors. -/
structure Trial.IsRecorded (trial : Trial) (entry : TraceEntry) : Prop where
  taken : entry.status.isTaken = trial.isTaken
  error : entry.error = trial.kept

/-- Of some errors one is kept if and only if nothing was taken. -/
theorem Trial.kept_eq_none_iff {trial : Trial} (haveFailed : trial.errors ≠ []) :
    trial.kept = none ↔ trial.isTaken = true := by
  unfold kept
  split
  · rename_i isTaken
    exact iff_of_true rfl isTaken
  · rename_i notTaken
    exact iff_of_false (mt List.getLast?_eq_none_iff.mp haveFailed) notTaken

theorem isRecorded_omitted (index : Nat) (step : SequenceStep) :
    Trial.omitted.IsRecorded (idleEntry graph form index step .skipped) := ⟨rfl, rfl⟩

theorem isRecorded_declined {trial : Trial} (notTaken : trial.isTaken = false) (index : Nat)
    (step : SequenceStep) :
    trial.IsRecorded (idleEntry graph form index step
      (if trial.errors.getLast?.isSome then .failed else .skipped) trial.errors.getLast?) where
  taken := by
    rw [notTaken]
    unfold idleEntry
    split <;> rfl
  error := by
    rw [Trial.kept, notTaken]
    rfl

/-- Each step has an entry that tells of its trial. -/
theorem rounds_of_tryInTurn {steps : List (Nat × SequenceStep)} {tried : List TraceEntry}
    {choice? : Option Choice}
    (gave : (tryInTurn graph marker form steps).on made = (.ok (tried, choice?), left)) :
    ∃ trials, Rounds graph marker form made (steps.map Prod.snd) trials left ∧
      List.Forall₂ Trial.IsRecorded trials tried ∧
      (choice? = none → ∀ trial ∈ trials, trial.isTaken = false) := by
  induction steps generalizing made tried with
  | nil =>
      cases gave
      exact ⟨[], .ends _, .nil, fun _ _ isTrial => nomatch isTrial⟩
  | cons entry steps inductionHypothesis =>
      obtain ⟨index, step⟩ := entry
      obtain ⟨attempt, between, attempted, wentOn⟩ := on_bind_eq_ok.mp gave
      obtain ⟨trial, tries, ends⟩ := tries_of_attempt attempted
      cases attempt with
      | taken rule isAlternative next =>
          cases wentOn
          have isTaken : trial.isTaken = true := ends
          have isRecorded : trial.IsRecorded ⟨index, rule.id, rule.name,
              step.takenStatus isAlternative, form.text, next.text, none⟩ :=
            ⟨(isTaken_takenStatus step isAlternative).trans isTaken.symm, (if_pos isTaken).symm⟩
          refine ⟨_, .takes _ tries isTaken, .cons isRecorded ?_, fun isNone => nomatch isNone⟩
          rw [List.map_map, List.forall₂_map_left_iff, List.forall₂_map_right_iff,
            List.forall₂_same]
          exact fun entry _ => isRecorded_omitted entry.1 entry.2
      | declined last =>
          obtain ⟨notTaken, isLast⟩ := ends
          rw [Option.or_none] at isLast
          subst isLast
          obtain ⟨⟨later, chosen?⟩, after, laterTried, paired⟩ := on_bind_eq_ok.mp wentOn
          cases paired
          obtain ⟨trials, rounds, areRecorded, areDeclined⟩ := inductionHypothesis laterTried
          exact ⟨trial :: trials, .declines tries notTaken rounds,
            .cons (isRecorded_declined notTaken index step) areRecorded,
            fun isNone => List.forall_mem_cons.mpr ⟨notTaken, areDeclined isNone⟩⟩

/-- The first entry of a position is written over where a derivation halts, but not its
error. -/
theorem areRecorded_haltedEntries {trials : List Trial} {tried : List TraceEntry}
    (areRecorded : List.Forall₂ Trial.IsRecorded trials tried)
    (areDeclined : ∀ trial ∈ trials, trial.isTaken = false) :
    List.Forall₂ Trial.IsRecorded trials (haltedEntries tried) := by
  cases areRecorded with
  | nil => exact .nil
  | cons isRecorded areRecorded =>
      have notTaken := areDeclined _ List.mem_cons_self
      exact .cons ⟨notTaken.symm, isRecorded.error⟩ areRecorded

theorem Visit.IsTried.exists_rounds {visit : Visit} (isTried : visit.IsTried graph marker) :
    ∃ trials,
      Rounds graph marker visit.input visit.made (visit.position.steps.map Prod.snd) trials
          visit.left ∧
      List.Forall₂ Trial.IsRecorded trials visit.entries := by
  obtain ⟨tried, gave, sameEntries⟩ := isTried
  obtain ⟨trials, rounds, areRecorded, areDeclined⟩ := rounds_of_tryInTurn gave
  refine ⟨trials, rounds, ?_⟩
  rw [sameEntries]
  by_cases isPassed : visit.isPassed = true
  · rw [if_pos isPassed]
    exact areRecorded
  · rw [if_neg isPassed]
    have noneTaken : visit.taken? = none := by
      rw [Visit.isPassed, Bool.or_eq_true, not_or] at isPassed
      simpa using isPassed.1
    rw [noneTaken] at areDeclined
    exact areRecorded_haltedEntries areRecorded (areDeclined rfl)

end SequenceStep

namespace Graph

open SequenceStep

variable {graph : Graph} {marker : Text}

/-- Each entry of a derivation tells of the trial of its step.  If rules of the step have failed,
the entry has an error, the last one, if and only if no rule of the step was taken. -/
theorem derive_records_errors {sequence : RuleSequence} {form : WordForm} {made left : Inventories}
    {derivation : Derivation}
    (derived : (graph.derive sequence form marker).on made = (.ok derivation, left)) :
    ∃ positions visits, Divides sequence.steps positions ∧
      Passage graph marker form made positions visits derivation.haltedAt derivation.result left ∧
      derivation.entries = visits.flatMap Visit.entries ∧
      ∀ visit ∈ visits, ∃ trials,
        Rounds graph marker visit.input visit.made (visit.position.steps.map Prod.snd) trials
          visit.left ∧
        List.Forall₂ (fun trial entry => trial.IsRecorded entry ∧
          (trial.errors ≠ [] → (entry.error = none ↔ trial.isTaken = true)))
          trials visit.entries := by
  obtain ⟨visits, passage, sameEntries, -, areTried⟩ := visits_of_derivePositions derived
  rw [List.nil_append] at sameEntries
  refine ⟨_, visits, divides_positions sequence.steps, passage, sameEntries, ?_⟩
  intro visit isVisit
  obtain ⟨trials, rounds, areRecorded⟩ := (areTried visit isVisit).exists_rounds
  refine ⟨trials, rounds, areRecorded.imp fun trial entry isRecorded => ⟨isRecorded, ?_⟩⟩
  rw [isRecorded.error]
  exact Trial.kept_eq_none_iff

/-- The rule of the first step fails and its alternative applies; the rule of the last one fails,
and there is none.  Of these errors only the last one is kept. -/
theorem derive_records_errors_reservedRules :
    ∃ derivation left visits positions,
      ((twoRules 1 "b").derive reservedRules { text := "xk", language := "b" }).on {} =
        (.ok derivation, left) ∧
      ((applyUnder (twoRules 1 "b") usualMarker { text := "xk", language := "b" } 2).on
          {}).1.toOption.isNone ∧
      derivation.entries.map (fun entry => (entry.status, entry.error.isSome)) =
        [(.alternative, false), (.skipped, false), (.halted, true)] ∧
      Divides reservedRules.steps positions ∧
      Passage (twoRules 1 "b") usualMarker { text := "xk", language := "b" } {} positions visits
        derivation.haltedAt derivation.result left ∧
      derivation.entries = visits.flatMap Visit.entries ∧
      ∀ visit ∈ visits, ∃ trials,
        Rounds (twoRules 1 "b") usualMarker visit.input visit.made
            (visit.position.steps.map Prod.snd) trials
          visit.left ∧
        List.Forall₂ (fun trial entry => trial.IsRecorded entry ∧
          (trial.errors ≠ [] → (entry.error = none ↔ trial.isTaken = true)))
          trials visit.entries := by
  have seen : ((((twoRules 1 "b").derive reservedRules
      { text := "xk", language := "b" }).on {}).1.toOption.map fun derivation =>
        derivation.entries.map fun entry => (entry.status, entry.error.isSome)) =
      some [(.alternative, false), (.skipped, false), (.halted, true)] := by
    decide +kernel
  obtain ⟨derivation, derived, same⟩ := Except.exists_of_toOption_map seen
  have ran : ((twoRules 1 "b").derive reservedRules { text := "xk", language := "b" }).on {} =
      (.ok derivation, _) := Prod.ext derived rfl
  obtain ⟨positions, visits, isDivided, passage, entries, areRecorded⟩ := derive_records_errors ran
  exact ⟨derivation, _, visits, positions, ran, by decide +kernel, same, isDivided, passage,
    entries, areRecorded⟩

end Graph

end Diachrony
