import Diachrony.Proofs.Derivation.Composition

/-!
# The course of a derivation

Where every language goes by the short name it is stored under, it does not matter which
inventories were made before, and a complete derivation can be told step by step without
them.  What goes from one step to the next is the form, and how its position stands: whether
a rule of it has applied, and if not, whether one has to.

A course is told in this way of a list of steps, with the rule that each step applied, if it
applied one.  That a derivation is complete and that there is a course from its form to its
result come to the same.
-/
namespace Diachrony

open Work

def Rule.report (rule : Rule) : Int × Text := (rule.id, rule.name)

def TraceEntry.taken? (entry : TraceEntry) : Option (Int × Text) :=
  if entry.status.isTaken then some (entry.rule, entry.ruleName) else none

namespace SequenceStep

/-- The rule with an id does not apply to a form, or is not there, or fails otherwise. -/
def Idles (graph : Graph) (marker : Text) (form : WordForm) (id : Int) : Prop :=
  match (applyUnder graph marker form id).result with
  | .ok (_, outcome) => outcome.applied = false
  | .error failure => failure.isRecordable = true

/-- The first of the rules with some ids that applies to a form, and what it makes of it. -/
inductive FirstApplying (graph : Graph) (marker : Text) (form : WordForm) :
    List Int → Option (Rule × WordForm) → Prop
  | exhausted : FirstApplying graph marker form [] none
  | applies {id : Int} {rule : Rule} {next : WordForm} (ids : List Int)
      (applied : (applyUnder graph marker form id).result = .ok (rule, ⟨true, next⟩)) :
      FirstApplying graph marker form (id :: ids) (some (rule, next))
  | idles {id : Int} {ids : List Int} {found? : Option (Rule × WordForm)}
      (idles : Idles graph marker form id) (first : FirstApplying graph marker form ids found?) :
      FirstApplying graph marker form (id :: ids) found?

def Attempt.taken? : Attempt → Option (Rule × WordForm)
  | .taken rule _ next => some (rule, next)
  | .declined _ => none

variable {graph : Graph} {marker : Text}

theorem firstApplying_cons_of_applies {form next : WordForm} {id : Int} {rule : Rule}
    (applied : (applyUnder graph marker form id).result = .ok (rule, ⟨true, next⟩)) {ids : List Int}
    {found? : Option (Rule × WordForm)} :
    FirstApplying graph marker form (id :: ids) found? ↔ found? = some (rule, next) := by
  constructor
  · rintro (_ | ⟨_, gave⟩ | ⟨idles, _⟩)
    · cases applied.symm.trans gave
      rfl
    · rw [Idles, applied] at idles
      cases idles
  · rintro rfl
    exact .applies ids applied

theorem firstApplying_cons_of_idles {form : WordForm} {id : Int}
    (idles : Idles graph marker form id)
    {ids : List Int} {found? : Option (Rule × WordForm)} :
    FirstApplying graph marker form (id :: ids) found? ↔
        FirstApplying graph marker form ids found? := by
  constructor
  · rintro (_ | ⟨_, gave⟩ | ⟨_, first⟩)
    · rw [Idles, gave] at idles
      cases idles
    · exact first
  · exact .idles idles

theorem not_firstApplying_of_error {form : WordForm} {id : Int} {failure : Error}
    (failed : (applyUnder graph marker form id).result = .error failure)
    (notRecordable : failure.isRecordable = false) {ids : List Int}
    {found? : Option (Rule × WordForm)} : ¬FirstApplying graph marker form (id :: ids) found? := by
  rintro (_ | ⟨_, gave⟩ | ⟨idles, _⟩)
  · cases failed.symm.trans gave
  · rw [Idles, failed] at idles
    cases notRecordable.symm.trans idles

theorem result_tryRules_cons (shortNames : KeepShortNames graph.languages) (form : WordForm)
    (error : Option Error) (id : Int) (marked : Bool) (rules : List (Int × Bool)) :
    (tryRules graph marker form error ((id, marked) :: rules)).result =
      Error.settle (applyUnder graph marker form id).result >>= fun result =>
        match result with
        | .error failure => (tryRules graph marker form (some failure) rules).result
        | .ok (rule, outcome) =>
          if outcome.applied then .ok (.taken rule marked outcome.form)
          else (tryRules graph marker form error rules).result := by
  have alike := Graph.Alike.refl shortNames
  refine (result_bind (agree_settle (agree_applyUnder alike form id marker))
    fun result => ?_).trans ?_
  · cases result with
    | error failure => exact agree_tryRules alike form (some failure) rules
    | ok found =>
        exact agree_ite (fun _ => agree_pure rfl) fun _ => agree_tryRules alike form error rules
  · rw [result_settle]
    refine bind_congr fun result => ?_
    cases result with
    | error failure => rfl
    | ok found =>
        dsimp only
        split <;> rfl

theorem firstApplying_iff (shortNames : KeepShortNames graph.languages) (form : WordForm)
    (error : Option Error) (rules : List (Int × Bool)) (found? : Option (Rule × WordForm)) :
    FirstApplying graph marker form (rules.map Prod.fst) found? ↔
      ∃ attempt, (tryRules graph marker form error rules).result = .ok attempt ∧
        attempt.taken? = found? := by
  induction rules generalizing error with
  | nil =>
      constructor
      · rintro ⟨⟩
        exact ⟨_, rfl, rfl⟩
      · rintro ⟨_, ⟨⟩, rfl⟩
        exact .exhausted
  | cons entry rules inductionHypothesis =>
      obtain ⟨id, marked⟩ := entry
      rw [result_tryRules_cons shortNames, List.map_cons]
      cases answered : (applyUnder graph marker form id).result with
      | error failure =>
          cases isRecordable : failure.isRecordable with
          | true =>
              have idles : Idles graph marker form id := by
                rw [Idles, answered]
                exact isRecordable
              rw [firstApplying_cons_of_idles idles, Error.settle, if_pos isRecordable]
              exact inductionHypothesis (some failure)
          | false =>
              refine iff_of_false (not_firstApplying_of_error answered isRecordable) ?_
              rw [Error.settle, isRecordable]
              rintro ⟨_, ⟨⟩, _⟩
      | ok found =>
          obtain ⟨rule, applied, next⟩ := found
          cases applied with
          | true =>
              rw [firstApplying_cons_of_applies answered]
              constructor
              · rintro rfl
                exact ⟨_, rfl, rfl⟩
              · rintro ⟨_, ⟨⟩, rfl⟩
                rfl
          | false =>
              have idles : Idles graph marker form id := by
                rw [Idles, answered]
              rw [firstApplying_cons_of_idles idles]
              exact inductionHypothesis error

theorem firstApplying_iff_attempt (shortNames : KeepShortNames graph.languages) (form : WordForm)
    (step : SequenceStep) (found? : Option (Rule × WordForm)) :
    FirstApplying graph marker form step.rules found? ↔
      ∃ attempt, (step.attempt graph marker form).result = .ok attempt ∧
        attempt.taken? = found? := by
  have inTurn := @firstApplying_iff graph marker shortNames form none
    ((step.rule, false) :: step.alternative.toList.map fun id => (id, true)) found?
  have sameRules : (((step.rule, false) :: step.alternative.toList.map fun id => (id, true)).map
      Prod.fst) = step.rules := by
    simp [rules, Function.comp_def]
  rwa [sameRules] at inTurn

/-- The first of some steps of which a rule applies to a form, with what each step applied. -/
inductive FirstTaken? (graph : Graph) (marker : Text) (form : WordForm) :
    List SequenceStep → List (Option Rule) → Option (Rule × WordForm) → Prop
  | exhausted : FirstTaken? graph marker form [] [] none
  | takes {step : SequenceStep} {rule : Rule} {next : WordForm} (steps : List SequenceStep)
      (first : FirstApplying graph marker form step.rules (some (rule, next))) :
      FirstTaken? graph marker form (step :: steps) (some rule :: steps.map fun _ => none)
        (some (rule, next))
  | declines {step : SequenceStep} {steps : List SequenceStep} {taken : List (Option Rule)}
      {found? : Option (Rule × WordForm)} (first : FirstApplying graph marker form step.rules none)
      (later : FirstTaken? graph marker form steps taken found?) :
      FirstTaken? graph marker form (step :: steps) (none :: taken) found?

theorem taken?_idleEntry (form : WordForm) (index : Nat) (step : SequenceStep)
    {status : StepStatus} (notTaken : status.isTaken = false) (error : Option Error) :
    (idleEntry graph form index step status error).taken? = none := by
  simp [TraceEntry.taken?, idleEntry, notTaken]

theorem result_tryInTurn_cons (shortNames : KeepShortNames graph.languages) (form : WordForm)
    (index : Nat) (step : SequenceStep) (steps : List (Nat × SequenceStep)) :
    (tryInTurn graph marker form ((index, step) :: steps)).result =
      (step.attempt graph marker form).result >>= fun attempt =>
        match attempt with
        | .taken rule isAlternative next =>
          .ok (⟨index, rule.id, rule.name, step.takenStatus isAlternative, form.text, next.text,
              none⟩ :: steps.map fun (index, step) => idleEntry graph form index step .skipped,
            some ⟨rule.id, next⟩)
        | .declined error =>
          (tryInTurn graph marker form steps).result >>= fun (tried, choice?) =>
            .ok (idleEntry graph form index step (if error.isSome then .failed else .skipped)
              error :: tried, choice?) := by
  have alike := Graph.Alike.refl shortNames
  have later := @agree_tryInTurn graph graph marker alike form steps
  refine (result_bind (agree_tryRules alike form none _) fun attempt => ?_).trans ?_
  · cases attempt with
    | taken => exact agree_pure rfl
    | declined error => exact agree_bind_eq later fun _ => agree_pure rfl
  · refine bind_congr fun attempt => ?_
    cases attempt with
    | taken => rfl
    | declined error => exact result_bind later fun _ => agree_pure rfl

/-- What a rule that was found to apply comes to in a derivation. -/
def choiceOf (found : Rule × WordForm) : Choice := ⟨found.1.id, found.2⟩

theorem map_taken?_skipped (form : WordForm) (steps : List (Nat × SequenceStep)) :
    (steps.map fun (index, step) => idleEntry graph form index step .skipped).map
      TraceEntry.taken? =
        ((steps.map Prod.snd).map fun _ => none).map (Option.map Rule.report) := by
  rw [List.map_map, List.map_map, List.map_map]
  exact List.map_congr_left fun entry _ => taken?_idleEntry form entry.1 entry.2 rfl none

theorem taken?_takenStatus (index : Nat) (rule : Rule) (step : SequenceStep)
    (isAlternative : Bool) (before after : Text) :
    TraceEntry.taken? ⟨index, rule.id, rule.name, step.takenStatus isAlternative, before, after,
      none⟩ = some rule.report :=
  if_pos (isTaken_takenStatus step isAlternative)

theorem exists_of_firstTaken? (shortNames : KeepShortNames graph.languages) {form : WordForm}
    {steps : List (Nat × SequenceStep)} {taken : List (Option Rule)}
    {found? : Option (Rule × WordForm)}
    (first : FirstTaken? graph marker form (steps.map Prod.snd) taken found?) :
    ∃ tried, (tryInTurn graph marker form steps).result = .ok (tried, found?.map choiceOf) ∧
      tried.map TraceEntry.taken? = taken.map (Option.map Rule.report) := by
  induction steps generalizing taken with
  | nil =>
      cases first
      exact ⟨[], rfl, rfl⟩
  | cons entry steps inductionHypothesis =>
      obtain ⟨index, step⟩ := entry
      rw [result_tryInTurn_cons shortNames]
      cases first with
      | takes _ applying =>
          obtain ⟨attempt, attempted, isTaken⟩ :=
            (firstApplying_iff_attempt shortNames form step _).mp applying
          cases attempt with
          | declined error => cases isTaken
          | taken rule isAlternative next =>
              cases isTaken
              rw [attempted]
              refine ⟨_, rfl, ?_⟩
              rw [List.map_cons, taken?_takenStatus, map_taken?_skipped]
              rfl
      | declines applying later =>
          obtain ⟨attempt, attempted, isTaken⟩ :=
            (firstApplying_iff_attempt shortNames form step _).mp applying
          cases attempt with
          | taken => cases isTaken
          | declined error =>
              obtain ⟨tried, gave, same⟩ := inductionHypothesis later
              rw [attempted]
              refine ⟨idleEntry graph form index step (if error.isSome then .failed else .skipped)
                error :: tried, ?_, ?_⟩
              · change (tryInTurn graph marker form steps).result >>= _ = _
                rw [gave]
                rfl
              · rw [List.map_cons, taken?_idleEntry, same]
                · rfl
                · cases error <;> rfl

theorem firstTaken?_of_tryInTurn (shortNames : KeepShortNames graph.languages) {form : WordForm}
    {steps : List (Nat × SequenceStep)} {tried : List TraceEntry} {choice? : Option Choice}
    (gave : (tryInTurn graph marker form steps).result = .ok (tried, choice?)) :
    ∃ taken found?, FirstTaken? graph marker form (steps.map Prod.snd) taken found? ∧
      choice? = found?.map choiceOf ∧
      tried.map TraceEntry.taken? = taken.map (Option.map Rule.report) := by
  induction steps generalizing tried with
  | nil =>
      cases gave
      exact ⟨[], none, .exhausted, rfl, rfl⟩
  | cons entry steps inductionHypothesis =>
      obtain ⟨index, step⟩ := entry
      rw [result_tryInTurn_cons shortNames] at gave
      obtain ⟨attempt, attempted, wentOn⟩ := Except.bind_eq_ok.mp gave
      have applying := (firstApplying_iff_attempt shortNames form step _).mpr
        ⟨attempt, attempted, rfl⟩
      cases attempt with
      | taken rule isAlternative next =>
          cases wentOn
          refine ⟨_, _, .takes _ applying, rfl, ?_⟩
          rw [List.map_cons, taken?_takenStatus, map_taken?_skipped]
          rfl
      | declined error =>
          obtain ⟨⟨later, chosen?⟩, gaveLater, paired⟩ := Except.bind_eq_ok.mp wentOn
          cases paired
          obtain ⟨taken, found?, first, isChoice, same⟩ := inductionHypothesis gaveLater
          refine ⟨none :: taken, found?, .declines applying first, isChoice, ?_⟩
          rw [List.map_cons, taken?_idleEntry, same]
          · rfl
          · cases error <;> rfl

/-- How a position stands: no rule of it has applied and none has to, or one has to still, or
one has applied. -/
inductive Standing where
  | idle | owing | served
  deriving DecidableEq

/-- Whether a step is tried, or passed over since its position is served, where a step that
is not dispreferred opens a position of its own. -/
def Standing.serves (standing : Standing) (step : SequenceStep) : Bool :=
  step.dispreferred && standing == .served

/-- Whether the position before may be left for a step. -/
def Standing.admits (standing : Standing) (step : SequenceStep) : Bool :=
  step.dispreferred || standing != .owing

def Standing.behind (standing : Standing) (step : SequenceStep) : Standing :=
  if step.dispreferred then standing else if step.optional then .idle else .owing

theorem Standing.admits_of_ne_owing {standing : Standing} (isClear : standing ≠ .owing)
    (step : SequenceStep) : standing.admits step = true := by
  simp [admits, isClear]

theorem Standing.behind_ne_owing {standing : Standing} (isClear : standing ≠ .owing)
    {step : SequenceStep} (mayBeLeftOut : step.optional = true ∨ step.dispreferred = true) :
    standing.behind step ≠ .owing := by
  cases isFallback : step.dispreferred with
  | true => simpa [behind, isFallback] using isClear
  | false =>
      have isOptional : step.optional = true := by
        simpa [isFallback] using mayBeLeftOut
      simp [behind, isFallback, isOptional]

/-- The course of a complete derivation through some steps, with the rule that each step
applied, from the form and the standing in front of them to the form behind them. -/
inductive Course (graph : Graph) (marker : Text) :
    Standing → WordForm → List SequenceStep → List (Option Rule) → WordForm → Prop
  | ends {standing : Standing} (form : WordForm) (isClear : standing ≠ .owing) :
      Course graph marker standing form [] [] form
  | passesOver {standing : Standing} {form result : WordForm} {step : SequenceStep}
      {steps : List SequenceStep} {taken : List (Option Rule)}
      (serves : standing.serves step = true)
      (course : Course graph marker standing form steps taken result) :
      Course graph marker standing form (step :: steps) (none :: taken) result
  | takes {standing : Standing} {form next result : WordForm} {step : SequenceStep}
      {rule : Rule} {steps : List SequenceStep} {taken : List (Option Rule)}
      (tries : standing.serves step = false) (admits : standing.admits step = true)
      (first : FirstApplying graph marker form step.rules (some (rule, next)))
      (course : Course graph marker .served next steps taken result) :
      Course graph marker standing form (step :: steps) (some rule :: taken) result
  | declines {standing : Standing} {form result : WordForm} {step : SequenceStep}
      {steps : List SequenceStep} {taken : List (Option Rule)}
      (tries : standing.serves step = false) (admits : standing.admits step = true)
      (first : FirstApplying graph marker form step.rules none)
      (course : Course graph marker (standing.behind step) form steps taken result) :
      Course graph marker standing form (step :: steps) (none :: taken) result

/-- How a position stands, and the form, behind steps of which a rule may have applied. -/
def Standing.after (standing : Standing) (found? : Option (Rule × WordForm)) : Standing :=
  if found?.isSome then .served else standing

def formAfter (form : WordForm) (found? : Option (Rule × WordForm)) : WordForm :=
  (found?.map Prod.snd).getD form

section

variable {fallbacks steps : List SequenceStep}
  (areFallbacks : ∀ step ∈ fallbacks, step.dispreferred = true)

include areFallbacks

theorem course_served_iff {form result : WordForm} {taken : List (Option Rule)} :
    Course graph marker .served form (fallbacks ++ steps) taken result ↔
      ∃ later, taken = (fallbacks.map fun _ => none) ++ later ∧
        Course graph marker .served form steps later result := by
  induction fallbacks generalizing taken with
  | nil => simp
  | cons step fallbacks inductionHypothesis =>
      obtain ⟨isFallback, others⟩ := List.forall_mem_cons.mp areFallbacks
      have serves : Standing.served.serves step = true := by
        simp [Standing.serves, isFallback]
      constructor
      · rintro (_ | ⟨_, course⟩ | ⟨tries, _⟩ | ⟨tries, _⟩)
        · obtain ⟨later, rfl, goesOn⟩ := (inductionHypothesis others).mp course
          exact ⟨later, rfl, goesOn⟩
        · cases serves.symm.trans tries
        · cases serves.symm.trans tries
      · rintro ⟨later, rfl, course⟩
        exact .passesOver serves ((inductionHypothesis others).mpr ⟨later, rfl, course⟩)

/-- Steps in reserve are tried in turn, while the position is not served. -/
theorem course_fallbacks_iff {standing : Standing} (notServed : standing ≠ .served)
    {form result : WordForm} {taken : List (Option Rule)} :
    Course graph marker standing form (fallbacks ++ steps) taken result ↔
      ∃ here later found?, taken = here ++ later ∧
        FirstTaken? graph marker form fallbacks here found? ∧
        Course graph marker (standing.after found?) (formAfter form found?) steps later result := by
  induction fallbacks generalizing taken with
  | nil =>
      constructor
      · exact fun course => ⟨[], taken, none, rfl, .exhausted, course⟩
      · rintro ⟨_, later, _, rfl, ⟨⟩, course⟩
        exact course
  | cons step fallbacks inductionHypothesis =>
      obtain ⟨isFallback, others⟩ := List.forall_mem_cons.mp areFallbacks
      have tries : standing.serves step = false := by
        simp [Standing.serves, notServed]
      have admits : standing.admits step = true := by
        simp [Standing.admits, isFallback]
      have stays : standing.behind step = standing := by
        simp [Standing.behind, isFallback]
      constructor
      · rintro (_ | ⟨serves, _⟩ | ⟨_, _, first, course⟩ | ⟨_, _, first, course⟩)
        · cases tries.symm.trans serves
        · obtain ⟨later, rfl, goesOn⟩ := (course_served_iff others).mp course
          exact ⟨_, later, _, rfl, .takes fallbacks first, goesOn⟩
        · rw [stays] at course
          obtain ⟨here, later, found?, rfl, found, goesOn⟩ := (inductionHypothesis others).mp course
          exact ⟨none :: here, later, found?, rfl, .declines first found, goesOn⟩
      · rintro ⟨_, later, found?, rfl, found, course⟩
        cases found with
        | takes _ first =>
            exact .takes tries admits first ((course_served_iff others).mpr ⟨later, rfl, course⟩)
        | declines first found =>
            refine .declines tries admits first ?_
            rw [stays]
            exact (inductionHypothesis others).mpr ⟨_, later, found?, rfl, found, course⟩

/-- The steps of a position are tried in turn, if the one before may be left. -/
theorem course_position_iff {anchor : SequenceStep} {standing : Standing}
    (tries : standing.serves anchor = false) (notServed : standing.behind anchor ≠ .served)
    {form result : WordForm} {taken : List (Option Rule)} :
    Course graph marker standing form (anchor :: fallbacks ++ steps) taken result ↔
      standing.admits anchor = true ∧ ∃ here later found?, taken = here ++ later ∧
        FirstTaken? graph marker form (anchor :: fallbacks) here found? ∧
        Course graph marker ((standing.behind anchor).after found?)
            (formAfter form found?) steps later
          result := by
  constructor
  · rintro (_ | ⟨serves, _⟩ | ⟨_, admits, first, course⟩ | ⟨_, admits, first, course⟩)
    · cases tries.symm.trans serves
    · obtain ⟨later, rfl, goesOn⟩ := (course_served_iff areFallbacks).mp course
      exact ⟨admits, _, later, _, rfl, .takes fallbacks first, goesOn⟩
    · obtain ⟨here, later, found?, rfl, found, goesOn⟩ :=
        (course_fallbacks_iff areFallbacks notServed).mp course
      exact ⟨admits, none :: here, later, found?, rfl, .declines first found, goesOn⟩
  · rintro ⟨admits, _, later, found?, rfl, found, course⟩
    cases found with
    | takes _ first =>
        exact .takes tries admits first
          ((course_served_iff areFallbacks).mpr ⟨later, rfl, course⟩)
    | declines first found =>
        exact .declines tries admits first
          ((course_fallbacks_iff areFallbacks notServed).mpr ⟨_, later, found?, rfl, found, course⟩)

end

/-- Positions of which the first one may be opened as it stands, and each of the others opens
by itself. -/
structure Opens (standing : Standing) (positions : List Position) : Prop where
  isClear : standing ≠ .owing
  first : ∀ position ∈ positions.head?, standing.serves position.anchor.2 = false ∧
    standing.behind position.anchor.2 ≠ .served
  anchors : ∀ position ∈ positions.tail, position.anchor.2.dispreferred = false
  fallbacks : ∀ position ∈ positions, ∀ entry ∈ position.fallbacks, entry.2.dispreferred = true

theorem Divides.opens {steps : List SequenceStep} {positions : List Position}
    (divides : Divides steps positions) : Opens .idle positions where
  isClear := Standing.noConfusion
  first position _ := by
    simp only [Standing.serves, Standing.behind]
    constructor
    · simp
    · split
      · simp
      · split <;> simp
  anchors := divides.anchors
  fallbacks := divides.fallbacks

theorem Opens.tail {standing after : Standing} {position : Position} {positions : List Position}
    (opens : Opens standing (position :: positions)) (isClear : after ≠ .owing) :
    Opens after positions where
  isClear := isClear
  first other isNext := by
    have isAnchor := opens.anchors other (List.mem_of_mem_head? isNext)
    rw [Standing.serves, Standing.behind, isAnchor, if_neg Bool.false_ne_true]
    refine ⟨rfl, ?_⟩
    split <;> simp
  anchors other isMember := opens.anchors other (List.mem_of_mem_tail isMember)
  fallbacks other isMember := opens.fallbacks other (List.mem_cons_of_mem _ isMember)

theorem Opens.not_course_of_owing {standing : Standing} {position : Position}
    {positions : List Position} (opens : Opens standing (position :: positions))
    {form result : WordForm} {taken : List (Option Rule)} :
    ¬Course graph marker .owing form
        ((positions.flatMap Position.steps).map Prod.snd) taken result := by
  cases positions with
  | nil =>
      rintro ⟨_, isClear⟩
      contradiction
  | cons next positions =>
      have isAnchor : next.anchor.2.dispreferred = false := opens.anchors next List.mem_cons_self
      have notAdmitted : Standing.owing.admits next.anchor.2 = false := by
        rw [Standing.admits, isAnchor]
        rfl
      rintro (_ | ⟨serves, _⟩ | ⟨_, admits, _⟩ | ⟨_, admits, _⟩)
      · rw [Standing.serves, isAnchor] at serves
        cases serves
      · cases notAdmitted.symm.trans admits
      · cases notAdmitted.symm.trans admits

theorem Standing.behind_eq_owing_iff {standing : Standing} (isClear : standing ≠ .owing)
    (position : Position) :
    standing.behind position.anchor.2 = .owing ↔ position.isSkippable = false := by
  unfold behind Position.isSkippable
  cases position.anchor.2.dispreferred
  · cases position.anchor.2.optional <;> simp
  · simp [isClear]

/-- A course goes through a position as its steps are tried in turn. -/
theorem Opens.course_cons_iff {standing : Standing} {position : Position}
    {positions : List Position} (opens : Opens standing (position :: positions))
    {form result : WordForm} {taken : List (Option Rule)} :
    Course graph marker standing form
        (((position :: positions).flatMap Position.steps).map Prod.snd) taken
        result ↔
      ∃ here later found?, taken = here ++ later ∧
        FirstTaken? graph marker form (position.steps.map Prod.snd) here found? ∧
        Course graph marker ((standing.behind position.anchor.2).after found?)
            (formAfter form found?)
          ((positions.flatMap Position.steps).map Prod.snd) later result := by
  obtain ⟨tries, notServed⟩ := opens.first position rfl
  have areFallbacks : ∀ step ∈ position.fallbacks.map Prod.snd, step.dispreferred = true :=
    List.forall_mem_map.mpr (opens.fallbacks position List.mem_cons_self)
  have asWhole : ((position :: positions).flatMap Position.steps).map Prod.snd =
      position.anchor.2 :: position.fallbacks.map Prod.snd ++
        (positions.flatMap Position.steps).map Prod.snd := by
    simp [Position.steps]
  rw [asWhole, course_position_iff areFallbacks tries notServed]
  exact and_iff_right (Standing.admits_of_ne_owing opens.isClear _)

theorem result_derivePositions_cons (shortNames : KeepShortNames graph.languages)
    (source form : WordForm) (entries : List TraceEntry) (rules : List Int) (position : Position)
    (positions : List Position) :
    (derivePositions graph marker source form entries rules (position :: positions)).result =
      (tryInTurn graph marker form position.steps).result >>= fun (tried, choice?) =>
        match choice? with
        | some choice =>
          (derivePositions graph marker source choice.form (entries ++ tried)
            (rules ++ [choice.rule]) positions).result
        | none =>
          if position.isSkippable then
            (derivePositions graph marker source form (entries ++ tried) rules positions).result
          else .ok ⟨source, form, entries ++ haltedEntries tried, rules, some position.anchor.1⟩ := by
  have alike := Graph.Alike.refl shortNames
  rw [derivePositions_cons]
  refine (result_bind (agree_tryInTurn alike form position.steps) ?_).trans ?_
  · rintro ⟨tried, choice?⟩
    cases choice? with
    | some choice => exact agree_derivePositions alike source choice.form _ _ positions
    | none =>
        exact agree_ite (fun _ => agree_derivePositions alike source form _ _ positions)
          fun _ => agree_pure rfl
  · refine bind_congr fun tried => ?_
    obtain ⟨tried, choice?⟩ := tried
    cases choice? with
    | some choice => rfl
    | none =>
        dsimp only
        split <;> rfl

end SequenceStep

/-- What is told of a complete derivation whose course went through some steps, behind what
was told already. -/
structure Derivation.Tells (derivation : Derivation) (entries : List TraceEntry)
    (rules : List Int) (taken : List (Option Rule)) (result : WordForm) : Prop where
  isComplete : derivation.isComplete = true
  result : derivation.result = result
  entries : derivation.entries.map TraceEntry.taken? =
    entries.map TraceEntry.taken? ++ taken.map (Option.map Rule.report)
  rules : derivation.appliedRules = rules ++ taken.filterMap (Option.map Rule.id)

theorem Derivation.Tells.behind {derivation : Derivation} {entries tried : List TraceEntry}
    {rules : List Int} {here later : List (Option Rule)} {result : WordForm}
    (tells : derivation.Tells (entries ++ tried) (rules ++ here.filterMap (Option.map Rule.id))
      later result)
    (same : tried.map TraceEntry.taken? = here.map (Option.map Rule.report)) :
    derivation.Tells entries rules (here ++ later) result where
  isComplete := tells.isComplete
  result := tells.result
  entries := by
    rw [tells.entries, List.map_append, same, List.map_append, List.append_assoc]
  rules := by
    rw [tells.rules, List.filterMap_append, List.append_assoc]

namespace SequenceStep

theorem FirstTaken?.rules {form : WordForm} {steps : List SequenceStep}
    {taken : List (Option Rule)} {found? : Option (Rule × WordForm)}
    (first : FirstTaken? graph marker form steps taken found?) :
    taken.filterMap (Option.map Rule.id) = found?.toList.map fun found => found.1.id := by
  induction first with
  | exhausted => rfl
  | takes steps _ => simp
  | declines _ _ inductionHypothesis => simpa using inductionHypothesis

theorem exists_derivation_of_course (shortNames : KeepShortNames graph.languages)
    {positions : List Position} {standing : Standing} (opens : Opens standing positions)
    {form result : WordForm} {taken : List (Option Rule)}
    (course : Course graph marker standing form
        ((positions.flatMap Position.steps).map Prod.snd) taken
      result)
    (source : WordForm) (entries : List TraceEntry) (rules : List Int) :
    ∃ derivation, (derivePositions graph marker source form entries rules positions).result =
      .ok derivation ∧ derivation.Tells entries rules taken result := by
  induction positions generalizing standing form taken entries rules with
  | nil =>
      cases course
      exact ⟨_, rfl, rfl, rfl, by simp, by simp⟩
  | cons position positions inductionHypothesis =>
      obtain ⟨here, later, found?, rfl, first, goesOn⟩ := opens.course_cons_iff.mp course
      have foundRules := first.rules
      obtain ⟨tried, gave, same⟩ := exists_of_firstTaken? shortNames first
      rw [result_derivePositions_cons shortNames, gave]
      cases found? with
      | some found =>
          obtain ⟨derivation, derived, tells⟩ := inductionHypothesis
            (opens.tail Standing.noConfusion) goesOn (entries ++ tried) (rules ++ [found.1.id])
          rw [show [found.1.id] = here.filterMap (Option.map Rule.id) from foundRules.symm] at tells
          exact ⟨derivation, derived, tells.behind same⟩
      | none =>
          by_cases isSkippable : position.isSkippable = true
          · have isClear : standing.behind position.anchor.2 ≠ .owing := by
              rw [Ne, Standing.behind_eq_owing_iff opens.isClear, isSkippable]
              exact Bool.noConfusion
            obtain ⟨derivation, derived, tells⟩ := inductionHypothesis (opens.tail isClear) goesOn
              (entries ++ tried) rules
            refine ⟨derivation, (if_pos isSkippable).trans derived, Derivation.Tells.behind ?_ same⟩
            rw [foundRules]
            simpa using tells
          · have isOwing := (Standing.behind_eq_owing_iff opens.isClear position).mpr
              (Bool.not_eq_true _ ▸ isSkippable)
            rw [isOwing] at goesOn
            exact absurd goesOn opens.not_course_of_owing

theorem course_of_derivePositions (shortNames : KeepShortNames graph.languages)
    {positions : List Position} {standing : Standing} (opens : Opens standing positions)
    {source form : WordForm} {entries : List TraceEntry} {rules : List Int}
    {derivation : Derivation}
    (derived : (derivePositions graph marker source form entries rules positions).result =
      .ok derivation)
    (isComplete : derivation.isComplete = true) :
    ∃ taken, Course graph marker standing form
        ((positions.flatMap Position.steps).map Prod.snd) taken
      derivation.result ∧ derivation.Tells entries rules taken derivation.result := by
  induction positions generalizing standing form entries rules with
  | nil =>
      cases derived
      exact ⟨[], .ends form opens.isClear, rfl, rfl, by simp, by simp⟩
  | cons position positions inductionHypothesis =>
      rw [result_derivePositions_cons shortNames] at derived
      obtain ⟨⟨tried, choice?⟩, gave, wentOn⟩ := Except.bind_eq_ok.mp derived
      obtain ⟨here, found?, first, rfl, same⟩ := firstTaken?_of_tryInTurn shortNames gave
      have foundRules := first.rules
      cases found? with
      | some found =>
          have isClear : Standing.served ≠ .owing := Standing.noConfusion
          obtain ⟨later, course, tells⟩ := inductionHypothesis (opens.tail isClear) wentOn
          rw [show [(choiceOf found).rule] = here.filterMap (Option.map Rule.id) from
            foundRules.symm] at tells
          exact ⟨here ++ later, opens.course_cons_iff.mpr
            ⟨here, later, some found, rfl, first, course⟩, tells.behind same⟩
      | none =>
          by_cases isSkippable : position.isSkippable = true
          · have isClear : standing.behind position.anchor.2 ≠ .owing := by
              rw [Ne, Standing.behind_eq_owing_iff opens.isClear, isSkippable]
              exact Bool.noConfusion
            obtain ⟨later, course, tells⟩ := inductionHypothesis (opens.tail isClear)
              ((if_pos isSkippable).symm.trans wentOn)
            refine ⟨here ++ later, opens.course_cons_iff.mpr
              ⟨here, later, none, rfl, first, course⟩, Derivation.Tells.behind ?_ same⟩
            rw [foundRules]
            simpa using tells
          · cases (if_neg isSkippable).symm.trans wentOn
            cases isComplete

end SequenceStep

namespace Graph

open SequenceStep

variable {graph : Graph} {marker : Text}

theorem map_snd_positions (steps : List SequenceStep) :
    ((positions steps).flatMap Position.steps).map Prod.snd = steps := by
  rw [(divides_positions steps).steps, numbered_map_snd]

/-- Where there is a course through a sequence, the derivation is complete. -/
theorem derive_of_course (shortNames : KeepShortNames graph.languages) {sequence : RuleSequence}
    {form result : WordForm} {taken : List (Option Rule)}
    (course : Course graph marker .idle form sequence.steps taken result) :
    ∃ derivation, (graph.derive sequence form marker).result = .ok derivation ∧
      derivation.Tells [] [] taken result := by
  rw [← map_snd_positions sequence.steps] at course
  exact exists_derivation_of_course shortNames (divides_positions _).opens course form [] []

/-- A complete derivation follows a course. -/
theorem course_of_derive (shortNames : KeepShortNames graph.languages) {sequence : RuleSequence}
    {form : WordForm} {derivation : Derivation}
    (derived : (graph.derive sequence form marker).result = .ok derivation)
    (isComplete : derivation.isComplete = true) :
    ∃ taken, Course graph marker .idle form sequence.steps taken derivation.result ∧
      derivation.Tells [] [] taken derivation.result := by
  have course := course_of_derivePositions shortNames (divides_positions _).opens derived isComplete
  rw [map_snd_positions] at course
  exact course

end Graph

end Diachrony
