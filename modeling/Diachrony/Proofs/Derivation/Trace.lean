import Diachrony.Proofs.Derivation.Recording

/-!
# What a trace tells

A derivation visits the positions of its sequence in turn.  At each of them the rules on
offer are tried on the form that has come there, and the first one that applies makes the
form that goes on to the next position.  Where none applies the form goes on as it came,
or the derivation halts.

The inventories that one rule leaves are those that the next one goes on from, so a visit
holds them with its form, and nothing is asked of the names in the graph.
-/
namespace Diachrony

open Work

def StepStatus.isTaken : StepStatus → Bool
  | applied | alternative | dispreferred => true
  | skipped | halted | failed => false

namespace SequenceStep

def numbered (steps : List SequenceStep) : List (Nat × SequenceStep) :=
  steps.zipIdx.map fun (step, index) => (index, step)

/-- Positions that divide some steps: a dispreferred step is behind the anchor of the
position before it, and only at the very beginning an anchor itself. -/
structure Divides (steps : List SequenceStep) (positions : List Position) : Prop where
  steps : positions.flatMap Position.steps = numbered steps
  fallbacks : ∀ position ∈ positions, ∀ entry ∈ position.fallbacks, entry.2.dispreferred = true
  anchors : ∀ position ∈ positions.tail, position.anchor.2.dispreferred = false

theorem numbered_map_fst (steps : List SequenceStep) :
    (numbered steps).map Prod.fst = List.range steps.length := by
  simp [numbered, List.map_map, Function.comp_def, List.range_eq_range', List.zipIdx_map_snd]

theorem numbered_map_snd (steps : List SequenceStep) : (numbered steps).map Prod.snd = steps := by
  simp [numbered, Function.comp_def]

theorem foldr_addToPositions (entries : List (Nat × SequenceStep)) :
    ∃ waiting positions, entries.foldr addToPositions ([], []) = (waiting, positions) ∧
      waiting ++ positions.flatMap Position.steps = entries ∧
      (∀ entry ∈ waiting, entry.2.dispreferred = true) ∧
      ∀ position ∈ positions, position.anchor.2.dispreferred = false ∧
        ∀ entry ∈ position.fallbacks, entry.2.dispreferred = true := by
  induction entries with
  | nil => exact ⟨[], [], rfl, rfl, by simp, by simp⟩
  | cons entry entries inductionHypothesis =>
      obtain ⟨waiting, positions, found, same, areWaiting, areDivided⟩ := inductionHypothesis
      rw [List.foldr_cons, found]
      by_cases isDispreferred : entry.2.dispreferred = true
      · refine ⟨entry :: waiting, positions, by simp [addToPositions, isDispreferred], ?_, ?_,
          areDivided⟩
        · simp [same]
        · exact List.forall_mem_cons.mpr ⟨isDispreferred, areWaiting⟩
      · refine ⟨[], ⟨entry, waiting⟩ :: positions, by simp [addToPositions, isDispreferred], ?_,
          by simp, ?_⟩
        · simpa [Position.steps] using same
        · exact List.forall_mem_cons.mpr ⟨⟨by simpa using isDispreferred, areWaiting⟩, areDivided⟩

theorem divides_positions (steps : List SequenceStep) : Divides steps (positions steps) := by
  obtain ⟨waiting, later, found, same, areWaiting, areDivided⟩ :=
    foldr_addToPositions (numbered steps)
  unfold positions
  dsimp only
  generalize isDivided : List.foldr _ _ _ = divided
  obtain rfl : divided = (waiting, later) := isDivided.symm.trans found
  cases waiting with
  | nil =>
      refine ⟨same, fun position isMember => (areDivided position isMember).2, ?_⟩
      exact fun position isMember => (areDivided position (List.mem_of_mem_tail isMember)).1
  | cons anchor fallbacks =>
      obtain ⟨-, areFallbacks⟩ := List.forall_mem_cons.mp areWaiting
      refine ⟨same, ?_, fun position isMember => (areDivided position isMember).1⟩
      exact List.forall_mem_cons.mpr
        ⟨areFallbacks, fun position isMember => (areDivided position isMember).2⟩

/-- A rule that a step offers: the one it is about, or its alternative. -/
structure Offer where
  index : Nat
  step : SequenceStep
  rule : Int
  isAlternative : Bool

/-- An offer that was taken: the rule that applied, and the form it left. -/
structure Taken where
  offer : Offer
  rule : Rule
  form : WordForm

def offers (entry : Nat × SequenceStep) : List Offer :=
  ⟨entry.1, entry.2, entry.2.rule, false⟩ ::
    entry.2.alternative.toList.map fun id => ⟨entry.1, entry.2, id, true⟩

/-- The rules that a position offers, in the order in which they are tried. -/
def Position.offers (position : Position) : List Offer :=
  position.steps.flatMap SequenceStep.offers

def Taken.entry (taken : Taken) (input : WordForm) : TraceEntry :=
  { index := taken.offer.index, rule := taken.rule.id, ruleName := taken.rule.name
    status := taken.offer.step.takenStatus taken.offer.isAlternative
    before := input.text, after := taken.form.text }

/-- An offer is declined if its rule does not apply, is not there or fails otherwise. -/
def Declines (graph : Graph) (marker : Text) (form : WordForm) (made : Inventories) (offer : Offer)
    (left : Inventories) : Prop :=
  ∃ result, (applyUnder graph marker form offer.rule).on made = (result, left) ∧
    match result with
    | .ok (_, outcome) => outcome.applied = false
    | .error failure => failure.isRecordable = true

/-- The first of some offers whose rule applies to a form, if there is one; all offers
before it are declined. -/
inductive FirstTaken (graph : Graph) (marker : Text) (form : WordForm) :
    Inventories → List Offer → Option Taken → Inventories → Prop
  | exhausted (made : Inventories) : FirstTaken graph marker form made [] none made
  | applies {made left : Inventories} {offer : Offer} {rule : Rule} {next : WordForm}
      (offers : List Offer) :
      (applyUnder graph marker form offer.rule).on made = (.ok (rule, ⟨true, next⟩), left) →
      FirstTaken graph marker form made (offer :: offers) (some ⟨offer, rule, next⟩) left
  | declined {made between left : Inventories} {offer : Offer} {offers : List Offer}
      {taken? : Option Taken} :
      Declines graph marker form made offer between →
      FirstTaken graph marker form between offers taken? left →
      FirstTaken graph marker form made (offer :: offers) taken? left

variable {graph : Graph} {marker : Text} {form : WordForm} {made between left : Inventories}

theorem FirstTaken.append_some {offers : List Offer} {taken : Taken}
    (first : FirstTaken graph marker form made offers (some taken) left) (others : List Offer) :
    FirstTaken graph marker form made (offers ++ others) (some taken) left := by
  generalize isTaken : some taken = taken? at first
  induction first with
  | exhausted => cases isTaken
  | applies offers applied =>
      cases isTaken
      exact .applies _ applied
  | declined declines _ inductionHypothesis =>
      exact .declined declines (inductionHypothesis isTaken)

theorem FirstTaken.append_none {offers others : List Offer} {taken? : Option Taken}
    (first : FirstTaken graph marker form made offers none between)
    (later : FirstTaken graph marker form between others taken? left) :
    FirstTaken graph marker form made (offers ++ others) taken? left := by
  generalize isNone : (none : Option Taken) = declined? at first
  induction first with
  | exhausted => exact later
  | applies => cases isNone
  | declined declines _ inductionHypothesis =>
      exact .declined declines (inductionHypothesis later isNone)

/-- What an attempt at a step says of the offers of the step. -/
inductive Attempt.Reports (index : Nat) (step : SequenceStep) : Attempt → Option Taken → Prop
  | taken (id : Int) (rule : Rule) (isAlternative : Bool) (next : WordForm) :
      Reports index step (.taken rule isAlternative next)
        (some ⟨⟨index, step, id, isAlternative⟩, rule, next⟩)
  | declined (error : Option Error) : Reports index step (.declined error) none

theorem firstTaken_of_tryRules (index : Nat) (step : SequenceStep) {rules : List (Int × Bool)}
    {error : Option Error} {attempt : Attempt}
    (gave : (tryRules graph marker form error rules).on made = (.ok attempt, left)) :
    ∃ taken?, attempt.Reports index step taken? ∧ FirstTaken graph marker form made
      (rules.map fun (id, marked) => ⟨index, step, id, marked⟩) taken? left := by
  induction rules generalizing made error with
  | nil =>
      cases gave
      exact ⟨none, .declined error, .exhausted _⟩
  | cons entry rules inductionHypothesis =>
      obtain ⟨id, marked⟩ := entry
      obtain ⟨result, between, settled, wentOn⟩ := on_bind_eq_ok.mp gave
      obtain ⟨applied, areRecordable⟩ := on_settle_eq_ok.mp settled
      cases result with
      | error failure =>
          obtain ⟨taken?, reports, later⟩ := inductionHypothesis wentOn
          exact ⟨taken?, reports, .declined ⟨_, applied, areRecordable failure rfl⟩ later⟩
      | ok found =>
          obtain ⟨rule, hasApplied, next⟩ := found
          cases hasApplied with
          | true =>
              cases wentOn
              exact ⟨_, .taken id rule marked next, .applies _ applied⟩
          | false =>
              obtain ⟨taken?, reports, later⟩ := inductionHypothesis wentOn
              exact ⟨taken?, reports, .declined ⟨_, applied, rfl⟩ later⟩

theorem firstTaken_of_attempt (index : Nat) {step : SequenceStep} {attempt : Attempt}
    (gave : (step.attempt graph marker form).on made = (.ok attempt, left)) :
    ∃ taken?, attempt.Reports index step taken? ∧
      FirstTaken graph marker form made (offers (index, step)) taken? left := by
  obtain ⟨taken?, reports, first⟩ := firstTaken_of_tryRules index step gave
  refine ⟨taken?, reports, ?_⟩
  simpa [offers, List.map_map, Function.comp_def] using first

/-- What the trace tells of some steps that are tried on a form: the first offer whose rule
applies is taken, and each step has an entry, of which that of the taken offer alone says
that something was taken. -/
structure Tells (graph : Graph) (marker : Text) (input : WordForm)
    (steps : List (Nat × SequenceStep)) (made : Inventories) (taken? : Option Taken)
    (left : Inventories) (entries : List TraceEntry) : Prop where
  first : FirstTaken graph marker input made (steps.flatMap offers) taken? left
  indices : entries.map TraceEntry.index = steps.map Prod.fst
  before : ∀ entry ∈ entries, entry.before = input.text
  takes : entries.filter (fun entry => entry.status.isTaken) =
    taken?.toList.map fun taken => taken.entry input

variable {input : WordForm} {steps : List (Nat × SequenceStep)} {taken? : Option Taken}
  {entries : List TraceEntry}

theorem isTaken_takenStatus (step : SequenceStep) (isAlternative : Bool) :
    (step.takenStatus isAlternative).isTaken = true := by
  unfold takenStatus
  split
  · rfl
  · split <;> rfl

theorem tells_of_taken (taken : Taken)
    (first : FirstTaken graph marker input made (offers (taken.offer.index, taken.offer.step))
      (some taken) left) :
    Tells graph marker input ((taken.offer.index, taken.offer.step) :: steps) made (some taken) left
      (taken.entry input ::
        steps.map fun (index, step) => idleEntry graph input index step .skipped) := by
  have isTaken : (taken.entry input).status.isTaken = true := isTaken_takenStatus _ _
  have noneTaken : (steps.map fun (index, step) =>
      idleEntry graph input index step .skipped).filter (fun entry => entry.status.isTaken) = [] := by
    rw [List.filter_eq_nil_iff, List.forall_mem_map]
    exact fun _ _ => Bool.false_ne_true
  constructor
  · exact first.append_some _
  · simp [Taken.entry, idleEntry, Function.comp_def]
  · rw [List.forall_mem_cons, List.forall_mem_map]
    exact ⟨rfl, fun _ _ => rfl⟩
  · simp [isTaken, noneTaken]

theorem Tells.cons {index : Nat} {step : SequenceStep}
    (tells : Tells graph marker input steps between taken? left entries)
    (first : FirstTaken graph marker input made (offers (index, step)) none between)
    {status : StepStatus} (notTaken : status.isTaken = false) (error : Option Error) :
    Tells graph marker input ((index, step) :: steps) made taken? left
      (idleEntry graph input index step status error :: entries) := by
  constructor
  · exact first.append_none tells.first
  · simp [idleEntry, tells.indices]
  · exact List.forall_mem_cons.mpr ⟨rfl, tells.before⟩
  · simpa [idleEntry, notTaken] using tells.takes

theorem tells_of_tryInTurn {choice? : Option Choice}
    (gave : (tryInTurn graph marker input steps).on made = (.ok (entries, choice?), left)) :
    ∃ taken? : Option Taken, choice? = taken?.map (fun taken => ⟨taken.rule.id, taken.form⟩) ∧
      Tells graph marker input steps made taken? left entries := by
  induction steps generalizing made entries with
  | nil =>
      cases gave
      exact ⟨none, rfl, .exhausted _, rfl, by simp, rfl⟩
  | cons entry steps inductionHypothesis =>
      obtain ⟨index, step⟩ := entry
      obtain ⟨attempt, between, attempted, wentOn⟩ := on_bind_eq_ok.mp gave
      obtain ⟨taken?, reports, first⟩ := firstTaken_of_attempt index attempted
      cases reports with
      | taken id rule isAlternative next =>
          cases wentOn
          exact ⟨_, rfl, tells_of_taken ⟨⟨index, step, id, isAlternative⟩, rule, next⟩ first⟩
      | declined error =>
          obtain ⟨⟨later, chosen?⟩, after, tried, paired⟩ := on_bind_eq_ok.mp wentOn
          cases paired
          obtain ⟨taken?, same, tells⟩ := inductionHypothesis tried
          refine ⟨taken?, same, tells.cons first ?_ error⟩
          cases error <;> rfl

theorem Tells.halts (tells : Tells graph marker input steps made none left entries) :
    Tells graph marker input steps made none left (haltedEntries entries) := by
  cases entries with
  | nil => exact tells
  | cons entry entries =>
      obtain ⟨first, indices, before, takes⟩ := tells
      have notTaken : entries.filter (fun entry => entry.status.isTaken) = [] := by
        simp_all
      exact ⟨first, indices, List.forall_mem_cons.mpr (List.forall_mem_cons.mp before), notTaken⟩

/-- What comes of a position: the form that comes there, the offer that is taken, and what
the trace says of its steps. -/
structure Visit where
  position : Position
  input : WordForm
  made : Inventories
  taken? : Option Taken
  left : Inventories
  entries : List TraceEntry

namespace Visit

/-- The form that goes on from a position: what the rule that is taken makes of the one that
came, or that one itself. -/
def output (visit : Visit) : WordForm := (visit.taken?.map Taken.form).getD visit.input

/-- A derivation goes on if something was taken, or if nothing had to be. -/
def isPassed (visit : Visit) : Bool := visit.taken?.isSome || visit.position.isSkippable

def IsOf (graph : Graph) (marker : Text) (visit : Visit) : Prop :=
  Tells graph marker visit.input visit.position.steps visit.made visit.taken? visit.left visit.entries

/-- The entries of a visit come from trying the steps of its position in turn. -/
def IsTried (graph : Graph) (marker : Text) (visit : Visit) : Prop :=
  ∃ tried, (tryInTurn graph marker visit.input visit.position.steps).on visit.made =
      (.ok (tried, visit.taken?.map fun taken => ⟨taken.rule.id, taken.form⟩), visit.left) ∧
    visit.entries = if visit.isPassed then tried else haltedEntries tried

end Visit

/-- The way of a form through some positions: it goes on from each of them to the next one
and ends behind the last one, or in front of the first one that is not passed. -/
inductive Passage (graph : Graph) (marker : Text) :
    WordForm → Inventories → List Position → List Visit → Option Nat → WordForm → Inventories →
      Prop
  | ends (form : WordForm) (made : Inventories) :
      Passage graph marker form made [] [] none form made
  | halts {visit : Visit} (positions : List Position) :
      visit.IsOf graph marker → visit.isPassed = false →
      Passage graph marker visit.input visit.made (visit.position :: positions) [visit]
        (some visit.position.anchor.1) visit.input visit.left
  | passes {visit : Visit} {positions : List Position} {visits : List Visit}
      {haltedAt : Option Nat} {result : WordForm} {left : Inventories} :
      visit.IsOf graph marker → visit.isPassed = true →
      Passage graph marker visit.output visit.left positions visits haltedAt result left →
      Passage graph marker visit.input visit.made (visit.position :: positions) (visit :: visits)
        haltedAt result left

theorem visits_of_derivePositions {source : WordForm} {rules : List Int}
    {positions : List Position} {derivation : Derivation}
    (derived : (derivePositions graph marker source form entries rules positions).on made =
      (.ok derivation, left)) :
    ∃ visits,
      Passage graph marker form made positions visits derivation.haltedAt derivation.result left ∧
      derivation.entries = entries ++ visits.flatMap Visit.entries ∧
      (derivation.appliedRules =
        rules ++ visits.filterMap fun visit => visit.taken?.map fun taken => taken.rule.id) ∧
      ∀ visit ∈ visits, visit.IsTried graph marker := by
  induction positions generalizing form made entries rules with
  | nil =>
      cases derived
      exact ⟨[], .ends form _, by simp, by simp, by simp⟩
  | cons position positions inductionHypothesis =>
      obtain ⟨⟨tried, choice?⟩, between, took, wentOn⟩ := on_bind_eq_ok.mp derived
      obtain ⟨taken?, rfl, tells⟩ := tells_of_tryInTurn took
      cases taken? with
      | some taken =>
          obtain ⟨visits, passage, sameEntries, sameRules, areTried⟩ := inductionHypothesis wentOn
          let visit : Visit := ⟨position, form, made, some taken, between, tried⟩
          have isOf : visit.IsOf graph marker := tells
          have isTried : visit.IsTried graph marker := ⟨tried, took, rfl⟩
          refine ⟨visit :: visits, .passes isOf rfl passage, ?_, ?_,
            List.forall_mem_cons.mpr ⟨isTried, areTried⟩⟩
          · simp [sameEntries, visit]
          · simp [sameRules, visit]
      | none =>
          by_cases isSkippable : position.isSkippable = true
          · replace wentOn := (congrArg (Work.on between) (if_pos isSkippable)).symm.trans wentOn
            obtain ⟨visits, passage, sameEntries, sameRules, areTried⟩ :=
              inductionHypothesis wentOn
            let visit : Visit := ⟨position, form, made, none, between, tried⟩
            have isOf : visit.IsOf graph marker := tells
            have isTried : visit.IsTried graph marker := ⟨tried, took, (if_pos isSkippable).symm⟩
            refine ⟨visit :: visits, .passes isOf isSkippable passage, ?_, ?_,
              List.forall_mem_cons.mpr ⟨isTried, areTried⟩⟩
            · simp [sameEntries, visit]
            · simp [sameRules, visit]
          · replace wentOn := (congrArg (Work.on between) (if_neg isSkippable)).symm.trans wentOn
            cases wentOn
            let visit : Visit := ⟨position, form, made, none, left, haltedEntries tried⟩
            have isOf : visit.IsOf graph marker := tells.halts
            have isTried : visit.IsTried graph marker := ⟨tried, took, (if_neg isSkippable).symm⟩
            refine ⟨[visit], .halts positions isOf ?_, ?_, ?_, List.forall_mem_singleton.mpr isTried⟩
            · simpa [Visit.isPassed, visit] using isSkippable
            · simp [visit]
            · simp [visit]

theorem passage_of_derivePositions {source : WordForm} {rules : List Int}
    {positions : List Position} {derivation : Derivation}
    (derived : (derivePositions graph marker source form entries rules positions).on made =
      (.ok derivation, left)) :
    ∃ visits,
      Passage graph marker form made positions visits derivation.haltedAt derivation.result left ∧
      derivation.entries = entries ++ visits.flatMap Visit.entries ∧
      derivation.appliedRules =
        rules ++ visits.filterMap fun visit => visit.taken?.map fun taken => taken.rule.id := by
  obtain ⟨visits, passage, sameEntries, sameRules, -⟩ := visits_of_derivePositions derived
  exact ⟨visits, passage, sameEntries, sameRules⟩

theorem Passage.indices {positions : List Position} {visits : List Visit}
    {haltedAt : Option Nat} {result : WordForm}
    (passage : Passage graph marker form made positions visits haltedAt result left) :
    (visits.flatMap Visit.entries).map TraceEntry.index <+:
      (positions.flatMap Position.steps).map Prod.fst := by
  induction passage with
  | ends => exact List.nil_prefix
  | halts positions tells _ =>
      have indices := tells.indices
      simp [indices]
  | passes tells _ _ inductionHypothesis =>
      have indices := tells.indices
      simp only [List.flatMap_cons, List.map_append, indices]
      exact (List.prefix_append_right_inj _).mpr inductionHypothesis

end SequenceStep

namespace Graph

open SequenceStep

variable {graph : Graph} {marker : Text}

/-- A derivation leads a form through the positions of its sequence, and its trace tells
what comes of them: one entry for each step up to where it ends, in the order of the steps. -/
theorem derive_tells {sequence : RuleSequence} {form : WordForm} {made left : Inventories}
    {derivation : Derivation}
    (derived : (graph.derive sequence form marker).on made = (.ok derivation, left)) :
    ∃ positions visits, Divides sequence.steps positions ∧
      Passage graph marker form made positions visits derivation.haltedAt derivation.result left ∧
      derivation.entries = visits.flatMap Visit.entries ∧
      derivation.entries.map TraceEntry.index = List.range derivation.entries.length ∧
      derivation.appliedRules =
        visits.filterMap fun visit => visit.taken?.map fun taken => taken.rule.id := by
  obtain ⟨visits, passage, sameEntries, sameRules⟩ := passage_of_derivePositions derived
  rw [List.nil_append] at sameEntries sameRules
  have isDivided := divides_positions sequence.steps
  have indices := passage.indices
  rw [isDivided.steps, numbered_map_fst, ← sameEntries] at indices
  have shorter : derivation.entries.length ≤ sequence.steps.length := by
    simpa using indices.length_le
  refine ⟨_, visits, isDivided, passage, sameEntries, ?_, sameRules⟩
  rw [List.prefix_iff_eq_take.mp indices]
  simp [shorter]

def reservedRules : RuleSequence where
  id := 3
  name := "q"
  fromLanguage := "b"
  toLanguage := "a"
  steps := [{ rule := 2, alternative := some 1 }, { rule := 1, dispreferred := true }, { rule := 2 }]

/-- The second rule fails, so the alternative is taken first, and the last step halts. -/
theorem derive_tells_reservedRules :
    ∃ derivation left visits positions,
      ((twoRules 1 "b").derive reservedRules { text := "xk", language := "b" }).on {} =
        (.ok derivation, left) ∧
      derivation.entries.map TraceEntry.status = [.alternative, .skipped, .halted] ∧
      Divides reservedRules.steps positions ∧
      Passage (twoRules 1 "b") usualMarker { text := "xk", language := "b" } {} positions visits
        (some 2) { text := "xks", language := "a" } left ∧
      derivation.entries = visits.flatMap Visit.entries ∧
      (visits.filterMap fun visit => visit.taken?.map fun taken => taken.rule.id) = [1] := by
  have seen : ((((twoRules 1 "b").derive reservedRules
      { text := "xk", language := "b" }).on {}).1.toOption.map fun derivation =>
        (derivation.entries.map TraceEntry.status, derivation.appliedRules, derivation.result,
          derivation.haltedAt)) =
      some ([.alternative, .skipped, .halted], [1], { text := "xks", language := "a" }, some 2) := by
    decide +kernel
  obtain ⟨derivation, derived, same⟩ := Except.exists_of_toOption_map seen
  simp only [Prod.mk.injEq] at same
  obtain ⟨statuses, applied, result, halted⟩ := same
  have ran : ((twoRules 1 "b").derive reservedRules { text := "xk", language := "b" }).on {} =
      (.ok derivation, _) := Prod.ext derived rfl
  obtain ⟨positions, visits, isDivided, passage, entries, -, rules⟩ := derive_tells ran
  rw [halted, result] at passage
  exact ⟨derivation, _, visits, positions, ran, statuses, isDivided, passage, entries,
    rules.symm.trans applied⟩

end Graph

end Diachrony
