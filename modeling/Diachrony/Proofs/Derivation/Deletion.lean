import Diachrony.Proofs.Derivation.Course
import Diachrony.Proofs.Derivation.Recording
import Diachrony.Proofs.Graph.Deletion

/-!
# Derivations do without a rule that did nothing

When a rule is deleted, each step does without it: its alternative takes its place, or the
step goes, and then the steps in reserve behind it come to the position before.  If the rule
has not been applied in a derivation, each step that is left applies what it applied, unless
two of the rules that were applied have come to one position.
-/
namespace Diachrony

open Work

namespace SequenceStep

variable {graph other : Graph} {marker : Text} {form : WordForm}

/-- A rule that is not there does not apply. -/
theorem idles_of_not_stored {id : Int} (notStored : graph.rules.get? id = none) (form : WordForm) :
    Idles graph marker form id := by
  have failed : (applyUnder graph marker form id).result =
      .error (.notFound .rule (Text.ofInt id)) := by
    unfold applyUnder Graph.rule
    rw [notStored]
    rfl
  rw [Idles, failed]
  rfl

theorem withoutRule?_keeps {step left : SequenceStep} {id : Int}
    (isLeft : step.withoutRule? id = some left) :
    left.dispreferred = step.dispreferred ∧ left.optional = step.optional := by
  unfold withoutRule? at isLeft
  split at isLeft
  · obtain ⟨alternative, -, rfl⟩ := Option.map_eq_some_iff.mp isLeft
    exact ⟨rfl, rfl⟩
  · split at isLeft <;> cases isLeft <;> exact ⟨rfl, rfl⟩

section

variable {id : Int} {rule : Rule} (isStored : graph.rules.get? id = some rule)
  (same : Graph.SameFor (· ≠ id) graph other) (notStored : other.rules.get? id = none)

include isStored same notStored

/-- A rule that is gone need not be tried, and if it is, it does not apply. -/
theorem firstApplying_without {ids : List Int} {found? : Option (Rule × WordForm)}
    (first : FirstApplying graph marker form ids found?)
    (notRule : ∀ found ∈ found?, found.1.report ≠ rule.report) :
    FirstApplying other marker form ids found? := by
  have sameUnder {tried : Int} (differs : tried ≠ id) :
      (applyUnder graph marker form tried).result = (applyUnder other marker form tried).result :=
    (agree_applyUnder_of_sameFor same differs form).result_eq (Inventories.areOf_empty _)
  induction first with
  | exhausted => exact .exhausted
  | @applies tried found next ids applied =>
      have differs : tried ≠ id := by
        rintro rfl
        cases isStored.symm.trans ((applyUnder_eq_ok same.shortNames).mp applied).1
        exact notRule _ rfl rfl
      exact .applies ids (sameUnder differs ▸ applied)
  | @idles tried ids found? idles _ inductionHypothesis =>
      refine .idles ?_ (inductionHypothesis notRule)
      by_cases isRule : tried = id
      · subst isRule
        exact idles_of_not_stored notStored form
      · rwa [Idles, ← sameUnder isRule]

theorem firstApplying_withoutRule? {step : SequenceStep} {found? : Option (Rule × WordForm)}
    (first : FirstApplying graph marker form step.rules found?)
    (notRule : ∀ found ∈ found?, found.1.report ≠ rule.report) :
    match step.withoutRule? id with
    | none => found? = none
    | some left => FirstApplying other marker form left.rules found? := by
  have notApplied {ids : List Int} (first : FirstApplying graph marker form (id :: ids) found?) :
      FirstApplying graph marker form ids found? := by
    cases first with
    | applies _ applied =>
        cases isStored.symm.trans ((applyUnder_eq_ok same.shortNames).mp applied).1
        exact absurd rfl (notRule _ rfl)
    | idles _ later => exact later
  unfold withoutRule?
  by_cases isRule : step.rule = id
  · have later : FirstApplying graph marker form step.alternative.toList found? := by
      rw [rules, isRule] at first
      exact notApplied first
    rw [if_pos isRule]
    cases isAlternative : step.alternative with
    | none =>
        rw [isAlternative] at later
        cases later
        rfl
    | some alternative =>
        rw [isAlternative] at later
        exact firstApplying_without isStored same notStored later notRule
  · rw [if_neg isRule]
    by_cases isAlternative : step.alternative = some id
    · rw [if_pos isAlternative]
      refine firstApplying_without isStored same notStored ?_ notRule
      rw [rules, isAlternative] at first
      cases first with
      | applies _ applied => exact .applies [] applied
      | idles idles later =>
          cases notApplied later
          exact .idles idles .exhausted
    · rw [if_neg isAlternative]
      exact firstApplying_without isStored same notStored first notRule

end

/-- Whether a step opens a position of its own still when a rule has been deleted. -/
def staysAnchor (id : Int) (step : SequenceStep) : Bool :=
  !step.dispreferred && (step.withoutRule? id).isSome

theorem staysAnchor_of_fallback {id : Int} {step : SequenceStep}
    (isFallback : step.dispreferred = true) : staysAnchor id step = false := by
  simp [staysAnchor, isFallback]

/-- No two steps that applied something come to one position when a rule is deleted; nor does
one, if something has been applied in the position that the steps begin in. -/
def StayApart (id : Int) : Bool → List SequenceStep → List (Option Rule) → Prop
  | isServed, step :: steps, rule? :: taken =>
    ((isServed && !staysAnchor id step) = true → rule? = none) ∧
      StayApart id (isServed && !staysAnchor id step || rule?.isSome) steps taken
  | _, _, _ => True

/-- Steps that applied something stay apart if one that opens a position stands between any
two of them, or is the later one. -/
theorem stayApart_of_indices {id : Int} {steps : List SequenceStep} {taken : List (Option Rule)}
    {isServed : Bool}
    (apart : ∀ (earlier later : Nat) (first second : Rule), taken[earlier]? = some (some first) →
      taken[later]? = some (some second) → earlier < later →
      ∃ index step, earlier < index ∧ index ≤ later ∧ steps[index]? = some step ∧
        staysAnchor id step = true)
    (begins : isServed = true → ∀ (later : Nat) (second : Rule),
      taken[later]? = some (some second) →
      ∃ index step, index ≤ later ∧ steps[index]? = some step ∧ staysAnchor id step = true) :
    StayApart id isServed steps taken := by
  induction steps generalizing taken isServed with
  | nil => cases taken <;> exact trivial
  | cons step steps inductionHypothesis =>
      cases taken with
      | nil => exact trivial
      | cons rule? taken =>
          constructor
          · intro staysServed
            obtain ⟨isServed, notAnchor⟩ := Bool.and_eq_true_iff.mp staysServed
            by_contra isTaken
            obtain ⟨second, rfl⟩ := Option.ne_none_iff_exists'.mp isTaken
            obtain ⟨index, anchor, isFirst, isStep, isAnchor⟩ := begins isServed 0 second rfl
            obtain rfl := Nat.le_zero.mp isFirst
            cases isStep
            rw [isAnchor] at notAnchor
            cases notAnchor
          · refine inductionHypothesis ?_ ?_
            · intro earlier later first second isFirst isSecond isEarlier
              obtain ⟨index, anchor, isBehind, isBefore, isStep, isAnchor⟩ :=
                apart (earlier + 1) (later + 1) first second isFirst isSecond (by omega)
              obtain ⟨index, rfl⟩ := Nat.exists_eq_add_one_of_ne_zero (n := index) (by omega)
              exact ⟨index, anchor, by omega, by omega, isStep, isAnchor⟩
            · intro isServedNow later second isSecond
              obtain staysServed | isTaken := Bool.or_eq_true_iff.mp isServedNow
              · obtain ⟨isServed, notAnchor⟩ := Bool.and_eq_true_iff.mp staysServed
                obtain ⟨index, anchor, isBefore, isStep, isAnchor⟩ :=
                  begins isServed (later + 1) second isSecond
                cases index with
                | zero =>
                    cases isStep
                    rw [isAnchor] at notAnchor
                    cases notAnchor
                | succ index => exact ⟨index, anchor, by omega, isStep, isAnchor⟩
              · obtain ⟨first, rfl⟩ := Option.isSome_iff_exists.mp isTaken
                obtain ⟨index, anchor, isBehind, isBefore, isStep, isAnchor⟩ :=
                  apart 0 (later + 1) first second rfl isSecond (by omega)
                obtain ⟨index, rfl⟩ := Nat.exists_eq_add_one_of_ne_zero (n := index) (by omega)
                exact ⟨index, anchor, by omega, isStep, isAnchor⟩

/-- How a position stands when a rule has been deleted: the same, or with something applied
in it before, or with nothing any more that has to be. -/
def Standing.Without (standing after : Standing) : Prop :=
  after = standing ∨ standing ≠ .served ∧ after ≠ .owing

theorem Standing.Without.isClear {standing after : Standing} (without : standing.Without after)
    (isClear : standing ≠ .owing) : after ≠ .owing := by
  obtain rfl | ⟨-, notOwing⟩ := without
  · exact isClear
  · exact notOwing

theorem Standing.Without.admits {standing after : Standing} (without : standing.Without after)
    {step left : SequenceStep} (same : left.dispreferred = step.dispreferred)
    (admits : standing.admits step = true) : after.admits left = true := by
  unfold Standing.admits at admits ⊢
  rw [same]
  obtain rfl | ⟨-, notOwing⟩ := without
  · exact admits
  · simp [notOwing]

/-- A course is left through the steps as they are when a rule has been deleted, in which the
same rules are applied. -/
def LeavesCourse (other : Graph) (marker : Text) (id : Int) (after : Standing) (form : WordForm)
    (steps : List SequenceStep) (taken : List (Option Rule)) (result : WordForm) : Prop :=
  ∃ left, Course other marker after form (steps.filterMap (·.withoutRule? id)) left result ∧
    left.filterMap (Option.map Rule.id) = taken.filterMap (Option.map Rule.id)

section

variable {id : Int} {step left : SequenceStep} {steps : List SequenceStep}
  {taken : List (Option Rule)} {after : Standing} {result : WordForm}

theorem LeavesCourse.gone (leaves : LeavesCourse other marker id after form steps taken result)
    (isGone : step.withoutRule? id = none) :
    LeavesCourse other marker id after form (step :: steps) (none :: taken) result := by
  unfold LeavesCourse
  rw [List.filterMap_cons, isGone]
  exact leaves

theorem LeavesCourse.passesOver
    (leaves : LeavesCourse other marker id after form steps taken result)
    (isLeft : step.withoutRule? id = some left) (serves : after.serves left = true) :
    LeavesCourse other marker id after form (step :: steps) (none :: taken) result := by
  obtain ⟨others, course, sameRules⟩ := leaves
  refine ⟨none :: others, ?_, sameRules⟩
  rw [List.filterMap_cons, isLeft]
  exact .passesOver serves course

theorem LeavesCourse.takes {rule : Rule} {next : WordForm}
    (leaves : LeavesCourse other marker id .served next steps taken result)
    (isLeft : step.withoutRule? id = some left) (tries : after.serves left = false)
    (admits : after.admits left = true)
    (first : FirstApplying other marker form left.rules (some (rule, next))) :
    LeavesCourse other marker id after form (step :: steps) (some rule :: taken) result := by
  obtain ⟨others, course, sameRules⟩ := leaves
  refine ⟨some rule :: others, ?_, congrArg (rule.id :: ·) sameRules⟩
  rw [List.filterMap_cons, isLeft]
  exact .takes tries admits first course

theorem LeavesCourse.declines
    (leaves : LeavesCourse other marker id (after.behind left) form steps taken result)
    (isLeft : step.withoutRule? id = some left) (tries : after.serves left = false)
    (admits : after.admits left = true) (first : FirstApplying other marker form left.rules none) :
    LeavesCourse other marker id after form (step :: steps) (none :: taken) result := by
  obtain ⟨others, course, sameRules⟩ := leaves
  refine ⟨none :: others, ?_, sameRules⟩
  rw [List.filterMap_cons, isLeft]
  exact .declines tries admits first course

end

variable {id : Int} {rule : Rule} (isStored : graph.rules.get? id = some rule)
  (same : Graph.SameFor (· ≠ id) graph other) (notStored : other.rules.get? id = none)

include isStored same notStored

theorem Course.withoutRule {standing after : Standing} {isServed : Bool}
    {steps : List SequenceStep} {taken : List (Option Rule)} {result : WordForm}
    (course : Course graph marker standing form steps taken result)
    (notRule : ∀ applied? ∈ taken, ∀ applied ∈ applied?, applied.report ≠ rule.report)
    (apart : StayApart id isServed steps taken) (without : standing.Without after)
    (serves : after = .served → isServed = true) :
    LeavesCourse other marker id after form steps taken result := by
  induction course generalizing after isServed with
  | ends form isClear => exact ⟨[], .ends form (without.isClear isClear), rfl⟩
  | @passesOver standing form result step steps taken isPassed _ inductionHypothesis =>
      obtain ⟨isFallback, isServedNow⟩ := Bool.and_eq_true_iff.mp isPassed
      obtain rfl := eq_of_beq isServedNow
      obtain rfl : after = .served := without.resolve_right fun differs => differs.1 rfl
      rw [StayApart, staysAnchor_of_fallback isFallback] at apart
      have leaves := inductionHypothesis (List.forall_mem_cons.mp notRule).2 apart.2 without
        (by simpa using serves)
      cases isLeft : step.withoutRule? id with
      | none => exact leaves.gone isLeft
      | some left =>
          refine leaves.passesOver isLeft ?_
          rw [Standing.serves, (withoutRule?_keeps isLeft).1, isFallback]
          rfl
  | @takes standing form next result step applied steps taken tries admits first _
      inductionHypothesis =>
      obtain ⟨notHere, notLater⟩ := List.forall_mem_cons.mp notRule
      have leftFirst :=
        firstApplying_withoutRule? isStored same notStored first fun found isFound => by
          cases isFound
          exact notHere applied rfl
      obtain ⟨notAgain, apart⟩ := apart
      have leaves := inductionHypothesis notLater apart (.inl rfl) (by simp)
      cases isLeft : step.withoutRule? id with
      | none =>
          rw [isLeft] at leftFirst
          cases leftFirst
      | some left =>
          rw [isLeft] at leftFirst
          obtain ⟨sameFallback, -⟩ := withoutRule?_keeps isLeft
          refine leaves.takes isLeft ?_ (without.admits sameFallback admits) leftFirst
          by_contra isPassed
          obtain ⟨isFallback, isServedNow⟩ :=
            Bool.and_eq_true_iff.mp (Bool.not_eq_false _ ▸ isPassed)
          rw [staysAnchor_of_fallback (sameFallback.symm.trans isFallback),
            serves (eq_of_beq isServedNow)] at notAgain
          cases notAgain rfl
  | @declines standing form result step steps taken tries admits first _ inductionHypothesis =>
      have leftFirst := firstApplying_withoutRule? isStored same notStored first (by simp)
      have notLater := (List.forall_mem_cons.mp notRule).2
      obtain ⟨-, apart⟩ := apart
      rw [Option.isSome_none, Bool.or_false] at apart
      by_cases isFallback : step.dispreferred = true
      · have stays : standing.behind step = standing := if_pos isFallback
        rw [staysAnchor_of_fallback isFallback] at apart
        have leaves := inductionHypothesis notLater apart (stays.symm ▸ without)
          (by simpa using serves)
        cases isLeft : step.withoutRule? id with
        | none => exact leaves.gone isLeft
        | some left =>
            rw [isLeft] at leftFirst
            obtain ⟨sameFallback, -⟩ := withoutRule?_keeps isLeft
            by_cases isPassed : after.serves left = true
            · exact leaves.passesOver isLeft isPassed
            · have stays : after.behind left = after := if_pos (sameFallback.trans isFallback)
              exact (stays.symm ▸ leaves).declines isLeft (Bool.not_eq_true _ ▸ isPassed)
                (without.admits sameFallback admits) leftFirst
      · have isClear : standing ≠ .owing := by
          simpa [Standing.admits, isFallback] using admits
        have opens : standing.behind step = if step.optional then .idle else .owing :=
          if_neg isFallback
        have notServed : standing.behind step ≠ .served := by
          rw [opens]
          split <;> exact Standing.noConfusion
        cases isLeft : step.withoutRule? id with
        | none =>
            have notAnchor : staysAnchor id step = false := by
              simp [staysAnchor, isLeft]
            rw [notAnchor] at apart
            exact (inductionHypothesis notLater apart (.inr ⟨notServed, without.isClear isClear⟩)
              (by simpa using serves)).gone isLeft
        | some left =>
            rw [isLeft] at leftFirst
            obtain ⟨sameFallback, sameOptional⟩ := withoutRule?_keeps isLeft
            have behind : after.behind left = standing.behind step := by
              rw [opens, ← sameOptional]
              exact if_neg (sameFallback ▸ isFallback)
            have leaves := inductionHypothesis notLater apart (.inl rfl)
              fun isServed => absurd isServed notServed
            refine (behind.symm ▸ leaves).declines isLeft ?_ (without.admits sameFallback admits)
              leftFirst
            simp [Standing.serves, sameFallback, isFallback]

end SequenceStep

namespace Edit

open SequenceStep

variable {graph after : Graph} {marker : Text} {id : Int} {rule : Rule}

/-- But for a rule to which no other one refers, a graph stays the same when the rule is
deleted. -/
theorem sameFor_withoutRule (shortNames : KeepShortNames graph.languages)
    (unreferenced : ∀ otherId other, otherId ≠ id → graph.rules.get? otherId = some other →
      id ∉ other.logic.references)
    (noConflict : deletionConflict? graph id rule = none) :
    Graph.SameFor (· ≠ id) graph (withoutRule graph id rule.name) where
  languages := rfl
  shortNames := shortNames
  rules otherId differs := by
    change (graph.rules.erase id).get? otherId = _
    rw [Table.get?_erase, if_neg differs]
  stress name language stressRule isStored isDesignated := by
    rintro rfl
    have notDesignated := notDesignated_of_deletionConflict? noConflict
      (Table.mem_values_of_get? isStored)
    simp [Language.designatedRules, isDesignated] at notDesignated
  references otherId other differs isStored reference isReferred := by
    rintro rfl
    exact unreferenced otherId other differs isStored isReferred

end Edit

namespace Graph

open SequenceStep Edit

theorem index_of_getElem? {graph : Graph} {sequence : RuleSequence} {form : WordForm}
    {made : Inventories} {derivation : Derivation}
    (derived : ((graph.derive sequence form marker).on made).1 = .ok derivation) {index : Nat}
    {entry : TraceEntry} (isEntry : derivation.entries[index]? = some entry) :
    entry.index = index := by
  have ran : (graph.derive sequence form marker).on made = (.ok derivation, _) :=
    Prod.ext derived rfl
  obtain ⟨visits, passage, sameEntries, -⟩ := passage_of_derivePositions ran
  obtain ⟨later, indices⟩ := passage.indices
  rw [(divides_positions sequence.steps).steps, numbered_map_fst,
    ← List.nil_append (visits.flatMap Visit.entries), ← sameEntries] at indices
  have isIndex : (List.range sequence.steps.length)[index]? = some entry.index := by
    rw [← indices, List.getElem?_append_left, List.getElem?_map, isEntry]
    · rfl
    · simpa using (List.getElem?_eq_some_iff.mp isEntry).1
  obtain ⟨_, same⟩ := List.getElem?_eq_some_iff.mp isIndex
  rw [← same, List.getElem_range]

/-- For each rule that was applied in the course of a derivation there is an entry. -/
theorem exists_entry_of_taken {graph : Graph} {sequence : RuleSequence} {form result : WordForm}
    {made : Inventories} {derivation : Derivation} {taken : List (Option Rule)}
    (derived : ((graph.derive sequence form marker).on made).1 = .ok derivation)
    (tells : derivation.Tells [] [] taken result) {index : Nat} {rule : Rule}
    (isTaken : taken[index]? = some (some rule)) :
    ∃ entry ∈ derivation.entries, entry.taken? = some rule.report ∧ entry.index = index := by
  have reported : (derivation.entries.map TraceEntry.taken?)[index]? = some (some rule.report) := by
    rw [tells.entries, List.map_nil, List.nil_append, List.getElem?_map, isTaken]
    rfl
  rw [List.getElem?_map] at reported
  obtain ⟨entry, isEntry, reported⟩ := Option.map_eq_some_iff.mp reported
  exact ⟨entry, List.mem_of_getElem? isEntry, reported, index_of_getElem? derived isEntry⟩

/-- A derivation in which a rule was not applied comes to the same when the rule has been
deleted, if between any two of the steps that applied a rule one stands, or is the later of
them, that opens a position still. -/
theorem derive_of_deleteRule {graph after : Graph} {id key : Int} {rule : Rule}
    {sequence : RuleSequence} {form : WordForm} {made : Inventories} {derivation : Derivation}
    (shortNames : KeepShortNames graph.languages)
    (isStored : graph.rules.get? id = some rule)
    (unreferenced : ∀ otherId other, otherId ≠ id → graph.rules.get? otherId = some other →
      id ∉ other.logic.references)
    (isSequence : graph.sequences.get? key = some sequence)
    (madeOwned : made.AreOf graph.languages)
    (derived : ((graph.derive sequence form marker).on made).1 = .ok derivation)
    (isComplete : derivation.isComplete = true)
    (notApplied : ∀ entry ∈ derivation.entries, entry.taken? ≠ some rule.report)
    (apart : ∀ earlier ∈ derivation.entries, ∀ later ∈ derivation.entries,
      earlier.taken?.isSome = true → later.taken?.isSome = true → earlier.index < later.index →
      ∃ index step, earlier.index < index ∧ index ≤ later.index ∧
        sequence.steps[index]? = some step ∧ staysAnchor id step = true)
    (deleted : (deleteRule id).on graph = (.ok (), after)) :
    ∃ left again, after.sequences.get? key = some left ∧
      (∀ other : Inventories, other.AreOf after.languages →
        ((after.derive left form marker).on other).1 = .ok again) ∧
      again.isComplete = true ∧ again.result = derivation.result ∧
      again.appliedRules = derivation.appliedRules := by
  have fromNone : (graph.derive sequence form marker).result = .ok derivation := by
    rw [← (agree_derive (Alike.refl shortNames) sequence form marker).result_eq madeOwned, derived]
  obtain ⟨taken, course, tells⟩ := course_of_derive shortNames fromNone isComplete
  have notRule : ∀ applied? ∈ taken, ∀ applied ∈ applied?, applied.report ≠ rule.report := by
    rintro _ isMember applied ⟨⟩
    obtain ⟨index, isTaken⟩ := List.getElem?_of_mem isMember
    obtain ⟨entry, isEntry, reported, -⟩ := exists_entry_of_taken derived tells isTaken
    exact fun isRule => notApplied entry isEntry (isRule ▸ reported)
  have stayApart : StayApart id false sequence.steps taken := by
    refine stayApart_of_indices ?_ fun isServed => nomatch isServed
    intro earlier later first second isFirst isSecond isEarlier
    obtain ⟨entry, isEntry, reported, rfl⟩ := exists_entry_of_taken derived tells isFirst
    obtain ⟨next, isNext, reportedNext, rfl⟩ := exists_entry_of_taken derived tells isSecond
    exact apart entry isEntry next isNext (by rw [reported]; rfl) (by rw [reportedNext]; rfl)
      isEarlier
  obtain ⟨stored, isFound, noConflict, rfl⟩ := deleteRule_eq_ok.mp deleted
  cases isStored.symm.trans isFound
  have same := sameFor_withoutRule shortNames unreferenced noConflict
  have notStored : (withoutRule graph id rule.name).rules.get? id = none := by
    change (graph.rules.erase id).get? id = none
    rw [Table.get?_erase, if_pos rfl]
  obtain ⟨leftTaken, leftCourse, sameRules⟩ := course.withoutRule isStored same notStored notRule
    stayApart (.inl rfl) fun isServed => nomatch isServed
  have isLeft : (withoutRule graph id rule.name).sequences.get? key =
      some (sequence.withoutRule id) := by
    change (graph.sequences.mapValues (·.withoutRule id)).get? key = _
    rw [Table.get?_mapValues, isSequence]
    rfl
  replace leftCourse : Course (withoutRule graph id rule.name) marker .idle form
      (sequence.withoutRule id).steps leftTaken derivation.result := leftCourse
  have staysNamed : KeepShortNames (withoutRule graph id rule.name).languages := shortNames
  obtain ⟨again, derivedAgain, tellsAgain⟩ := derive_of_course staysNamed leftCourse
  refine ⟨_, again, isLeft, fun other otherOwned => ?_, tellsAgain.isComplete,
    tellsAgain.result, ?_⟩
  · have agreedAgain := agree_derive (Alike.refl staysNamed) (sequence.withoutRule id) form marker
    rw [agreedAgain.result_eq otherOwned, derivedAgain]
  · rw [tellsAgain.rules, tells.rules, sameRules]

/-- Two rules for words that end in a vowel, and between them one for words that begin with
one. -/
def outerRules (inReserve : Bool) : RuleSequence where
  id := 4
  name := "q"
  fromLanguage := "a"
  toLanguage := "a"
  steps := [
    { rule := 1 }, { rule := 2, optional := true }, { rule := 3, dispreferred := inReserve }]

def threeRules (inReserve : Bool) : Graph where
  languages := ⟨[("a",
    { name := "A", shortName := "a", phonemes := [{ spelling := "x", tags := ["vowel"] }] })]⟩
  rules := ⟨[(1, edgeRule 1 "a" .ending "x"), (2, edgeRule 2 "a" .beginning "s"),
    (3, edgeRule 3 "a" .ending "t")]⟩
  sequences := ⟨[(4, outerRules inReserve)]⟩

/-- The rule between the others can go, since the last step opens a position. -/
theorem derive_of_deleteRule_threeRules :
    KeepShortNames (threeRules false).languages ∧
    (∀ otherId other, otherId ≠ 2 → (threeRules false).rules.get? otherId = some other →
      2 ∉ other.logic.references) ∧
    ∃ derivation after left again,
      ((threeRules false).derive (outerRules false) { text := "kx", language := "a" }).result =
        .ok derivation ∧
      derivation.result.text = "kxxt" ∧
      (deleteRule 2).on (threeRules false) = (.ok (), after) ∧
      after.sequences.get? 4 = some left ∧
      (after.derive left { text := "kx", language := "a" }).result = .ok again ∧
      again.isComplete = true ∧ again.result = derivation.result ∧ again.appliedRules = [1, 3] := by
  have keepsNames : (threeRules false).KeepsNames :=
    keepsNames_of_entries (by decide) (by decide)
  have shortNames := keepsNames.shortNames
  have areFree : ∀ entry ∈ (threeRules false).rules.entries, 2 ∉ entry.2.logic.references := by
    decide
  have unreferenced (otherId : Int) (other : Rule) (_ : otherId ≠ 2)
      (isStored : (threeRules false).rules.get? otherId = some other) :
      2 ∉ other.logic.references :=
    areFree _ (Table.mem_entries_of_get? isStored)
  have passed : ((threeRules false).derive (outerRules false)
      { text := "kx", language := "a" }).result.toOption.map (fun derivation =>
        derivation.entries.map fun entry => (entry.index, entry.taken?.map Prod.fst)) =
      some [(0, some 1), (1, none), (2, some 3)] := by
    decide +kernel
  obtain ⟨derivation, derived, visited⟩ := Except.exists_of_toOption_map passed
  have came : ((threeRules false).derive (outerRules false)
      { text := "kx", language := "a" }).result.toOption.map (fun derivation =>
        (derivation.isComplete, derivation.result.text, derivation.appliedRules)) =
      some ((true, "kxxt", [1, 3]) : Bool × Text × List Int) := by
    decide +kernel
  rw [derived] at came
  obtain ⟨isComplete, result, applied⟩ : derivation.isComplete = true ∧
      derivation.result.text = "kxxt" ∧ derivation.appliedRules = [1, 3] := by
    simpa only [Except.toOption, Option.map_some, Option.some.injEq, Prod.mk.injEq] using came
  have isVisited (entry : TraceEntry) (isEntry : entry ∈ derivation.entries) :
      (entry.index, entry.taken?.map Prod.fst) ∈ [(0, some 1), (1, none), (2, some 3)] := by
    rw [← visited]
    exact List.mem_map_of_mem isEntry
  have notApplied (entry : TraceEntry) (isEntry : entry ∈ derivation.entries) :
      entry.taken? ≠ some (edgeRule 2 "a" .beginning "s").report := by
    intro isTaken
    have taken := isVisited entry isEntry
    rw [isTaken] at taken
    simp [Rule.report, edgeRule] at taken
  have apart (earlier : TraceEntry) (isEarlier : earlier ∈ derivation.entries)
      (later : TraceEntry) (isLater : later ∈ derivation.entries)
      (tookOne : earlier.taken?.isSome = true) (tookOther : later.taken?.isSome = true)
      (inOrder : earlier.index < later.index) :
      ∃ index step, earlier.index < index ∧ index ≤ later.index ∧
        (outerRules false).steps[index]? = some step ∧ staysAnchor 2 step = true := by
    have outer (entry : TraceEntry) (isEntry : entry ∈ derivation.entries)
        (tookOne : entry.taken?.isSome = true) : entry.index = 0 ∨ entry.index = 2 := by
      obtain ⟨report, isTaken⟩ := Option.isSome_iff_exists.mp tookOne
      have visit := isVisited entry isEntry
      rw [isTaken] at visit
      simp only [List.mem_cons, Prod.mk.injEq, Option.map_some, reduceCtorEq, and_false,
        List.not_mem_nil, false_or, or_false] at visit
      exact visit.imp And.left And.left
    have isFirst := outer earlier isEarlier tookOne
    have isSecond := outer later isLater tookOther
    exact ⟨2, { rule := 3 }, by omega, by omega, rfl, by decide⟩
  have isStored : (threeRules false).rules.get? 2 = some (edgeRule 2 "a" .beginning "s") := rfl
  have isSequence : (threeRules false).sequences.get? 4 = some (outerRules false) := rfl
  have deleted : (deleteRule 2).on (threeRules false) =
      (.ok (), withoutRule (threeRules false) 2 "s") :=
    deleteRule_eq_ok.mpr ⟨_, rfl, by decide, rfl⟩
  obtain ⟨left, again, isLeft, derivedAgain, completeAgain, sameResult, sameRules⟩ :=
    derive_of_deleteRule shortNames isStored unreferenced isSequence (Inventories.areOf_empty _)
       derived isComplete notApplied apart deleted
  exact ⟨shortNames, unreferenced, derivation, _, left, again, derived, result, deleted, isLeft,
    derivedAgain {} (Inventories.areOf_empty _), completeAgain, sameResult, sameRules.trans applied⟩

/-- A derivation is complete and comes to a text, and in it a rule has neither been applied
nor failed. -/
def ComesWithout (graph : Graph) (sequence : RuleSequence) (id : Int) (text : Text) : Prop :=
  ∃ derivation, (graph.derive sequence { text := "kx", language := "a" }).result = .ok derivation ∧
    derivation.isComplete = true ∧ derivation.result.text = text ∧
    ∀ entry ∈ derivation.entries, entry.rule = id →
      entry.status = .skipped ∧ entry.error.isNone = true

/-- If the last step is in reserve, it comes to the position of the first one, where the rule
that applied has left nothing to do.  And where a language goes by the name of another one, a
rule that did nothing may have lent a later one its inventory. -/
theorem deleteRule_may_change_derivations :
    ((∀ entry ∈ (threeRules true).rules.entries, 2 ∉ entry.2.logic.references) ∧
      ComesWithout (threeRules true) (outerRules true) 2 "kxxt" ∧
      ∃ after left, (deleteRule 2).on (threeRules true) = (.ok (), after) ∧
        after.sequences.get? 4 = some left ∧ ComesWithout after left 2 "kxx") ∧
    ((∀ entry ∈ (twoRules 1 "a").rules.entries, 1 ∉ entry.2.logic.references) ∧
      ComesWithout (twoRules 1 "a") bothRules 1 "kxt" ∧
      ∃ after left, (deleteRule 1).on (twoRules 1 "a") = (.ok (), after) ∧
        after.sequences.get? 3 = some left ∧ ComesWithout after left 1 "kx") := by
  have comes {graph : Graph} {sequence : RuleSequence} {id : Int} {text : Text}
      (seen : (graph.derive sequence { text := "kx", language := "a" }).result.toOption.map
        (fun derivation => (derivation.isComplete, derivation.result.text,
          decide (∀ entry ∈ derivation.entries, entry.rule = id →
            entry.status = .skipped ∧ entry.error.isNone = true))) = some (true, text, true)) :
      ComesWithout graph sequence id text := by
    obtain ⟨derivation, derived, same⟩ := Except.exists_of_toOption_map seen
    simp only [Prod.mk.injEq, decide_eq_true_eq] at same
    exact ⟨derivation, derived, same⟩
  refine ⟨⟨by decide, comes (by decide +kernel), withoutRule (threeRules true) 2 "s", _,
    deleteRule_eq_ok.mpr ⟨_, rfl, by decide, rfl⟩, rfl, comes (by decide +kernel)⟩,
    by decide, comes (by decide +kernel), withoutRule (twoRules 1 "a") 1 "s", _,
    deleteRule_eq_ok.mpr ⟨_, rfl, by decide, rfl⟩, rfl, comes (by decide +kernel)⟩

end Graph

end Diachrony
