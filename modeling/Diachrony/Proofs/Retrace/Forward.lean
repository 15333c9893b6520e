import Diachrony.Proofs.Derivation.Course
import Diachrony.Proofs.Retrace.Chain

/-!
# From the sources of a retrace forward

A retrace has each candidate tried by the rule that it was found for.  It does not ask which
rule a derivation would try first, nor whether a step that it leaves out has a rule that
applies.  So a source need not lead to the target in a derivation.

It does where the answers are such as the retrace takes for granted: the steps that it leaves
out have no rule that applies, a candidate for which there are two rules is made into its text
by the first that applies, and what stands before a further step is made to the letter.
-/
namespace Diachrony

open Work

namespace SequenceStep

variable {graph : Graph} {marker : Text}

/-- What is found to apply to a form is found to apply to one that is the same in what bears
on rules. -/
theorem FirstApplying.of_bearsLike (shortNames : KeepShortNames graph.languages)
    {form other : WordForm} (like : WordForm.BearsLike form other) {ids : List Int}
    {found? : Option (Rule × WordForm)} (first : FirstApplying graph marker form ids found?) :
    ∃ left?, FirstApplying graph marker other ids left? ∧
      Option.Rel (fun found left => left.1 = found.1 ∧ WordForm.BearsLike found.2 left.2)
        found? left? := by
  have owned := Inventories.areOf_empty graph.languages
  have agreed (id : Int) :
      Related _ (applyUnder graph marker form id).result
          (applyUnder graph marker other id).result :=
    (agree_applyUnder_of_like WordForm.isLikeness_bearsLike (Graph.Alike.refl shortNames).sameFor
      trivial like {} {} ⟨owned, owned⟩).1
  induction first with
  | exhausted => exact ⟨none, .exhausted, .none⟩
  | @applies id rule next ids applied =>
      have related := agreed id
      rw [applied] at related
      generalize answered : (applyUnder graph marker other id).result = answer at related
      cases related with
      | @ok _ made alike =>
          obtain ⟨remade, hasApplied, left⟩ := made
          obtain ⟨sameRule, sameApplied, like⟩ := alike
          cases sameApplied
          exact ⟨_, .applies ids answered, .some ⟨sameRule, like⟩⟩
  | @idles id ids found? idles _ inductionHypothesis =>
      obtain ⟨left?, first, same⟩ := inductionHypothesis
      refine ⟨left?, .idles ?_ first, same⟩
      have related := agreed id
      unfold Idles at idles ⊢
      revert idles
      generalize (applyUnder graph marker form id).result = answer at related
      generalize (applyUnder graph marker other id).result = otherAnswer at related
      cases related with
      | error failure => exact fun isRecordable => isRecordable
      | ok alike => exact fun notApplied => alike.2.1.trans notApplied

end SequenceStep

namespace Retrace

open SequenceStep

/-- A source of a retrace as a form: in the first language, with the classes of the target. -/
def sourceForm (sequence : RuleSequence) (target : WordForm) (text : Text) : WordForm :=
  { text, language := sequence.fromLanguage, classes := target.classes }

/-- A text was there behind a step: the target's, or one that a later step was undone to. -/
def IsBehind (retrace : Retrace) (target : WordForm) (index : Nat) (text : Text) : Prop :=
  text = target.text ∨ ∃ entry ∈ retrace.steps, index < entry.index ∧
    ∃ candidate ∈ entry.candidates, text = candidate.form.text

/-- The first rule of a step to apply to a candidate makes the text that it is said to
produce. -/
def TakesUp (graph : Graph) (marker : Text) (step : SequenceStep)
    (candidate : RetraceCandidate) : Prop :=
  ∃ rule next, FirstApplying graph marker candidate.form step.rules (some (rule, next)) ∧
    comparable marker next.text = comparable marker candidate.produces

/-- What a retrace does not ask is as it takes for granted: no step in reserve is needed, a
step that is left out has no rule that applies, and of two rules the first that applies is the
right one.  In front of a further step, rules make texts to the letter. -/
structure BorneOut (graph : Graph) (marker : Text) (sequence : RuleSequence) (target : WordForm)
    (retrace : Retrace) : Prop where
  inReserve : ∀ entry ∈ retrace.steps, ∀ step, sequence.steps[entry.index]? = some step →
    step.dispreferred = true → entry.candidates = []
  leftOut : ∀ (index : Nat) (step : SequenceStep) (text : Text),
    sequence.steps[index]? = some step → step.optional = true ∨ step.dispreferred = true →
    retrace.IsBehind target index text →
    FirstApplying graph marker (sourceForm sequence target text) step.rules none
  preferred : ∀ entry ∈ retrace.steps, ∀ step, sequence.steps[entry.index]? = some step →
    step.alternative ≠ none → ∀ candidate ∈ entry.candidates, TakesUp graph marker step candidate
  isExact : ∀ entry ∈ retrace.steps, ∀ step, sequence.steps[entry.index]? = some step →
    entry.index + 1 < sequence.steps.length → ∀ candidate ∈ entry.candidates,
      ∀ rule next, FirstApplying graph marker candidate.form step.rules (some (rule, next)) →
        WordForm.BearsLike (sourceForm sequence target candidate.produces) next

variable {graph : Graph} {marker : Text} {sequence : RuleSequence} {target : WordForm}

theorem leads_text {Kept : Inventories → Prop} {entries : List RetraceStep}
    {steps : List (Nat × SequenceStep)} {text : Text}
    (leads : Leads graph marker Kept entries target steps text) :
    text = target.text ∨ ∃ entry ∈ entries, entry.index ∈ steps.map Prod.fst ∧
      ∃ candidate ∈ entry.candidates, text = candidate.form.text := by
  induction leads with
  | ends => exact .inl rfl
  | leftOut _ _ inductionHypothesis =>
      refine inductionHypothesis.imp_right ?_
      rintro ⟨entry, isEntry, isIndex, found⟩
      exact ⟨entry, isEntry, List.mem_cons_of_mem _ isIndex, found⟩
  | @undone entry _ _ candidate isEntry isFound _ _ _ =>
      exact .inr ⟨entry, isEntry, List.mem_cons_self, candidate, isFound, rfl⟩

theorem getElem?_of_suffix {steps : List SequenceStep} {index : Nat} {step : SequenceStep}
    {later : List (Nat × SequenceStep)} (suffix : (index, step) :: later <:+ numbered steps) :
    steps[index]? = some step ∧ index + 1 + later.length = steps.length ∧
      ∀ number ∈ later.map Prod.fst, index < number := by
  obtain ⟨before, same⟩ := suffix
  have indices : before.map Prod.fst ++ index :: later.map Prod.fst = List.range steps.length := by
    rw [← numbered_map_fst, ← same, List.map_append, List.map_cons]
  have inOrder := List.pairwise_lt_range (n := steps.length)
  rw [← indices, List.pairwise_append, List.pairwise_cons] at inOrder
  have isIndex : (List.range steps.length)[before.length]? = some index := by
    rw [← indices]
    simp
  obtain rfl : index = before.length := by
    rw [List.getElem?_range] at isIndex
    · exact (Option.some.inj isIndex).symm
    · rw [← List.length_range (n := steps.length), ← indices]
      simp
  have asWhole : steps = before.map Prod.snd ++ step :: later.map Prod.snd := by
    rw [← numbered_map_snd steps, ← same, List.map_append, List.map_cons]
  refine ⟨?_, ?_, inOrder.2.1.1⟩
  · rw [asWhole, List.getElem?_append_right (by simp)]
    simp
  · rw [asWhole]
    simp
    omega

/-- A rule that is alone in its step has been found to make the text. -/
theorem Accounts.takesUp {step : SequenceStep} {candidate : RetraceCandidate}
    (accounts : Accounts graph marker (· = {}) target step candidate)
    (shortNames : KeepShortNames graph.languages) (isAlone : step.alternative = none) :
    TakesUp graph marker step candidate := by
  obtain ⟨-, id, isTried, rule, _, isStored, -, -, rfl, outcome, gave, isApplied, makes⟩ := accounts
  obtain ⟨applied, next⟩ := outcome
  cases isApplied
  obtain rfl : id = step.rule := by
    simpa [rules, isAlone] using isTried
  refine ⟨rule, next, ?_, makes⟩
  rw [rules, isAlone]
  exact .applies [] ((applyUnder_eq_ok shortNames).mpr ⟨Graph.found_eq_ok isStored, gave⟩)

/-- A step of which no rule applies may be left out, whatever its position stands like. -/
theorem exists_course_of_leftOut {Makes : WordForm → Prop} {standing : Standing} {form : WordForm}
    {step : SequenceStep} {steps : List SequenceStep} (isClear : standing ≠ .owing)
    (mayBeLeftOut : step.optional = true ∨ step.dispreferred = true)
    (first : FirstApplying graph marker form step.rules none)
    (goesOn : ∀ after : Standing, after ≠ .owing →
      ∃ taken result, Course graph marker after form steps taken result ∧ Makes result) :
    ∃ taken result, Course graph marker standing form (step :: steps) taken result ∧
        Makes result := by
  by_cases serves : standing.serves step = true
  · obtain ⟨taken, result, course, makes⟩ := goesOn standing isClear
    exact ⟨none :: taken, result, .passesOver serves course, makes⟩
  · obtain ⟨taken, result, course, makes⟩ :=
      goesOn _ (Standing.behind_ne_owing isClear mayBeLeftOut)
    exact ⟨none :: taken, result, .declines (Bool.not_eq_true _ ▸ serves)
      (Standing.admits_of_ne_owing isClear step) first course, makes⟩

/-- What leads to the target is a course of a derivation. -/
theorem exists_course_of_leads (shortNames : KeepShortNames graph.languages) {retrace : Retrace}
    (borneOut : retrace.BorneOut graph marker sequence target) {steps : List (Nat × SequenceStep)}
    (suffix : steps <:+ numbered sequence.steps) {text : Text}
    (leads : Leads graph marker (· = {}) retrace.steps target steps text) {standing : Standing}
    (isClear : standing ≠ .owing) {form : WordForm}
    (like : WordForm.BearsLike (sourceForm sequence target text) form) :
    ∃ taken result, Course graph marker standing form (steps.map Prod.snd) taken result ∧
      comparable marker result.text = comparable marker target.text := by
  induction leads generalizing standing form with
  | ends => exact ⟨[], form, .ends form isClear, by rw [like.1]; rfl⟩
  | @leftOut index step steps text mayBeLeftOut leads inductionHypothesis =>
      obtain ⟨isStep, -, isLater⟩ := getElem?_of_suffix suffix
      have isBehind : retrace.IsBehind target index text := by
        refine (leads_text leads).imp_right ?_
        rintro ⟨entry, isEntry, isIndex, found⟩
        exact ⟨entry, isEntry, isLater _ isIndex, found⟩
      obtain ⟨left?, first, same⟩ :=
        (borneOut.leftOut index step text isStep mayBeLeftOut isBehind).of_bearsLike shortNames like
      cases same
      exact exists_course_of_leftOut isClear mayBeLeftOut first fun after isClear =>
        inductionHypothesis ((List.suffix_cons _ _).trans suffix) isClear like
  | @undone entry step steps candidate isEntry isFound accounts leads inductionHypothesis =>
      obtain ⟨isStep, isLength, -⟩ := getElem?_of_suffix suffix
      have notReserve : step.dispreferred ≠ true := fun isFallback =>
        List.ne_nil_of_mem isFound (borneOut.inReserve entry isEntry step isStep isFallback)
      obtain ⟨rule, next, first, makes⟩ : TakesUp graph marker step candidate := by
        by_cases isAlone : step.alternative = none
        · exact accounts.takesUp shortNames isAlone
        · exact borneOut.preferred entry isEntry step isStep isAlone candidate isFound
      have asFound : WordForm.BearsLike candidate.form form := by
        obtain ⟨sameClasses, isUnstressed⟩ := accounts.1
        exact ⟨like.1, like.2.1.trans sameClasses.symm, like.2.2.trans isUnstressed.symm⟩
      obtain ⟨_, firstHere, ⟨rfl, alike⟩⟩ := first.of_bearsLike shortNames asFound
      rename_i there
      have tries : standing.serves step = false := by
        simp [Standing.serves, notReserve]
      have staysClear : Standing.served ≠ .owing := Standing.noConfusion
      suffices goesOn : ∃ taken result,
          Course graph marker .served there.2 (steps.map Prod.snd) taken result ∧
            comparable marker result.text =
              comparable marker target.text by
        obtain ⟨taken, result, course, leadsOn⟩ := goesOn
        exact ⟨_, result, .takes tries (Standing.admits_of_ne_owing isClear step) firstHere course,
          leadsOn⟩
      cases steps with
      | nil =>
          have isLast : candidate.produces = target.text := by
            simpa using leads_text leads
          exact ⟨[], there.2, .ends _ staysClear, by rw [alike.1, makes, isLast]⟩
      | cons =>
          have isFurther : entry.index + 1 < sequence.steps.length := by
            rw [← isLength]
            simp
          have made :=
            borneOut.isExact entry isEntry step isStep isFurther candidate isFound _ _ first
          exact inductionHypothesis ((List.suffix_cons _ _).trans suffix) staysClear
            (made.trans alike)

end Retrace

namespace Graph

open Retrace SequenceStep

/-- Where what a retrace takes for granted is borne out, each of its sources is derived
completely, and to the target's text but for marks and case. -/
theorem derive_of_retrace {graph : Graph} {sequence : RuleSequence} {target : WordForm}
    {limit : Option Int} {marker : Text} {setLimit : Int} {made : Inventories} {retrace : Retrace}
    (shortNames : KeepShortNames graph.languages) (madeOwned : made.AreOf graph.languages)
    (gave : ((graph.retrace sequence target limit marker setLimit).on made).1 = .ok retrace)
    (borneOut : retrace.BorneOut graph marker sequence target) :
    ∀ source ∈ retrace.sources, ∀ other : Inventories, other.AreOf graph.languages →
      ∃ derivation,
        ((graph.derive sequence (sourceForm sequence target source) marker).on other).1 =
          .ok derivation ∧
        derivation.isComplete = true ∧
        comparable marker derivation.result.text =
          comparable marker target.text := by
  intro source isSource other otherOwned
  have searches : graph.Searches marker _ := searches_areOf shortNames
  have accounted := (ensures_retrace searches sequence target limit setLimit made madeOwned).1
  rw [gave] at accounted
  have leads := (accounted.leads source isSource).elsewhere shortNames (Inventories.areOf_empty _)
  have isClear : Standing.idle ≠ .owing := Standing.noConfusion
  have like : WordForm.BearsLike (sourceForm sequence target source)
      (sourceForm sequence target source) := ⟨rfl, rfl, rfl⟩
  obtain ⟨taken, result, course, makes⟩ := exists_course_of_leads shortNames borneOut
    (List.suffix_refl _) leads isClear like
  rw [numbered_map_snd] at course
  obtain ⟨derivation, derived, tells⟩ := derive_of_course shortNames course
  have agreed := agree_derive (Alike.refl shortNames) sequence
    (sourceForm sequence target source) marker
  exact ⟨derivation, (agreed.result_eq otherOwned).trans derived, tells.isComplete,
    tells.result ▸ makes⟩

/-- Where a rule applies, its step is not left out, even if it may be, and even though the
retrace has left it out. -/
example : ((attachingRules "b").derive (attachingSequence [{ rule := 1, optional := true }])
    (sourceForm (attachingSequence []) { text := "xs", language := "a" } "xs")).result.toOption.map
      (fun derivation => derivation.result.text) = some ("xss" : Text) := by
  decide +kernel

def openingRules : Graph where
  languages := (attachingRules "b").languages
  rules := ⟨[(1, pluralRule), (2, edgeRule 2 "b" .beginning "t")]⟩

def openingSequence : RuleSequence :=
  attachingSequence [{ rule := 2, optional := true }, { rule := 1 }, { rule := 1 }]

def openingRetrace : Retrace where
  target := "kxss"
  steps := [
    ⟨2, [⟨1, "s", { text := "kxs", language := "b" }, "kxss"⟩], false, none⟩,
    ⟨1, [⟨1, "s", { text := "kx", language := "b" }, "kxs"⟩], false, none⟩,
    ⟨0, [], true, none⟩]
  sources := ["kx"]
  haltedAt := none

theorem retrace_openingRules :
    (openingRules.retrace openingSequence { text := "kxss", language := "a" } none).result =
      .ok openingRetrace := by
  let ofB : Language :=
    { name := "B", shortName := "b", phonemes := [{ spelling := "x", tags := ["vowel"] }] }
  let made : Inventories := ⟨[("b", .ofLanguage ofB)]⟩
  have last : (openingRules.reverse pluralRule { text := "kxss", language := "a" } 64).on {} =
      (.ok [{ text := "kxs", language := "b" }], made) := by
    unfold made ofB
    cbv
  have second : (openingRules.reverse pluralRule { text := "kxs", language := "b" } 64).on made =
      (.ok [{ text := "kx", language := "b" }], made) := by
    unfold made ofB
    cbv
  have texts : (Reversal.beforeRule openingRules ofB [] (edgeRule 2 "b" .beginning "t") "kx").on
      made = (.ok ["kx"], made) := by
    unfold made ofB
    cbv
  obtain ⟨left, opening⟩ : ∃ left,
      (openingRules.reverse (edgeRule 2 "b" .beginning "t") { text := "kx", language := "b" }
        64).on made = (.ok [], left) := by
    refine ⟨_, Prod.ext ?_ rfl⟩
    change ((Reversal.beforeRule openingRules ofB [] _ "kx" >>= _).on made).1 = _
    rw [on_bind, texts, ← Except.toOption_eq_some]
    decide +kernel
  change ((undoSteps openingRules usualMarker 64 "kxss" [] [_]
    [(2, { rule := 1 }), (1, { rule := 1 }), (0, { rule := 2, optional := true })]).on {}).1 = _
  rw [on_undoSteps (by decide) (on_undoStep rfl rfl last) rfl,
    on_undoSteps (by decide) (on_undoStep rfl rfl second) rfl,
    on_undoSteps (by decide) (on_undoStep rfl rfl opening) rfl,
    undoSteps, sortForms, List.mergeSort_singleton]
  rfl

theorem derive_of_retrace_openingRules :
    openingRetrace.BorneOut openingRules usualMarker openingSequence
        { text := "kxss", language := "a" } ∧
    ∃ derivation,
      (openingRules.derive openingSequence
        (sourceForm openingSequence { text := "kxss", language := "a" } "kx")).result =
          .ok derivation ∧
      derivation.isComplete = true ∧
      comparable Graph.usualMarker derivation.result.text =
        comparable Graph.usualMarker "kxss" := by
  have keepsNames : openingRules.KeepsNames := keepsNames_of_entries (by decide) (by decide)
  have shortNames := keepsNames.shortNames
  have borneOut : openingRetrace.BorneOut openingRules usualMarker openingSequence
      { text := "kxss", language := "a" } := by
    have idles (text : Text) (isText : text ∈ (["kxss", "kxs", "kx"] : List Text)) :
        FirstApplying openingRules Graph.usualMarker
          (sourceForm openingSequence { text := "kxss", language := "a" } text) [2] none := by
      have answers : ∀ text ∈ (["kxss", "kxs", "kx"] : List Text),
          (applyUnder openingRules usualMarker (sourceForm openingSequence
            { text := "kxss", language := "a" } text) 2).result.toOption.map
              (fun answer => answer.2.applied) = some false := by
        decide +kernel
      obtain ⟨answer, answered, notApplied⟩ := Except.exists_of_toOption_map (answers text isText)
      refine .idles ?_ .exhausted
      rw [Idles, answered]
      exact notApplied
    have plain : ∀ step ∈ openingSequence.steps,
        step.dispreferred = false ∧ step.alternative = none ∧
          (step.optional = true → step.rules = [2]) := by
      decide
    have behind : ∀ entry ∈ openingRetrace.steps, ∀ candidate ∈ entry.candidates,
        candidate.form.text ∈ (["kxss", "kxs", "kx"] : List Text) ∧
          (entry.index + 1 < openingSequence.steps.length → entry.index = 1 ∧
            candidate.form = { text := "kx", language := "b" } ∧ candidate.produces = "kxs") := by
      decide
    constructor
    case inReserve =>
      intro entry _ step isStep isFallback
      cases (plain step (List.mem_of_getElem? isStep)).1.symm.trans isFallback
    case leftOut =>
      intro index step text isStep mayBeLeftOut isBehind
      obtain ⟨notReserve, -, isFirst⟩ := plain step (List.mem_of_getElem? isStep)
      rw [isFirst (by simpa [notReserve] using mayBeLeftOut)]
      obtain rfl | ⟨entry, isEntry, -, candidate, isCandidate, rfl⟩ := isBehind
      · exact idles _ List.mem_cons_self
      · exact idles _ (behind entry isEntry candidate isCandidate).1
    case preferred =>
      intro entry _ step isStep isTwofold
      exact absurd (plain step (List.mem_of_getElem? isStep)).2.1 isTwofold
    case isExact =>
      intro entry isEntry step isStep goesOn candidate isCandidate rule next first
      obtain ⟨isSecond, isForm, produces⟩ := (behind entry isEntry candidate isCandidate).2 goesOn
      rw [isSecond] at isStep
      cases isStep
      rw [isForm] at first
      rw [produces]
      have seen : (applyUnder openingRules usualMarker { text := "kx", language := "b" }
          1).result.toOption.map (fun answer => (answer.2.applied, answer.2.form)) =
            some (true, { text := "kxs", language := "a" }) := by
        decide +kernel
      obtain ⟨⟨_, hasApplied, made⟩, answered, same⟩ := Except.exists_of_toOption_map seen
      cases same
      cases (firstApplying_cons_of_applies answered).mp first
      exact ⟨rfl, rfl, rfl⟩
  obtain ⟨derivation, derived, isComplete, makes⟩ := derive_of_retrace shortNames
    (Inventories.areOf_empty _) retrace_openingRules borneOut "kx" List.mem_cons_self {}
    (Inventories.areOf_empty _)
  exact ⟨borneOut, derivation, derived, isComplete, makes⟩

end Graph

end Diachrony
