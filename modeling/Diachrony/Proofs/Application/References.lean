import Diachrony.Proofs.Application.Failures
import Diachrony.Proofs.Application.Calls
import Diachrony.Proofs.Notation.Completeness

/-!
# References

Before a rule runs, all names in it are looked up.  In a logic that was read nothing is
missing, and every name that a condition or an instruction may come to is among those that
were looked up, on whatever word and however early a condition is decided.  So where a
rule calls no other one, its references alone decide whether it fails.
-/
namespace Diachrony

open Work

variable {Kept : Inventories → Prop} {Fails : Error → Prop} {frame : Frame}

theorem Frame.failsOnly_classTerms {expression : Option Text}
    (isChecked : frame.checkClass expression = .ok ()) (text : Text)
    (isText : expression = some text) : FailsOnly Fails (frame.inventory.classTerms text) := by
  subst isText
  obtain ⟨terms, gave, -⟩ := Except.bind_eq_ok.mp isChecked
  exact failsOnly_of_eq_ok gave

theorem SoundPattern.resolves_of_check {pattern : SoundPattern} (isRead : pattern.IsRead)
    (isChecked : frame.checkClass pattern.soundClass = .ok ()) :
    pattern.Resolves Fails frame.inventory := by
  cases isRead with
  | literal => exact fun isNone => nomatch isNone
  | soundClass => exact fun _ => Frame.failsOnly_classTerms isChecked _ rfl

theorem SeekTarget.resolves_of_check {target : SeekTarget}
    (isChecked : frame.checkClass target.soundClass = .ok ()) :
    target.Resolves Fails frame.inventory :=
  Frame.failsOnly_classTerms isChecked

namespace Predicate

variable {predicate : Predicate}

theorem IsRead.pattern (isRead : predicate.IsRead) {pattern : SoundPattern}
    (isPattern : predicate.pattern = some pattern) : pattern.IsRead := by
  cases isRead <;> cases isPattern <;> assumption

theorem pattern_resolves (isRead : predicate.IsRead)
    (isChecked : frame.checkPredicate predicate = .ok ()) {pattern : SoundPattern}
    (isPattern : predicate.pattern = some pattern) : pattern.Resolves Fails frame.inventory := by
  refine SoundPattern.resolves_of_check (isRead.pattern isPattern) ?_
  have isFound := (Except.check_eq_ok.mp isChecked).1
  rwa [isPattern] at isFound

theorem pattern_of_endingPattern? {pattern : SoundPattern}
    (isEnding : predicate.endingPattern? = some pattern) : predicate.pattern = some pattern := by
  unfold endingPattern? at isEnding
  split at isEnding
  · exact isEnding
  · cases isEnding

/-- Whatever a predicate that was read comes to, it has been looked up. -/
theorem resolves_of_check (isRead : predicate.IsRead)
    (isChecked : frame.checkPredicate predicate = .ok ()) {atSound : Bool}
    (fits : predicate.test.isSegmental = true → atSound = true) :
    predicate.Resolves Fails frame atSound := by
  have patterns : ∀ pattern, predicate.pattern = some pattern →
      pattern.Resolves Fails frame.inventory := fun _ => pattern_resolves isRead isChecked
  obtain ⟨-, isChecked⟩ := Except.check_eq_ok.mp isChecked
  obtain ⟨isSought, isChecked⟩ := Except.check_eq_ok.mp isChecked
  refine ⟨fun isSegmental isWord => ?_, ?_⟩
  · cases isWord.symm.trans (fits isSegmental)
  · cases isRead with
    | otherwise | atEdge | inStressedSyllable | stressOn => trivial
    | sound | wordEdge => exact patterns _ rfl
    | syllableCount => exact fun _ => trivial
    | wordClass =>
        obtain ⟨entry, gave, -⟩ := Except.bind_eq_ok.mp isChecked
        exact failsOnly_of_eq_ok gave
    | syllable => exact ⟨trivial, patterns _ rfl⟩
    | seek => exact ⟨SeekTarget.resolves_of_check isSought, patterns _ rfl⟩

end Predicate

/-- The new sounds of a change are written as they are, not chosen by their features. -/
def SoundChange.WritesNoFeatures (change : SoundChange) : Prop :=
  ∀ slot ∈ change.after, slot.features = []

instance : DecidablePred SoundChange.WritesNoFeatures := fun change =>
  inferInstanceAs (Decidable (∀ slot ∈ change.after, slot.features = []))

theorem Slot.resolves_of_check {slot : Slot} (isFilled : slot.IsFilled)
    (isChecked : frame.checkSlot slot = .ok ()) : slot.Resolves Fails frame.inventory := by
  intro isInside notLiteral
  unfold Frame.checkSlot at isChecked
  rw [if_neg (by simpa using isFilled isInside notLiteral)] at isChecked
  obtain ⟨terms, gave, -⟩ := Except.bind_eq_ok.mp isChecked
  exact failsOnly_of_eq_ok gave

theorem SoundChange.resolves_of_check {change : SoundChange} (isRead : change.IsRead)
    (areChecked : ∀ slot ∈ change.slots, frame.checkSlot slot = .ok ())
    (noFeatures : change.WritesNoFeatures) : change.Resolves Fails frame.inventory := by
  obtain ⟨areChecked, following⟩ := List.forall_mem_append.mp areChecked
  obtain ⟨areChecked, preceding⟩ := List.forall_mem_append.mp areChecked
  obtain ⟨before, -⟩ := List.forall_mem_append.mp areChecked
  refine ⟨.inl (inside_of_checkSounds isRead.fits).1, fun slot isMember => ?_,
    fun slot isMember notLiteral => ?_, fun slot isMember => ?_, fun slot isMember => ?_⟩
  · exact Slot.resolves_of_check (isRead.before.isFilled slot isMember) (before slot isMember)
  · have isInside := (inside_of_checkSounds isRead.fits).2 slot isMember
    exact absurd (noFeatures slot isMember)
      (isRead.after.isFilled slot isMember isInside notLiteral)
  · exact Slot.resolves_of_check (isRead.preceding.isFilled slot isMember) (preceding slot isMember)
  · exact Slot.resolves_of_check (isRead.following.isFilled slot isMember) (following slot isMember)

namespace Instruction

variable {instruction : Instruction}

/-- Whatever an instruction that was read comes to on a word, it has been looked up. -/
theorem resolves_of_check (isRead : instruction.IsRead)
    (isChecked : frame.checkInstruction instruction = .ok ())
    (isAboutWords : instruction.kind.isSegmental = false) (callsNone : instruction.rule = none)
    (noFeatures : ∀ change ∈ instruction.change, change.WritesNoFeatures)
    {branch : Option Branch}
    (endings : ∀ asked, branch = some asked → ∀ predicate ∈ asked.condition.predicates,
      ∀ pattern, predicate.endingPattern? = some pattern →
        pattern.Resolves Fails frame.inventory) :
    instruction.Resolves Kept Fails frame branch := by
  obtain ⟨isSought, isChecked⟩ := Except.check_eq_ok.mp isChecked
  have categories {names : Text}
      (areChecked : (citedCategories (some names)).forM (fun name => do
        let _ ← resolveCategory frame.language [] name) = .ok ()) :
      ∀ key ∈ citedCategories (some names),
        FailsOnly Fails (resolveCategory frame.language [] key) := by
    intro key isMember
    obtain ⟨value, gave, -⟩ := Except.bind_eq_ok.mp (Except.forM_eq_ok.mp areChecked key isMember)
    exact failsOnly_of_eq_ok gave
  cases isRead with
  | noChange | stress => trivial
  | changeSound | dropSound | changeClass => cases isAboutWords
  | changeEnding => exact ⟨trivial, endings⟩
  | attachText => exact ⟨fun _ => trivial, fun _ isSought => nomatch isSought⟩
  | attachSound =>
      refine ⟨fun isNone => ?_, fun target isTarget => ?_⟩
      · cases isNone
      · cases isTarget
        exact SeekTarget.resolves_of_check isSought
  | insert => exact ⟨SeekTarget.resolves_of_check isSought, trivial⟩
  | markClass =>
      obtain ⟨entry, gave, -⟩ := Except.bind_eq_ok.mp isChecked
      exact failsOnly_of_eq_ok gave
  | addCategory | replaceCategory => exact categories isChecked
  | applyRule | applySoundRule => cases callsNone
  | soundChange isChange =>
      exact SoundChange.resolves_of_check isChange (Except.forM_eq_ok.mp isChecked) (noFeatures _ rfl)

theorem resolvesAtSound_of_check (isChecked : frame.checkInstruction instruction = .ok ()) :
    instruction.ResolvesAtSound Fails frame := by
  intro isKind
  unfold Frame.checkInstruction at isChecked
  rw [isKind] at isChecked
  obtain ⟨-, isChecked⟩ := Except.check_eq_ok.mp isChecked
  obtain ⟨isSource, isTarget⟩ := Except.check_eq_ok.mp isChecked
  exact ⟨failsOnly_of_eq_ok isSource, failsOnly_of_eq_ok isTarget⟩

end Instruction

namespace Logic

variable {logic : Logic}

/-- The new sounds of all sound changes in a logic are written as they are. -/
def WritesNoFeatures (logic : Logic) : Prop :=
  ∀ instruction ∈ logic.instructions, ∀ change ∈ instruction.change, change.WritesNoFeatures

instance : DecidablePred WritesNoFeatures := fun logic =>
  inferInstanceAs (Decidable
    (∀ instruction ∈ logic.instructions, ∀ change ∈ instruction.change, change.WritesNoFeatures))

theorem kind_of_lacks {isRefused : InstructionKind → Bool} {instructions : List Instruction}
    (areLacking : lacks isRefused instructions = true) :
    ∀ instruction ∈ instructions, isRefused instruction.kind = false := by
  intro instruction isMember
  simpa using List.all_eq_true.mp areLacking instruction isMember

theorem opening_of_fits (fits : logic.fits = true) :
    ∀ instruction ∈ logic.openingInstructions, instruction.kind.isSegmental = false := by
  unfold Logic.fits at fits
  exact kind_of_lacks (Bool.and_eq_true_iff.mp fits).1

/-- The branches of a rule that is no sound rule have nothing in them about one sound. -/
theorem branches_of_fits (fits : logic.fits = true) (notSegmental : logic.isSegmental = false) :
    ∀ branch ∈ logic.branches,
      (∀ predicate ∈ branch.condition.predicates, predicate.test.isSegmental = false) ∧
        ∀ instruction ∈ branch.instructions, instruction.kind.isSegmental = false := by
  intro branch isBranch
  cases logic with
  | sequential => cases isBranch
  | branching opening branches =>
      have areFit := (Bool.and_eq_true_iff.mp (Bool.and_eq_true_iff.mp fits).2).2
      have isFit := List.all_eq_true.mp areFit branch isBranch
      rw [notSegmental] at isFit
      have lacking := (Bool.and_eq_true_iff.mp (Bool.and_eq_true_iff.mp isFit).2).1
      refine ⟨fun predicate isMember => ?_, kind_of_lacks lacking⟩
      have noneAsks : branch.condition.isSegmental = false := by
        simpa using List.any_eq_false.mp notSegmental branch isBranch
      simpa using List.any_eq_false.mp noneAsks predicate isMember

/-- In a logic that fits, only words are asked about words and only what is done to words is
done to them. -/
theorem resolves_of_fits (fits : logic.fits = true)
    (predicates : ∀ predicate ∈ logic.predicates, ∀ atSound,
      (predicate.test.isSegmental = true → atSound = true) →
        predicate.Resolves Fails frame atSound)
    (sounds : ∀ instruction ∈ logic.instructions, instruction.ResolvesAtSound Fails frame)
    (words : ∀ instruction ∈ logic.instructions, instruction.kind.isSegmental = false →
      ∀ branch : Option Branch, (∀ asked, branch = some asked →
        ∀ predicate ∈ asked.condition.predicates, predicate ∈ logic.predicates) →
        instruction.Resolves Kept Fails frame branch) :
    logic.Resolves Kept Fails frame := by
  have ofBranch : ∀ branch ∈ logic.branches, ∀ instruction ∈ branch.instructions,
      instruction ∈ logic.instructions := fun branch isBranch instruction isMember =>
    List.mem_append_right _ (List.mem_flatMap.mpr ⟨branch, isBranch, isMember⟩)
  have asked : ∀ branch ∈ logic.branches, ∀ predicate ∈ branch.condition.predicates,
      predicate ∈ logic.predicates := fun branch isBranch predicate isMember =>
    List.mem_flatMap.mpr ⟨branch, isBranch, isMember⟩
  refine ⟨fun instruction isMember => ?_, fun _ branch isBranch => ⟨?_, ?_⟩,
    fun notSegmental branch isBranch => ⟨?_, ?_⟩⟩
  · exact words instruction (List.mem_append_left _ isMember)
      (opening_of_fits fits instruction isMember) none fun _ isNone => nomatch isNone
  · exact fun predicate isMember =>
      predicates predicate (asked branch isBranch predicate isMember) true fun _ => rfl
  · exact fun instruction isMember => sounds instruction (ofBranch branch isBranch instruction isMember)
  · intro predicate isMember
    have isAboutWords := (branches_of_fits fits notSegmental branch isBranch).1 predicate isMember
    refine predicates predicate (asked branch isBranch predicate isMember) false ?_
    exact fun isSegmental => absurd isSegmental (Bool.not_eq_true _ ▸ isAboutWords)
  · intro instruction isMember
    refine words instruction (ofBranch branch isBranch instruction isMember)
      ((branches_of_fits fits notSegmental branch isBranch).2 instruction isMember) (some branch) ?_
    rintro _ ⟨rfl⟩
    exact asked branch isBranch

/-- Whatever a logic in which nothing is missing comes to, it has been looked up. -/
theorem resolves_of_check (isComplete : logic.IsComplete)
    (predicates : ∀ predicate ∈ logic.predicates, frame.checkPredicate predicate = .ok ())
    (instructions : ∀ instruction ∈ logic.instructions,
      frame.checkInstruction instruction = .ok ())
    (callsNone : logic.ruleRefs = []) (noFeatures : logic.WritesNoFeatures) :
    logic.Resolves Kept Fails frame := by
  have noRule : ∀ instruction ∈ logic.instructions, instruction.rule = none :=
    List.filterMap_eq_nil_iff.mp callsNone
  refine resolves_of_fits isComplete.fits (fun predicate isMember _ => ?_)
    (fun instruction isMember => ?_) fun instruction isMember isAboutWords branch areAsked => ?_
  · exact Predicate.resolves_of_check (isComplete.predicates predicate isMember)
      (predicates predicate isMember)
  · exact Instruction.resolvesAtSound_of_check (instructions instruction isMember)
  · refine Instruction.resolves_of_check (isComplete.instructions instruction isMember)
      (instructions instruction isMember) isAboutWords (noRule instruction isMember)
      (noFeatures instruction isMember) ?_
    intro asked isBranch predicate isAsked pattern isEnding
    have isPredicate := areAsked asked isBranch predicate isAsked
    exact Predicate.pattern_resolves (isComplete.predicates predicate isPredicate)
      (predicates predicate isPredicate) (Predicate.pattern_of_endingPattern? isEnding)

end Logic

/-- A rule whose logic was read from a text, however names were found in it. -/
def Rule.IsRead (rule : Rule) : Prop :=
  ∃ resolver text, Logic.read resolver text = .ok rule.logic

theorem Rule.IsRead.isComplete {rule : Rule} (isRead : rule.IsRead) : rule.logic.IsComplete := by
  obtain ⟨resolver, text, gave⟩ := isRead
  exact Logic.isComplete_of_read gave

theorem Frame.failsOnly_declareCategories {rule : Rule}
    (isChecked : frame.checkCategories rule = .ok ()) (form : WordForm) :
    FailsOnly Fails (frame.declareCategories rule form) := by
  obtain ⟨⟨target, others⟩, isFound, isChecked⟩ := Except.bind_eq_ok.mp isChecked
  obtain ⟨replaced, added⟩ := List.forall_mem_append.mp (Except.forM_eq_ok.mp isChecked)
  have resolves {key : Text} (isChecked : (do
      let _ ← resolveCategory target others key : Except Error Unit) = .ok ()) :
      FailsOnly Fails (resolveCategory target others key) := by
    obtain ⟨value, gave, -⟩ := Except.bind_eq_ok.mp isChecked
    exact failsOnly_of_eq_ok gave
  unfold declareCategories
  rw [isFound]
  refine failsOnly_bind (failsOnly_ok _) fun languages areLanguages => ?_
  cases areLanguages
  refine failsOnly_bind (failsOnly_changeCategories fun key isMember => ?_) fun changed _ => ?_
  · exact resolves (replaced key isMember)
  · exact failsOnly_changeCategories fun key isMember => resolves (added key isMember)

def WordForm.CountsForward (form : WordForm) : Prop :=
  ∀ stressed, form.stressedIndex = some stressed → 0 ≤ stressed

namespace Graph

variable {graph : Graph} {marker : Text} {rule : Rule} {source : Language}

/-- Where a rule refers to something that is not there, it fails with that on every form;
otherwise it is run. -/
theorem on_apply (isSource : graph.language rule.fromLanguage = .ok source) (form : WordForm)
    (made : Inventories) :
    ((graph.apply rule form marker).on made).1 =
      match (graph.outerFrame marker source (serve made source).1).checkReferences rule with
      | .error failure => .error (failure.attributedTo rule.name)
      | .ok () =>
        (((graph.frameWithin marker [rule.ref] [] source (serve made source).1).runWhole
          rule form).on (serve made source).2).1.mapError (Error.attributedTo rule.name) := by
  have sameCheck :
      (graph.frameWithin marker [rule.ref] [] source (serve made source).1).checkReferences rule =
        (graph.outerFrame marker source (serve made source).1).checkReferences rule := rfl
  unfold apply
  rw [applyWithin_eq, isSource, ← sameCheck]
  change ((((liftM ((graph.frameWithin marker [rule.ref] [] source
    (serve made source).1).checkReferences rule) : Session Unit) >>= fun _ => _).on
      (serve made source).2).1.mapError _ = _)
  cases (graph.frameWithin marker [rule.ref] [] source (serve made source).1).checkReferences
    rule <;> rfl

/-- What a rule of a logic that was read comes to has been looked up, if it was checked that
what it refers to is there. -/
theorem resolves_of_check (isRead : rule.IsRead) (callsNone : rule.logic.ruleRefs = [])
    (noFeatures : rule.logic.WritesNoFeatures) {inventory : Inventory}
    (isChecked : (graph.outerFrame marker source inventory).checkReferences rule = .ok ()) :
    rule.logic.Resolves Kept Fails (graph.frameWithin marker [rule.ref] [] source inventory) := by
  obtain ⟨predicates, areChecked⟩ := Except.check_eq_ok.mp isChecked
  obtain ⟨instructions, -⟩ := Except.check_eq_ok.mp areChecked
  exact Logic.resolves_of_check isRead.isComplete (Except.forM_eq_ok.mp predicates)
    (Except.forM_eq_ok.mp instructions) callsNone noFeatures

/-- A rule of a logic that was read gives an outcome on every form, if what it refers to is
there. -/
theorem exists_outcome_of_check {resolver : Resolver} {text : Text}
    (isRead : Logic.read resolver text = .ok rule.logic) (callsNone : rule.logic.ruleRefs = [])
    (noFeatures : rule.logic.WritesNoFeatures)
    (isSource : graph.language rule.fromLanguage = .ok source)
    (noStressRule : source.stressRule = none) {made : Inventories}
    (isChecked : (graph.outerFrame marker source (serve made source).1).checkReferences rule =
      .ok ()) {form : WordForm} (isForward : form.CountsForward) :
    ∃ outcome, ((graph.apply rule form marker).on made).1 = .ok outcome := by
  have found : ((graph.apply rule form marker).on made).1 = _ := on_apply isSource form made
  rw [isChecked] at found
  obtain ⟨-, areChecked⟩ := Except.check_eq_ok.mp isChecked
  obtain ⟨-, categories⟩ := Except.check_eq_ok.mp areChecked
  have resolves : rule.logic.Resolves Inventories.Any (fun _ => False) _ :=
    resolves_of_check ⟨resolver, text, isRead⟩ callsNone noFeatures isChecked
  have runs := Frame.ensures_runWhole (Frame.stressesOnly_of_stressRule noStressRule)
    (fun stressed isStressed => .inl (isForward stressed isStressed)) resolves
    (Frame.failsOnly_declareCategories categories)
  obtain ⟨outcome, left, ran, -, -⟩ :=
    runs.exists_value (trivial : Inventories.Any (serve made source).2)
  rw [found, ran]
  exact ⟨outcome, rfl⟩

/-- Where a logic that was read calls no rule and writes no features, and where no rule says
what the stress is, a rule fails for what it refers to and for nothing else: it fails on
every form alike if that is not there, and otherwise it gives an outcome on every form. -/
theorem references_decide_failure {resolver : Resolver} {text : Text}
    (isRead : Logic.read resolver text = .ok rule.logic) (callsNone : rule.logic.ruleRefs = [])
    (noFeatures : rule.logic.WritesNoFeatures)
    (isSource : graph.language rule.fromLanguage = .ok source)
    (noStressRule : source.stressRule = none) (made : Inventories) :
    (∀ failure,
      (graph.outerFrame marker source (serve made source).1).checkReferences rule =
        .error failure →
      ∀ form, ((graph.apply rule form marker).on made).1 =
        .error (failure.attributedTo rule.name)) ∧
    ((graph.outerFrame marker source (serve made source).1).checkReferences rule = .ok () →
      ∀ form : WordForm, form.CountsForward →
        ∃ outcome, ((graph.apply rule form marker).on made).1 = .ok outcome) ∧
    ∀ later, (serve later source).1 = (serve made source).1 →
      ∀ first second : WordForm, first.CountsForward → second.CountsForward → ∀ failure,
        ((graph.apply rule first marker).on made).1 = .error failure ↔
          ((graph.apply rule second marker).on later).1 = .error failure := by
  have gives : ∀ {made : Inventories},
      (graph.outerFrame marker source (serve made source).1).checkReferences rule = .ok () →
      ∀ form : WordForm, form.CountsForward →
        ∃ outcome, ((graph.apply rule form marker).on made).1 = .ok outcome :=
    fun isChecked _ => exists_outcome_of_check isRead callsNone noFeatures isSource noStressRule
      isChecked
  refine ⟨fun failure isRefused form => ?_, gives, fun later sameInventory first second
    isFirst isSecond failure => ?_⟩
  · rw [on_apply isSource, isRefused]
  · cases isChecked : (graph.outerFrame marker source (serve made source).1).checkReferences rule with
    | error refusal =>
        rw [on_apply isSource, on_apply isSource, sameInventory, isChecked]
    | ok =>
        obtain ⟨outcome, gave⟩ := gives isChecked first isFirst
        obtain ⟨other, gaveOther⟩ := gives (sameInventory ▸ isChecked) second isSecond
        rw [gave, gaveOther]
        exact iff_of_false (fun isError => nomatch isError) fun isError => nomatch isError

def spokenLanguage (phonemes : List Phoneme) : Language := { name := "A", shortName := "a", phonemes }

def ofLanguage (language : Language) : Graph where
  languages := ⟨[(language.shortName, language)]⟩

def innerRule (logic : Logic) : Rule where
  id := 1
  name := "inner"
  fromLanguage := "a"
  toLanguage := "a"
  logic := logic

/-- Behind an alternative that may hold stands a class: without a vowel in the language the
rule fails also where the first alternative holds. -/
theorem references_decide_failure_behindAlternative :
    ∃ logic, Logic.read (fun _ => none)
        "word ends with 's' or word ends with vowel:\n- append 't'" = .ok logic ∧
      logic.ruleRefs = [] ∧ logic.WritesNoFeatures ∧
      (∃ failure, ∀ form, (((ofLanguage (spokenLanguage [])).apply
        (innerRule logic) form "-").on {}).1 = .error failure) ∧
      ∀ form : WordForm, form.CountsForward → ∃ outcome,
        (((ofLanguage (spokenLanguage [{ spelling := "a", tags := [vowelClass] }])).apply
          (innerRule logic) form "-").on {}).1 = .ok outcome := by
  let check (phonemes : List Phoneme) (logic : Logic) : Except Error Unit :=
    ((ofLanguage (spokenLanguage phonemes)).outerFrame "-" (spokenLanguage phonemes)
      (serve {} (spokenLanguage phonemes)).1).checkReferences (innerRule logic)
  have found : (Logic.read (fun _ => none)
      "word ends with 's' or word ends with vowel:\n- append 't'").toOption.map
        (fun logic => (decide (logic.ruleRefs = []), decide logic.WritesNoFeatures,
          (check [] logic).toOption,
          (check [{ spelling := "a", tags := [vowelClass] }] logic).toOption)) =
        some (true, true, none, some ()) := by
    decide +kernel
  obtain ⟨logic, isRead, seen⟩ := Except.exists_of_toOption_map found
  simp only [Prod.mk.injEq, decide_eq_true_eq] at seen
  obtain ⟨callsNone, noFeatures, isRefused, isPassed⟩ := seen
  have isSource : ∀ phonemes, (ofLanguage (spokenLanguage phonemes)).language
      (innerRule logic).fromLanguage = .ok (spokenLanguage phonemes) := fun _ => rfl
  have noStressRule : ∀ phonemes, (spokenLanguage phonemes).stressRule = none := fun _ => rfl
  refine ⟨logic, isRead, callsNone, noFeatures, ?_, ?_⟩
  · obtain ⟨refuses, -⟩ := references_decide_failure isRead callsNone noFeatures
      (isSource []) (noStressRule []) {}
    cases isCheck : check [] logic with
    | ok => simp [isCheck, Except.toOption] at isRefused
    | error failure => exact ⟨_, refuses failure isCheck⟩
  · obtain ⟨-, gives, -⟩ := references_decide_failure isRead callsNone noFeatures
      (isSource [{ spelling := "a", tags := [vowelClass] }]) (noStressRule _) {}
    exact gives (Except.toOption_eq_some.mp isPassed)

end Graph

end Diachrony
