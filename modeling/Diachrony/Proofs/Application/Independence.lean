import Diachrony.Proofs.Application.Calls
import Diachrony.Proofs.Application.Frames
import Diachrony.Proofs.Edit

/-!
# Applying a rule does not depend on what was made before

While every language stands under its own short name, what a rule makes of a form
is the same from whatever inventories the work goes on, and in every graph with the
same languages and the same rules of those that are called.  Of the form, only what
bears on rules matters: its text, its classes and its stress.

`Frame.agree_run` says so of one rule whose calls of other rules agree, and
`Graph.agree_applyWithin` ties the knot by induction on the rules that are left to
call.
-/
namespace Diachrony

open Work

/-- A word without stress of its own is like itself. -/
theorem Segmentation.alike_unstressed {σ τ : Type} (Kept : σ → τ → Prop)
    (inventory : Inventory) (text : Text) :
    Segmentation.Alike Kept (.unstressed inventory text)
      (.unstressed inventory text) :=
  ⟨pure none, rfl, agree_pure rfl⟩

namespace Frame

variable {σ τ : Type} {Kept : σ → τ → Prop} {Like : WordForm → WordForm → Prop}
  {Called : Int → Prop} {frame : Frame σ} {other : Frame τ} {word : Segmentation σ}
  {otherWord : Segmentation τ}

theorem agree_fillsSlot (sameInventory : other.inventory = frame.inventory)
    (wordsAlike : Segmentation.Alike Kept word otherWord) (slot : Slot) (index : Nat) :
    AgreeOn Kept (· = ·) (frame.fillsSlot word slot index)
      (other.fillsSlot otherWord slot index) := by
  unfold fillsSlot
  cases slot.literal with
  | some text =>
      obtain ⟨stress, rfl, -⟩ := wordsAlike
      exact agree_pure rfl
  | none =>
      rw [sameInventory]
      exact agree_lookup fun terms _ =>
        Segmentation.agree_satisfiesAll wordsAlike index terms

theorem agree_matchForward? (sameInventory : other.inventory = frame.inventory)
    (wordsAlike : Segmentation.Alike Kept word otherWord) (slots : List Slot)
    (index : Nat) :
    AgreeOn Kept (· = ·) (frame.matchForward? word slots index)
      (other.matchForward? otherWord slots index) := by
  have fills := agree_fillsSlot sameInventory wordsAlike
  obtain ⟨stress, rfl, -⟩ := wordsAlike
  induction slots generalizing index with
  | nil => exact agree_pure rfl
  | cons slot slots inductionHypothesis =>
      unfold matchForward?
      refine agree_ite (fun _ => ?_) fun _ => ?_
      · exact agree_ite (fun _ => inductionHypothesis index) fun _ => agree_pure rfl
      · refine agree_ite (fun _ => ?_) fun _ => agree_pure rfl
        refine agree_bind_eq (fills slot index) fun _ => ?_
        exact agree_ite (fun _ => inductionHypothesis (index + 1)) fun _ => agree_pure rfl

theorem agree_matchesBackward (sameInventory : other.inventory = frame.inventory)
    (wordsAlike : Segmentation.Alike Kept word otherWord) (slots : List Slot)
    (index : Nat) :
    AgreeOn Kept (· = ·) (frame.matchesBackward word slots index)
      (other.matchesBackward otherWord slots index) := by
  have fills := agree_fillsSlot sameInventory wordsAlike
  induction slots generalizing index with
  | nil => exact agree_pure rfl
  | cons slot slots inductionHypothesis =>
      unfold matchesBackward
      refine agree_ite (fun _ => ?_) fun _ => ?_
      · exact agree_ite (fun _ => inductionHypothesis index) fun _ => agree_pure rfl
      · cases index with
        | zero => exact agree_pure rfl
        | succ index =>
            refine agree_bind_eq (fills slot index) fun _ => ?_
            exact agree_ite (fun _ => inductionHypothesis index) fun _ => agree_pure rfl

theorem agree_closestSpelling? (sameInventory : other.inventory = frame.inventory)
    (terms : List ClassTerm) (phoneme : Phoneme) (phonemes : List Phoneme) :
    AgreeOn Kept (· = ·) (frame.closestSpelling? terms phoneme phonemes)
      (other.closestSpelling? terms phoneme phonemes) := by
  unfold closestSpelling?
  rw [sameInventory]
  refine agree_foldlM (fun best candidate => ?_) phonemes none
  refine agree_ite (fun _ => ?_) fun _ => agree_pure rfl
  refine agree_bind_eq (Segmentation.agree_satisfiesAll
    (Segmentation.alike_unstressed Kept _ _) 0 terms) fun _ => ?_
  refine agree_ite (fun _ => ?_) fun _ => agree_pure rfl
  exact agree_ite (fun _ => agree_pure rfl) fun _ => agree_pure rfl

theorem agree_slotOutput (sameInventory : other.inventory = frame.inventory)
    (wordsAlike : Segmentation.Alike Kept word otherWord) (slot : Slot)
    (source : Option Nat) :
    AgreeOn Kept (· = ·) (frame.slotOutput word slot source)
      (other.slotOutput otherWord slot source) := by
  obtain ⟨stress, rfl, -⟩ := wordsAlike
  unfold slotOutput
  cases slot.literal with
  | some text => exact agree_pure rfl
  | none =>
      cases source with
      | none => exact agree_throw _ _
      | some index =>
          have same : (word.withStress stress).segment? (index : Int) =
            word.segment? index := rfl
          simp only [same]
          cases word.segment? index with
          | none => exact agree_throw _ _
          | some segment =>
              dsimp only
              cases segment.phoneme with
              | none => exact agree_pure rfl
              | some phoneme =>
                  simp only [sameInventory]
                  refine agree_lookup fun terms _ => ?_
                  exact agree_bind_eq (agree_closestSpelling? sameInventory terms phoneme _)
                    fun _ => agree_pure rfl

theorem agree_outputPieces (sameInventory : other.inventory = frame.inventory)
    (wordsAlike : Segmentation.Alike Kept word otherWord) (slots : List Slot)
    (index old : Nat) :
    AgreeOn Kept (· = ·) (frame.outputPieces word index old slots)
      (other.outputPieces otherWord index old slots) := by
  induction slots generalizing index old with
  | nil => cases old <;> exact agree_pure rfl
  | cons slot slots inductionHypothesis =>
      cases old with
      | zero =>
          refine agree_bind_eq (agree_slotOutput sameInventory wordsAlike slot none) fun _ => ?_
          exact agree_bind_eq (inductionHypothesis index 0) fun _ => agree_pure rfl
      | succ old =>
          refine agree_bind_eq (agree_slotOutput sameInventory wordsAlike slot _) fun _ => ?_
          exact agree_bind_eq (inductionHypothesis (index + 1) old) fun _ => agree_pure rfl

theorem agree_matchAt? (sameInventory : other.inventory = frame.inventory)
    (wordsAlike : Segmentation.Alike Kept word otherWord) (change : SoundChange)
    (index : Nat) :
    AgreeOn Kept (· = ·) (frame.matchAt? word change index)
      (other.matchAt? otherWord change index) := by
  have forward := agree_matchForward? sameInventory wordsAlike
  refine agree_bind_eq (forward change.before index) fun stop? => ?_
  cases stop? with
  | none => exact agree_pure rfl
  | some stop =>
      refine agree_bind_eq (forward change.following stop) fun follows? => ?_
      cases follows? with
      | none => exact agree_pure rfl
      | some _ =>
          refine agree_bind_eq
            (agree_matchesBackward sameInventory wordsAlike change.preceding index) fun _ => ?_
          exact agree_ite (fun _ => agree_pure rfl) fun _ => agree_pure rfl

theorem agree_changeFrom (sameInventory : other.inventory = frame.inventory)
    (wordsAlike : Segmentation.Alike Kept word otherWord) (change : SoundChange)
    (index : Nat) :
    AgreeOn Kept (· = ·) (frame.changeFrom word change index)
      (other.changeFrom otherWord change index) := by
  have matched := agree_matchAt? sameInventory wordsAlike change
  have written := agree_outputPieces sameInventory wordsAlike change.after
  obtain ⟨stress, rfl, -⟩ := wordsAlike
  have sameLength : (word.withStress stress).length = word.length := rfl
  have sameCopy : copiedPiece (word.withStress stress) index = copiedPiece word index := rfl
  induction left : word.length + 1 - index using Nat.strongRecOn generalizing index with
  | ind left inductionHypothesis =>
      unfold changeFrom
      rw [sameLength, sameCopy]
      refine agree_ite (fun isInside => ?_) fun _ => agree_pure rfl
      have further (next : Nat) (isFurther : index < next) :=
        inductionHypothesis (word.length + 1 - next) (by omega) next rfl rfl
      refine agree_bind_eq (matched index) fun stop? => ?_
      cases stop? with
      | none => exact agree_bind_eq (further _ (by omega)) fun _ => agree_pure rfl
      | some stop =>
          refine agree_bind_eq (written index change.before.length) fun output => ?_
          by_cases covers : index < stop
          · simp only [covers, dif_pos]
            exact agree_bind_eq (further stop covers) fun _ => agree_pure rfl
          · simp only [covers, dif_neg, not_false_eq_true]
            exact agree_bind_eq (further _ (by omega)) fun _ => agree_pure rfl

theorem agree_changeSounds (alike : Alike Kept Like Called frame other) (change : SoundChange)
    {form otherForm : WordForm} (like : Like form otherForm) :
    AgreeOn Kept Like (frame.changeSounds change form)
      (other.changeSounds change otherForm) := by
  refine agree_onSegmentation alike like fun word otherWord wordsAlike => ?_
  have split : other.splitSlots = frame.splitSlots := by
    funext slots
    simp only [splitSlots, alike.inventory]
  simp only [split, alike.withMarkOf like, alike.isLikeness.stressedIndex like]
  refine agree_bind_eq (agree_changeFrom alike.inventory wordsAlike _ 0) fun changed => ?_
  refine agree_ite (fun _ => ?_) fun _ => agree_pure like
  exact agree_pure (alike.isLikeness.withText _ _ like)

theorem checkClassName_eq (sameLanguage : other.language = frame.language)
    (sameInventory : other.inventory = frame.inventory) :
    other.checkClassName = frame.checkClassName := by
  funext name
  simp only [checkClassName, undefined, sameInventory, sameLanguage]

section

variable (sameLanguage : other.language = frame.language)
  (sameInventory : other.inventory = frame.inventory) {form otherForm : WordForm}
  (sameClasses : otherForm.classes = form.classes)
  (wordsAlike : Segmentation.Alike Kept word otherWord)

include sameLanguage sameInventory wordsAlike

theorem agree_changeSegment (index : Nat) (current : Option Text)
    (instruction : Instruction) :
    AgreeOn Kept (· = ·) (frame.changeSegment word index current instruction)
      (other.changeSegment otherWord index current instruction) := by
  obtain ⟨stress, rfl, -⟩ := wordsAlike
  have sameLength : (word.withStress stress).length = word.length := rfl
  have sameExchange : other.exchangeClass? (word.withStress stress) index =
      frame.exchangeClass? word index := by
    funext source target
    simp only [exchangeClass?, phonemeTagged?, sameLanguage]
    rfl
  unfold changeSegment
  rw [sameLength, sameExchange, checkClassName_eq sameLanguage sameInventory]
  cases instruction.kind with
  | changeSound => exact agree_ite (fun _ => agree_pure rfl) fun _ => agree_throw _ _
  | dropSound => exact agree_ite (fun _ => agree_pure rfl) fun _ => agree_throw _ _
  | changeClass =>
      refine agree_lookup fun _ _ => agree_lookup fun _ _ => ?_
      refine agree_lookup fun _ _ => agree_lookup fun _ _ => ?_
      refine agree_lookup fun replacement? _ => ?_
      cases replacement? <;> exact agree_pure rfl
  | _ => exact agree_pure rfl

include sameClasses

theorem agree_segmentOutcome? (branches : List Branch) (index : Nat) :
    AgreeOn Kept (· = ·) (frame.segmentOutcome? word form branches index)
      (other.segmentOutcome? otherWord otherForm branches index) := by
  refine agree_bind (Question.agree_firstBranch? sameLanguage
    ⟨otherForm, otherWord, rfl, sameClasses, wordsAlike⟩ branches) ?_
  rintro branch? _ ⟨rfl, -⟩
  cases branch? with
  | none => exact agree_pure rfl
  | some branch =>
      have changes := agree_foldlM (agree_changeSegment sameLanguage sameInventory wordsAlike index)
        branch.instructions
      obtain ⟨stress, rfl, -⟩ := wordsAlike
      exact agree_bind_eq (changes (word.segmentText? index)) fun _ => agree_pure rfl

theorem agree_segmentOutcomes (branches : List Branch) (indices : List Nat) :
    AgreeOn Kept (· = ·) (frame.segmentOutcomes word form branches indices)
      (other.segmentOutcomes otherWord otherForm branches indices) := by
  induction indices with
  | nil => exact agree_pure rfl
  | cons index indices inductionHypothesis =>
      refine agree_bind_eq (agree_segmentOutcome? sameLanguage sameInventory sameClasses wordsAlike
        branches index) fun outcome? => ?_
      refine agree_bind_eq inductionHypothesis fun outcomes => ?_
      cases outcome? <;> exact agree_pure rfl

end

section

variable (alike : Alike Kept Like Called frame other) {form otherForm : WordForm}
  (like : Like form otherForm)

include alike like

theorem agree_runSounds (branches : List Branch) (indices : Option (List Nat)) :
    AgreeOn Kept (Outcome.Alike Like) (frame.runSounds branches form indices)
      (other.runSounds branches otherForm indices) := by
  refine agree_onSegmentation alike like fun word otherWord wordsAlike => ?_
  have outcomes := agree_segmentOutcomes alike.language alike.inventory
    (alike.isLikeness.classes like) wordsAlike branches
  obtain ⟨stress, rfl, -⟩ := wordsAlike
  refine agree_bind_eq (outcomes (indices.getD (List.range word.length))) fun results => ?_
  refine agree_ite (fun _ => agree_pure ⟨rfl, like⟩) fun _ => ?_
  simp only [alike.withMarkOf like, alike.isLikeness.stressedIndex like]
  have changed (text : Text) (stressedIndex : Option Int) : Outcome.Alike Like
      ⟨true, form.withText text stressedIndex⟩ ⟨true, otherForm.withText text stressedIndex⟩ :=
    ⟨rfl, alike.isLikeness.withText _ _ like⟩
  cases form.stressedIndex with
  | none => exact agree_pure (changed _ _)
  | some index => exact agree_lookup fun _ _ => agree_pure (changed _ _)

end

def RefersOnly (Called : Int → Prop) (instructions : List Instruction) : Prop :=
  ∀ instruction ∈ instructions, ∀ rule, instruction.rule = some rule → Called rule.id

theorem refersOnly_of_references {logic : Logic}
    (areCalled : ∀ id ∈ logic.references, Called id) : RefersOnly Called logic.instructions := by
  intro instruction isMember rule isReferred
  exact areCalled rule.id (List.mem_map.mpr
    ⟨rule, List.mem_filterMap.mpr ⟨instruction, isMember, isReferred⟩, rfl⟩)

section

variable (alike : Alike Kept Like Called frame other)

include alike

theorem agree_carryOut (branch : Option Branch) {instruction : Instruction}
    (areCalled : ∀ rule, instruction.rule = some rule → Called rule.id)
    {form otherForm : WordForm} (like : Like form otherForm) :
    AgreeOn Kept Like (frame.carryOut branch form instruction)
      (other.carryOut branch otherForm instruction) := by
  have isCalled {rule : RuleRef} (isGiven : needed "rule" instruction.rule = .ok rule) :
      Called rule.id := by
    cases isReferred : instruction.rule with
    | none =>
        rw [isReferred] at isGiven
        cases isGiven
    | some referred =>
        rw [isReferred] at isGiven
        cases isGiven
        exact areCalled rule isReferred
  unfold carryOut
  cases instruction.kind with
  | noChange => exact agree_pure like
  | changeEnding => exact agree_changeEnding alike like branch instruction.argument
  | attach side => exact agree_attach alike like side instruction
  | insert side => exact agree_insert alike like side instruction
  | stress => exact agree_lookup fun ordinal _ => agree_moveStress alike like ordinal
  | markClass => exact agree_markClass alike like _
  | addCategory | replaceCategory => exact agree_changeByCitation alike like _ _
  | applyRule =>
      exact agree_lookup fun rule isGiven => agree_callRule alike like (isCalled isGiven) _
  | applySoundRule =>
      exact agree_lookup fun rule isGiven => agree_applySoundRule alike like (isCalled isGiven) _
  | soundChange => exact agree_lookup fun change _ => agree_changeSounds alike change like
  | changeSound | dropSound | changeClass => exact agree_throw _ _

theorem agree_carryOutAll (branch : Option Branch) {instructions : List Instruction}
    (refersOnly : RefersOnly Called instructions) {form otherForm : WordForm}
    (like : Like form otherForm) :
    AgreeOn Kept Like (frame.carryOutAll branch form instructions)
      (other.carryOutAll branch otherForm instructions) := by
  unfold carryOutAll
  induction instructions generalizing form otherForm with
  | nil => exact agree_pure like
  | cons instruction instructions inductionHypothesis =>
      obtain ⟨first, others⟩ := List.forall_mem_cons.mp refersOnly
      rw [List.foldlM_cons, List.foldlM_cons]
      exact agree_bind (agree_carryOut alike branch first like)
        fun _ _ like => inductionHypothesis others like

theorem agree_questionOf {form otherForm : WordForm} (like : Like form otherForm) :
    AgreeOn Kept (Question.Alike Kept)
      (frame.questionOf form) (other.questionOf otherForm) :=
  agree_bind (agree_segmentation alike like) fun _ otherWord wordsAlike =>
    agree_pure ⟨otherForm, otherWord, rfl, alike.isLikeness.classes like, wordsAlike⟩

theorem agree_runLogic {logic : Logic} (refersOnly : RefersOnly Called logic.instructions)
    {form otherForm : WordForm} (like : Like form otherForm) :
    AgreeOn Kept (Outcome.Alike Like) (frame.runLogic logic form)
      (other.runLogic logic otherForm) := by
  obtain ⟨opens, branchesOnly⟩ := List.forall_mem_append.mp refersOnly
  cases logic with
  | sequential instructions =>
      exact agree_bind (agree_carryOutAll alike none opens like)
        fun _ _ like => agree_pure ⟨rfl, like⟩
  | branching opening branches =>
      have branchOnly (branch : Branch) (isMember : branch ∈ branches) :
          RefersOnly Called branch.instructions := fun instruction isInstruction =>
        branchesOnly instruction (List.mem_flatMap.mpr ⟨branch, isMember, isInstruction⟩)
      refine agree_bind (agree_carryOutAll alike none opens like) ?_
      intro working otherWorking worksLike
      refine agree_ite (fun _ => ?_) fun _ => ?_
      · refine agree_bind (agree_runSounds alike worksLike branches none) ?_
        intro outcome otherOutcome outcomesAlike
        rw [outcomesAlike.1]
        split
        · exact agree_pure outcomesAlike
        · exact agree_pure ⟨rfl, like⟩
      · refine agree_bind (agree_questionOf alike worksLike) ?_
        intro question otherQuestion questionsAlike
        refine agree_bind
          (Question.agree_firstBranch? alike.language questionsAlike branches) ?_
        rintro branch? _ ⟨rfl, isMember⟩
        cases branch? with
        | none => exact agree_pure ⟨rfl, like⟩
        | some branch =>
            exact agree_bind (agree_carryOutAll alike (some branch)
              (branchOnly branch (isMember branch rfl)) worksLike)
              fun _ _ like => agree_pure ⟨rfl, like⟩

theorem categoryLanguages_eq : other.categoryLanguages = frame.categoryLanguages := by
  funext rule
  simp only [categoryLanguages, alike.graphLanguage, alike.language]

theorem agree_declareCategories (rule : Rule) {form otherForm : WordForm}
    (like : Like form otherForm) :
    AgreeOn Kept Like (liftM (frame.declareCategories rule form))
      (liftM (other.declareCategories rule otherForm)) := by
  unfold declareCategories
  rw [categoryLanguages_eq alike]
  cases frame.categoryLanguages rule with
  | error failure => exact agree_throw _ failure
  | ok found =>
      obtain ⟨target, others⟩ := found
      dsimp only [bind, Except.bind]
      change AgreeOn _ _ (liftM (changeCategories replaceCategory target others form _ >>= _))
        (liftM (changeCategories replaceCategory target others otherForm _ >>= _))
      rw [liftM_bind, liftM_bind]
      refine agree_bind (agree_changeCategories alike.isLikeness replaceCategory target others like
        (citedCategories rule.replacedCategories)) fun replaced otherReplaced like => ?_
      exact agree_changeCategories alike.isLikeness addCategory target others like _

theorem agree_runWhole {rule : Rule} (refersOnly : RefersOnly Called rule.logic.instructions)
    {form otherForm : WordForm} (like : Like form otherForm) :
    AgreeOn Kept (Outcome.Alike Like) (frame.runWhole rule form)
      (other.runWhole rule otherForm) := by
  refine agree_bind (agree_runLogic alike refersOnly like) fun outcome otherOutcome outcomesAlike => ?_
  obtain ⟨sameApplied, leavesLike⟩ := outcomesAlike
  rw [sameApplied]
  refine agree_ite (fun _ => ?_) fun _ => agree_pure ⟨rfl, like⟩
  exact agree_bind (agree_declareCategories alike rule leavesLike)
    fun _ _ like => agree_pure ⟨rfl, alike.isLikeness.withLanguage _ like⟩

theorem checkReferences_eq : other.checkReferences = frame.checkReferences := by
  have samePredicates : other.checkPredicate = frame.checkPredicate := by
    funext predicate
    simp only [checkPredicate, checkClass, wordClass, undefined, alike.inventory,
      alike.language]
  have sameSlots : other.checkSlot = frame.checkSlot := by
    funext slot
    simp only [checkSlot, alike.inventory]
  have sameInstructions : other.checkInstruction = frame.checkInstruction := by
    funext instruction
    simp only [checkInstruction, checkClass, checkClassName_eq alike.language alike.inventory,
      sameSlots, wordClass, undefined, alike.inventory, alike.language]
  funext rule
  simp only [checkReferences, checkCategories, samePredicates, sameInstructions,
    categoryLanguages_eq alike]

theorem agree_run {rule : Rule} (areCalled : ∀ id ∈ rule.logic.references, Called id)
    (extent : Extent) {form otherForm : WordForm} (like : Like form otherForm) :
    AgreeOn Kept (Outcome.Alike Like) (frame.run rule extent form)
      (other.run rule extent otherForm) := by
  unfold run
  rw [checkReferences_eq alike]
  refine agree_adapt _ (agree_lookup fun _ _ => ?_)
  cases extent with
  | wholeWord => exact agree_runWhole alike (refersOnly_of_references areCalled) like
  | oneSound index => exact agree_runSounds alike like rule.logic.branches (some [index])

end

end Frame

namespace Graph

/-- Two graphs have the same languages and the same rules, and every language goes by
the short name it is stored under. -/
structure Alike (graph other : Graph) : Prop where
  languages : other.languages = graph.languages
  rules : other.rules = graph.rules
  shortNames : KeepShortNames graph.languages

theorem Alike.refl {graph : Graph} (shortNames : KeepShortNames graph.languages) :
    Alike graph graph :=
  ⟨rfl, rfl, shortNames⟩

variable {graph other : Graph}

theorem stored_of_language_eq_ok (shortNames : KeepShortNames graph.languages) {name : Text}
    {language : Language} (isFound : graph.language name = .ok language) :
    graph.languages.get? language.shortName = some language := by
  have isStored : graph.languages.get? name = some language := found_eq_ok isFound
  rw [shortNames _ _ isStored, isStored]

/-- Two graphs with the same languages, each under its short name, and with the same rules
of those that are called and of those that these call. -/
structure SameFor (Called : Int → Prop) (graph other : Graph) : Prop where
  languages : other.languages = graph.languages
  shortNames : KeepShortNames graph.languages
  rules : ∀ id, Called id → other.rules.get? id = graph.rules.get? id
  stress : ∀ name language id, graph.languages.get? name = some language →
    language.stressRule = some id → Called id
  references : ∀ id rule, Called id → graph.rules.get? id = some rule →
    ∀ reference ∈ rule.logic.references, Called reference

theorem Alike.sameFor (alike : Alike graph other) : SameFor (fun _ => True) graph other where
  languages := alike.languages
  shortNames := alike.shortNames
  rules _ _ := by rw [alike.rules]
  stress _ _ _ _ _ := trivial
  references _ _ _ _ _ _ := trivial

variable {Called : Int → Prop} {Like : WordForm → WordForm → Prop}

/-- The surroundings of a rule are alike in two graphs if the rules that are called do the
same in both. -/
theorem alike_frameWithin_of_calls (isLikeness : WordForm.IsLikeness Like)
    (same : SameFor Called graph other) (marker : Text) {active : List RuleRef}
    {pending : List Text} {language : Language}
    (stressIsCalled : ∀ id, language.stressRule = some id → Called id) (inventory : Inventory)
    (calls : ∀ pending id extent form otherForm, Called id → Like form otherForm →
      Work.Agree graph.languages (Outcome.Alike Like)
        (graph.callWithin marker active pending id extent form)
        (other.callWithin marker active pending id extent otherForm)) :
    Frame.Alike (Inventories.AreBothOf graph.languages) Like Called
      (graph.frameWithin marker active pending language inventory)
      (other.frameWithin marker active pending language inventory) where
  isLikeness := isLikeness
  language := rfl
  inventory := rfl
  marker := rfl
  languages := same.languages
  rules := same.rules
  calls := calls pending
  stress := by
    intro id form otherForm isDesignated like
    have isCalled := stressIsCalled id isDesignated
    refine agree_ite (fun _ => agree_pure rfl) fun _ => ?_
    refine agree_bind (calls _ id .wholeWord form otherForm isCalled like) ?_
    intro outcome otherOutcome ⟨sameApplied, like⟩
    rw [sameApplied, isLikeness.stressedIndex like]
    exact agree_pure rfl

/-- Nothing but the rules that are called matters, and nothing but what bears on rules. -/
theorem agree_applyWithin (isLikeness : WordForm.IsLikeness Like)
    (same : SameFor Called graph other) (marker : Text) (active : List RuleRef)
    (pending : List Text) {rule : Rule} (areCalled : ∀ id ∈ rule.logic.references, Called id)
    (extent : Extent) {form otherForm : WordForm} (like : Like form otherForm) :
    Work.Agree graph.languages (Outcome.Alike Like)
      (graph.applyWithin marker active pending rule extent form)
      (other.applyWithin marker active pending rule extent otherForm) := by
  induction left : (inactiveRules graph.rules.values (active ++ [rule.ref])).length
    using Nat.strongRecOn generalizing active pending rule extent form otherForm with
  | ind left inductionHypothesis =>
      have sameLanguage : other.language rule.fromLanguage = graph.language rule.fromLanguage := by
        simp only [Graph.language, same.languages]
      rw [applyWithin_eq, applyWithin_eq, sameLanguage]
      refine agree_lookup fun language isFound => ?_
      have isStored := stored_of_language_eq_ok same.shortNames isFound
      refine agree_bind_eq (agree_inventory isStored) fun inventory => ?_
      have stressIsCalled (id : Int) : language.stressRule = some id → Called id :=
        same.stress _ _ id isStored
      refine Frame.agree_run (alike_frameWithin_of_calls isLikeness same marker stressIsCalled
        inventory ?_) areCalled extent like
      intro pending id extent form otherForm isCalled like
      have sameRule : other.rule id = graph.rule id := by
        simp only [Graph.rule, same.rules id isCalled]
      unfold callWithin
      rw [sameRule]
      refine agree_lookup fun called isStored => agree_ite (fun _ => agree_throw _ _) ?_
      intro isInactive
      have isStored := found_eq_ok isStored
      refine inductionHypothesis _ ?_ _ pending (same.references id called isCalled isStored)
        extent like rfl
      rw [← left]
      exact inactiveRules_length_lt (Table.mem_values_of_get? isStored) (by simpa using isInactive)

/-- What a rule makes of a form does not depend on the inventories that the work goes on
from, and of the graph only on its languages and rules. -/
theorem agree_apply (alike : Alike graph other) (rule : Rule) (form : WordForm)
    (marker : Text) :
    Work.Agree graph.languages (· = ·) (graph.apply rule form marker)
      (other.apply rule form marker) :=
  (agree_applyWithin WordForm.isLikeness_eq alike.sameFor marker [] [] (fun _ _ => trivial)
    .wholeWord rfl).mono fun _ _ => Outcome.Alike.eq

end Graph

end Diachrony
