import Diachrony.Application
import Diachrony.Proofs.Application.Lookups

/-!
# How rules fail

What a rule fails with is settled by what its instructions and conditions look up, by the
rules that it calls and by how the stress of a form is worked out.  The form matters in
one respect only: a stress that is counted from the end may lie outside the form.
-/
namespace Diachrony

open Work

variable {Kept : Inventories → Prop} {Fails : Error → Prop}

/-- The stress of a form is not counted from the end, unless a sound may be missing. -/
def WordForm.IsSteady (Fails : Error → Prop) (form : WordForm) : Prop :=
  ∀ stressed, form.stressedIndex = some stressed →
    0 ≤ stressed ∨ ∀ index, Fails (.noSuchSound index)

/-- The features of a slot that is compared with a sound are looked up with allowed failures
only. -/
def Slot.Resolves (Fails : Error → Prop) (inventory : Inventory) (slot : Slot) : Prop :=
  slot.boundary = false → slot.literal = none →
    FailsOnly Fails (inventory.featureTerms slot.features)

/-- A slot writes its literal sounds, or fails in allowed ways only. -/
def Slot.Writes (Fails : Error → Prop) (inventory : Inventory) (slot : Slot) : Prop :=
  slot.literal = none →
    Fails (.inRule (.featuresWithoutSound slot.print) .null none) ∧
      FailsOnly Fails (inventory.featureTerms slot.features)

/-- The features in a sound change are looked up with allowed failures only, and each of its
old sounds stands for one in the word, unless a sound may be missing. -/
structure SoundChange.Resolves (Fails : Error → Prop) (inventory : Inventory)
    (change : SoundChange) : Prop where
  sources : (∀ slot ∈ change.before, slot.boundary = false) ∨ ∀ index, Fails (.noSuchSound index)
  before : ∀ slot ∈ change.before, slot.Resolves Fails inventory
  after : ∀ slot ∈ change.after, slot.Writes Fails inventory
  preceding : ∀ slot ∈ change.preceding, slot.Resolves Fails inventory
  following : ∀ slot ∈ change.following, slot.Resolves Fails inventory

def Frame.soundCount (frame : Frame) (form : WordForm) : Nat :=
  (frame.inventory.segments (bareText frame.marker form.text)).length

/-- The rule with an id fails in allowed ways only, and leaves a form steady. -/
def Frame.CallsOnly (Kept : Inventories → Prop) (Fails : Error → Prop) (frame : Frame) (id : Int) :
    Prop :=
  ∀ form, form.IsSteady Fails →
    (frame.call id .wholeWord form).EnsuresFrom Kept Fails fun outcome =>
      outcome.form.IsSteady Fails

/-- The rule with an id does so at every sound of a form, and if a sound may be missing,
everywhere. -/
def Frame.CallsOnlyAtSound (Kept : Inventories → Prop) (Fails : Error → Prop) (frame : Frame)
    (id : Int) : Prop :=
  ∀ index form, form.IsSteady Fails →
    (index < frame.soundCount form ∨ ∀ index, Fails (.noSuchSound index)) →
    (frame.call id (.oneSound index) form).EnsuresFrom Kept Fails fun outcome =>
      outcome.form.IsSteady Fails

/-- The rule with an id fails in allowed ways only where it is applied to one sound if it is a
sound rule, and to the word if it is not. -/
structure Frame.CallsOnlyAsFits (Kept : Inventories → Prop) (Fails : Error → Prop) (frame : Frame)
    (id : Int) : Prop where
  stored : FailsOnly Fails (frame.graph.rule id)
  sounds : ∀ called, frame.graph.rule id = .ok called → called.logic.isSegmental = true →
    frame.CallsOnlyAtSound Kept Fails id
  words : ∀ called, frame.graph.rule id = .ok called → called.logic.isSegmental = false →
    frame.CallsOnly Kept Fails id

/-- What an instruction about a whole word needs is there, and what it looks up is found, up
to allowed failures. -/
def Instruction.Resolves (Kept : Inventories → Prop) (Fails : Error → Prop) (frame : Frame)
    (branch : Option Branch) (instruction : Instruction) : Prop :=
  match instruction.kind with
  | .noChange => True
  | .changeEnding =>
    Given Fails "ending" (fun _ => True) instruction.argument ∧
      ∀ asked, branch = some asked → ∀ predicate ∈ asked.condition.predicates,
        ∀ pattern, predicate.endingPattern? = some pattern →
          pattern.Resolves Fails frame.inventory
  | .attach _ =>
    (instruction.seek = none → Given Fails "text" (fun _ => True) instruction.argument) ∧
      ∀ target, instruction.seek = some target → target.Resolves Fails frame.inventory
  | .insert _ =>
    Given Fails "seek" (SeekTarget.Resolves Fails frame.inventory) instruction.seek ∧
      Given Fails "text" (fun _ => True) instruction.argument
  | .stress => Given Fails "ordinal" (fun _ => True) instruction.ordinal
  | .markClass => FailsOnly Fails (frame.wordClass instruction.argument)
  | .addCategory | .replaceCategory =>
    ∀ key ∈ citedCategories instruction.argument,
      FailsOnly Fails (resolveCategory frame.language [] key)
  | .applyRule => Given Fails "rule" (fun rule => frame.CallsOnly Kept Fails rule.id) instruction.rule
  | .applySoundRule =>
    Given Fails "rule" (fun rule => frame.CallsOnlyAsFits Kept Fails rule.id) instruction.rule ∧
      Given Fails "seek" (SeekTarget.Resolves Fails frame.inventory) instruction.seek
  | .soundChange =>
    Given Fails "sound change" (SoundChange.Resolves Fails frame.inventory) instruction.change
  | .changeSound | .dropSound | .changeClass => Fails (.notAboutWords instruction.kind.name)

/-- The classes that an instruction about a sound exchanges are looked up with allowed
failures only. -/
def Instruction.ResolvesAtSound (Fails : Error → Prop) (frame : Frame)
    (instruction : Instruction) : Prop :=
  instruction.kind = .changeClass →
    FailsOnly Fails (frame.checkClassName instruction.argument) ∧
      FailsOnly Fails (frame.checkClassName instruction.target)

/-- A branch that is asked about a sound fails in allowed ways only. -/
structure Branch.ResolvesAtSound (Fails : Error → Prop) (frame : Frame) (branch : Branch) :
    Prop where
  predicates : ∀ predicate ∈ branch.condition.predicates, predicate.Resolves Fails frame true
  instructions : ∀ instruction ∈ branch.instructions, instruction.ResolvesAtSound Fails frame

/-- A branch that is asked about a word fails in allowed ways only. -/
structure Branch.Resolves (Kept : Inventories → Prop) (Fails : Error → Prop) (frame : Frame)
    (branch : Branch) : Prop where
  predicates : ∀ predicate ∈ branch.condition.predicates, predicate.Resolves Fails frame false
  instructions : ∀ instruction ∈ branch.instructions,
    instruction.Resolves Kept Fails frame (some branch)

structure Logic.Resolves (Kept : Inventories → Prop) (Fails : Error → Prop) (frame : Frame)
    (logic : Logic) : Prop where
  opening : ∀ instruction ∈ logic.openingInstructions, instruction.Resolves Kept Fails frame none
  sounds : logic.isSegmental = true → ∀ branch ∈ logic.branches,
    branch.ResolvesAtSound Fails frame
  words : logic.isSegmental = false → ∀ branch ∈ logic.branches, branch.Resolves Kept Fails frame

namespace Frame

variable {frame : Frame} {word : Segmentation}

/-- The stress of every form is worked out with allowed failures only. -/
def StressesOnly (Kept : Inventories → Prop) (Fails : Error → Prop) (frame : Frame) : Prop :=
  ∀ form, (frame.stressedIndex form).FailsOnlyFrom Kept Fails

/-- Where no rule says what the stress is, working it out never fails. -/
theorem stressesOnly_of_stressRule (noRule : frame.language.stressRule = none) :
    frame.StressesOnly Kept Fails := by
  intro form
  unfold stressedIndex
  rw [noRule]
  cases form.stressedIndex <;> exact fails_pure _

theorem ensures_segments (stresses : frame.StressesOnly Kept Fails) (form : WordForm) :
    (frame.segmentation form).EnsuresFrom Kept Fails fun word =>
      word.Answers Kept Fails frame.inventory ∧ word.length = frame.soundCount form :=
  ensures_later (stresses form) fun _ stress => ensures_pure ⟨⟨rfl, stress⟩, rfl⟩

theorem ensures_segmentation (stresses : frame.StressesOnly Kept Fails) (form : WordForm) :
    (frame.segmentation form).EnsuresFrom Kept Fails (Segmentation.Answers Kept Fails frame.inventory) :=
  (ensures_segments stresses form).mono fun _ isWord => isWord.1

theorem steady_unstressed {form : WordForm} (text : Text) :
    (form.withText text).IsSteady Fails := by
  intro stressed isStressed
  cases isStressed

theorem fails_firstStem? (answers : word.Answers Kept Fails frame.inventory)
    {patterns : List SoundPattern}
    (resolve : ∀ pattern ∈ patterns, pattern.Resolves Fails frame.inventory) :
    (firstStem? word patterns).FailsOnlyFrom Kept Fails := by
  induction patterns with
  | nil => exact fails_pure _
  | cons pattern patterns inductionHypothesis =>
      obtain ⟨first, others⟩ := List.forall_mem_cons.mp resolve
      refine fails_bind (Question.fails_endsLike answers first) fun _ => ?_
      exact ensures_ite (fun _ => fails_pure _) fun _ => inductionHypothesis others

section

variable {form : WordForm} (stresses : frame.StressesOnly Kept Fails) (steady : form.IsSteady Fails)

include stresses steady

theorem ensures_changeEnding {branch : Option Branch} {ending : Option Text}
    (given : Given Fails "ending" (fun _ => True) ending)
    (resolve : ∀ asked, branch = some asked → ∀ predicate ∈ asked.condition.predicates,
      ∀ pattern, predicate.endingPattern? = some pattern →
        pattern.Resolves Fails frame.inventory) :
    (frame.changeEnding branch ending form).EnsuresFrom Kept Fails (WordForm.IsSteady Fails) := by
  cases branch with
  | none => exact ensures_pure steady
  | some branch =>
      refine ensures_bind (ensures_segmentation stresses form) fun word answers => ?_
      refine fails_bind (fails_firstStem? answers fun pattern isMember => ?_) fun stem? => ?_
      · obtain ⟨predicate, isPredicate, asksEnding⟩ := List.mem_filterMap.mp isMember
        exact resolve branch rfl predicate isPredicate pattern asksEnding
      · cases stem? with
        | none => exact ensures_pure steady
        | some stem =>
            exact ensures_needed given fun _ _ _ => ensures_pure (steady_unstressed _)

theorem ensures_attach {instruction : Instruction} (side : Side)
    (given : instruction.seek = none →
      Given Fails "text" (fun _ => True) instruction.argument)
    (resolve : ∀ target, instruction.seek = some target →
      target.Resolves Fails frame.inventory) :
    (frame.attach side instruction form).EnsuresFrom Kept Fails (WordForm.IsSteady Fails) := by
  refine fails_bind ?_ fun affix? => ?_
  · unfold affix?
    cases isSeek : instruction.seek with
    | none => exact ensures_needed (given isSeek) fun _ _ _ => fails_pure _
    | some target =>
        refine ensures_bind (ensures_segmentation stresses form) fun word answers => ?_
        exact fails_bind (Segmentation.fails_seek answers (resolve target isSeek)) fun _ =>
          fails_pure _
  · cases affix? with
    | none => exact ensures_pure steady
    | some addition => cases side <;> exact ensures_pure (steady_unstressed _)

theorem ensures_insert {instruction : Instruction} (side : Side)
    (place : Given Fails "seek" (SeekTarget.Resolves Fails frame.inventory) instruction.seek)
    (given : Given Fails "text" (fun _ => True) instruction.argument) :
    (frame.insert side instruction form).EnsuresFrom Kept Fails (WordForm.IsSteady Fails) := by
  refine ensures_bind (ensures_segmentation stresses form) fun word answers => ?_
  refine ensures_needed place fun target _ resolves => ?_
  refine fails_bind (Segmentation.fails_seek answers resolves) fun index? => ?_
  cases index?.bind fun index => word.segment? index with
  | none => exact ensures_pure steady
  | some segment => exact ensures_needed given fun _ _ _ => ensures_pure (steady_unstressed _)

theorem ensures_moveStress (ordinal : Int) :
    (frame.moveStress ordinal form).EnsuresFrom Kept Fails (WordForm.IsSteady Fails) := by
  refine ensures_bind (ensures_segmentation stresses form) fun word _ => ?_
  cases (word.syllableByNumber? ordinal).bind word.firstVowel? with
  | none => exact ensures_pure steady
  | some index =>
      refine ensures_pure fun stressed isStressed => .inl ?_
      cases isStressed
      exact Int.natCast_nonneg index

omit stresses steady in
theorem ensures_callRule {id : Int} {extent : Extent}
    (calls : (frame.call id extent form).EnsuresFrom Kept Fails fun outcome =>
      outcome.form.IsSteady Fails) :
    (frame.callRule id extent form).EnsuresFrom Kept Fails (WordForm.IsSteady Fails) :=
  ensures_bind calls fun _ isSteady => ensures_pure isSteady

theorem ensures_applySoundRule {id : Int} {place : Option SeekTarget}
    (calls : frame.CallsOnlyAsFits Kept Fails id)
    (given : Given Fails "seek" (SeekTarget.Resolves Fails frame.inventory) place) :
    (frame.applySoundRule id place form).EnsuresFrom Kept Fails (WordForm.IsSteady Fails) := by
  refine ensures_lookup calls.stored fun called isCalled => ?_
  refine ensures_ite (fun isSegmental => ?_) fun notSegmental => ?_
  · refine ensures_bind (ensures_segments stresses form) fun word isWord => ?_
    obtain ⟨answers, sameLength⟩ := isWord
    refine ensures_needed given fun target _ resolves => ?_
    refine ensures_bind (Segmentation.ensures_seek answers resolves) fun index? isInside => ?_
    cases index? with
    | none => exact ensures_pure steady
    | some index =>
        refine ensures_callRule (calls.sounds called isCalled isSegmental index form steady (.inl ?_))
        rw [← sameLength]
        exact isInside index rfl
  · exact ensures_callRule (calls.words called isCalled (by simpa using notSegmental) form steady)

end

theorem fails_fillsSlot (answers : word.Answers Kept Fails frame.inventory) {slot : Slot}
    (inside : slot.boundary = false) (resolves : slot.Resolves Fails frame.inventory)
    (index : Nat) : (frame.fillsSlot word slot index).FailsOnlyFrom Kept Fails := by
  unfold fillsSlot
  cases isLiteral : slot.literal with
  | some text => exact fails_pure _
  | none =>
      exact ensures_lookup (resolves inside isLiteral) fun terms _ =>
        Segmentation.fails_satisfiesAll answers.stress index terms

/-- Slots that are no boundaries match as many sounds as they are. -/
theorem ensures_matchForward? (answers : word.Answers Kept Fails frame.inventory)
    {slots : List Slot} (resolve : ∀ slot ∈ slots, slot.Resolves Fails frame.inventory)
    (index : Nat) :
    (frame.matchForward? word slots index).EnsuresFrom Kept Fails fun stop? =>
      stop?.isSome = true → (∀ slot ∈ slots, slot.boundary = false) → index ≤ word.length →
        index + slots.length ≤ word.length := by
  induction slots generalizing index with
  | nil => exact ensures_pure fun _ _ isInside => isInside
  | cons slot slots inductionHypothesis =>
      obtain ⟨first, others⟩ := List.forall_mem_cons.mp resolve
      unfold matchForward?
      refine ensures_ite (fun isBoundary => ?_) fun isSound => ?_
      · refine ensures_ite (fun _ => ?_) fun _ => ensures_pure fun isNone => nomatch isNone
        refine (inductionHypothesis others index).mono fun _ _ _ areSounds => ?_
        cases isBoundary.symm.trans (areSounds slot List.mem_cons_self)
      · refine ensures_ite (fun isInside => ?_) fun _ => ensures_pure fun isNone => nomatch isNone
        refine fails_bind (fails_fillsSlot answers (by simpa using isSound) first index) fun _ => ?_
        refine ensures_ite (fun _ => ?_) fun _ => ensures_pure fun isNone => nomatch isNone
        refine (inductionHypothesis others (index + 1)).mono fun _ fits isSome areSounds _ => ?_
        have isFit := fits isSome (fun slot isMember => areSounds slot (.tail _ isMember)) isInside
        rw [List.length_cons]
        omega

theorem fails_matchesBackward (answers : word.Answers Kept Fails frame.inventory) {slots : List Slot}
    (resolve : ∀ slot ∈ slots, slot.Resolves Fails frame.inventory) (index : Nat) :
    (frame.matchesBackward word slots index).FailsOnlyFrom Kept Fails := by
  induction slots generalizing index with
  | nil => exact fails_pure _
  | cons slot slots inductionHypothesis =>
      obtain ⟨first, others⟩ := List.forall_mem_cons.mp resolve
      unfold matchesBackward
      refine ensures_ite (fun _ => ?_) fun inside => ?_
      · exact ensures_ite (fun _ => inductionHypothesis others index) fun _ => fails_pure _
      · cases index with
        | zero => exact fails_pure _
        | succ index =>
            refine fails_bind (fails_fillsSlot answers (by simpa using inside) first index)
              fun _ => ?_
            exact ensures_ite (fun _ => inductionHypothesis others index) fun _ => fails_pure _

theorem fails_closestSpelling? (terms : List ClassTerm) (phoneme : Phoneme)
    (phonemes : List Phoneme) :
    (frame.closestSpelling? terms phoneme phonemes).FailsOnlyFrom Kept Fails := by
  refine ensures_foldlM (fun candidate _ best _ => ?_) trivial
  refine ensures_ite (fun _ => ?_) fun _ => fails_pure _
  refine fails_bind (Segmentation.fails_satisfiesAll (fails_pure _) 0 terms) fun _ => ?_
  refine ensures_ite (fun _ => ?_) fun _ => fails_pure _
  exact ensures_ite (fun _ => fails_pure _) fun _ => fails_pure _

/-- A slot that continues a sound fails only over its features. -/
theorem fails_slotOutput_source {slot : Slot}
    (features : slot.literal = none → FailsOnly Fails (frame.inventory.featureTerms slot.features))
    {index : Nat} (isThere : index < word.length ∨ ∀ index, Fails (.noSuchSound index)) :
    (frame.slotOutput word slot (some index)).FailsOnlyFrom Kept Fails := by
  unfold slotOutput
  cases isLiteral : slot.literal with
  | some text => exact fails_pure _
  | none =>
      dsimp only
      cases isSegment : word.segment? index with
      | none =>
          rcases isThere with isInside | noSegment
          · exact absurd (List.getElem?_eq_none_iff.mp isSegment) (Nat.not_le_of_lt isInside)
          · exact ensures_throw (noSegment _)
      | some segment =>
          dsimp only
          cases segment.phoneme with
          | none => exact fails_pure _
          | some phoneme =>
              refine ensures_lookup (features isLiteral) fun terms _ => ?_
              exact fails_bind (fails_closestSpelling? terms phoneme _) fun _ => fails_pure _

theorem fails_slotOutput {slot : Slot} (writes : slot.Writes Fails frame.inventory)
    {source : Option Nat} (isThere : ∀ index, source = some index →
      index < word.length ∨ ∀ index, Fails (.noSuchSound index)) :
    (frame.slotOutput word slot source).FailsOnlyFrom Kept Fails := by
  cases source with
  | some index =>
      exact fails_slotOutput_source (fun isLiteral => (writes isLiteral).2) (isThere index rfl)
  | none =>
      unfold slotOutput
      cases isLiteral : slot.literal with
      | some text => exact fails_pure _
      | none => exact ensures_throw (writes isLiteral).1

theorem fails_outputPieces {slots : List Slot}
    (write : ∀ slot ∈ slots, slot.Writes Fails frame.inventory) {index old : Nat}
    (isThere : index + old ≤ word.length ∨ ∀ index, Fails (.noSuchSound index)) :
    (frame.outputPieces word index old slots).FailsOnlyFrom Kept Fails := by
  induction slots generalizing index old with
  | nil => cases old <;> exact fails_pure _
  | cons slot slots inductionHypothesis =>
      obtain ⟨first, others⟩ := List.forall_mem_cons.mp write
      cases old with
      | zero =>
          refine fails_bind (fails_slotOutput first fun _ isNone => nomatch isNone) fun _ => ?_
          exact fails_bind (inductionHypothesis others isThere) fun _ => fails_pure _
      | succ old =>
          refine fails_bind (fails_slotOutput first ?_) fun _ => ?_
          · rintro _ ⟨rfl⟩
            exact isThere.imp_left fun isInside => by omega
          · refine fails_bind (inductionHypothesis others ?_) fun _ => fails_pure _
            exact isThere.imp_left fun isInside => by omega

section

variable {change : SoundChange} (answers : word.Answers Kept Fails frame.inventory)
  (resolves : change.Resolves Fails frame.inventory)

include answers resolves

theorem ensures_matchAt? {index : Nat} (isInside : index ≤ word.length) :
    (frame.matchAt? word change index).EnsuresFrom Kept Fails fun stop? => stop?.isSome = true →
      index + change.before.length ≤ word.length ∨ ∀ index, Fails (.noSuchSound index) := by
  refine ensures_bind (ensures_matchForward? answers resolves.before index) fun stop? fits => ?_
  cases stop? with
  | none => exact ensures_pure fun isNone => nomatch isNone
  | some stop =>
      refine fails_bind (ensures_matchForward? answers resolves.following stop).failsOnly
        fun follows? => ?_
      cases follows? with
      | none => exact ensures_pure fun isNone => nomatch isNone
      | some _ =>
          refine fails_bind (fails_matchesBackward answers resolves.preceding index) fun _ => ?_
          refine ensures_ite (fun _ => ?_) fun _ => ensures_pure fun isNone => nomatch isNone
          exact ensures_pure fun _ =>
            resolves.sources.imp_left fun areSounds => fits rfl areSounds isInside

theorem fails_changeFrom (index : Nat) :
    (frame.changeFrom word change index).FailsOnlyFrom Kept Fails := by
  induction left : word.length + 1 - index using Nat.strongRecOn generalizing index with
  | ind left inductionHypothesis =>
      unfold changeFrom
      refine ensures_ite (fun isInside => ?_) fun _ => fails_pure _
      have further (next : Nat) (isFurther : index < next) :=
        inductionHypothesis (word.length + 1 - next) (by omega) next rfl
      refine ensures_bind (ensures_matchAt? answers resolves isInside) fun stop? isThere => ?_
      cases stop? with
      | none => exact fails_bind (further _ (by omega)) fun _ => fails_pure _
      | some stop =>
          refine fails_bind (fails_outputPieces resolves.after (isThere rfl)) fun output => ?_
          by_cases covers : index < stop
          · simp only [covers, dif_pos]
            exact fails_bind (further stop covers) fun _ => fails_pure _
          · simp only [covers, dif_neg, not_false_eq_true]
            exact fails_bind (further _ (by omega)) fun _ => fails_pure _

end

theorem forall_mem_splitSlots {Kept : Slot → Prop} {slots : List Slot}
    (literal : ∀ text, Kept (.sounds text)) (kept : ∀ slot ∈ slots, Kept slot) :
    ∀ slot ∈ frame.splitSlots slots, Kept slot := by
  intro slot isMember
  obtain ⟨source, isSource, isPart⟩ := List.mem_flatMap.mp isMember
  split at isPart
  · obtain ⟨segment, -, rfl⟩ := List.mem_map.mp isPart
    exact literal segment.text
  · rw [List.mem_singleton.mp isPart]
    exact kept source isSource

theorem placeOf?_nonneg {pieces : List Piece} {index place : Int}
    (isPlace : Piece.placeOf? pieces index = some place) : 0 ≤ place := by
  obtain ⟨entry, -, rfl⟩ := Option.map_eq_some_iff.mp isPlace
  exact Int.natCast_nonneg entry.2

theorem ensures_changeSounds (stresses : frame.StressesOnly Kept Fails) {form : WordForm}
    (steady : form.IsSteady Fails) {change : SoundChange}
    (resolves : change.Resolves Fails frame.inventory) :
    (frame.changeSounds change form).EnsuresFrom Kept Fails (WordForm.IsSteady Fails) := by
  have resolvesLiteral (text : Text) : (Slot.sounds text).Resolves Fails frame.inventory :=
    fun _ isNone => nomatch isNone
  have writesLiteral (text : Text) : (Slot.sounds text).Writes Fails frame.inventory :=
    fun isNone => nomatch isNone
  refine ensures_bind (ensures_segmentation stresses form) fun word answers => ?_
  refine fails_bind (fails_changeFrom answers ?_ 0) fun changed => ?_
  · refine ⟨resolves.sources.imp_left (forall_mem_splitSlots fun _ => rfl),
      forall_mem_splitSlots resolvesLiteral resolves.before,
      forall_mem_splitSlots writesLiteral resolves.after, fun slot isMember => ?_,
      forall_mem_splitSlots resolvesLiteral resolves.following⟩
    exact forall_mem_splitSlots resolvesLiteral resolves.preceding slot (List.mem_reverse.mp isMember)
  · refine ensures_ite (fun _ => ensures_pure fun stressed isStressed => .inl ?_) fun _ =>
      ensures_pure steady
    obtain ⟨index, -, isPlace⟩ := Option.bind_eq_some_iff.mp isStressed
    exact placeOf?_nonneg isPlace

theorem isSome_of_checkClassName {name : Option Text}
    (isClass : frame.checkClassName name = .ok ()) : ∃ text, name = some text := by
  cases name with
  | none => cases isClass
  | some text => exact ⟨text, rfl⟩

section

variable {index : Nat} (inside : index < word.length ∨ ∀ index, Fails (.noSuchSound index))

include inside

theorem fails_exchangeClass? (source target : Text) :
    FailsOnly Fails (frame.exchangeClass? word index source target) := by
  unfold exchangeClass?
  cases isSegment : word.segment? index with
  | none =>
      refine failsOnly_error ?_
      rcases inside with isInside | noSegment
      · exact absurd (List.getElem?_eq_none_iff.mp isSegment) (Nat.not_le_of_lt isInside)
      · exact noSegment _
  | some segment =>
      dsimp only
      cases segment.phoneme with
      | none => exact failsOnly_ok _
      | some phoneme =>
          dsimp only
          split <;> exact failsOnly_ok _

theorem fails_changeSegment (current : Option Text) {instruction : Instruction}
    (resolves : instruction.ResolvesAtSound Fails frame) :
    (frame.changeSegment word index current instruction).FailsOnlyFrom Kept Fails := by
  have missing (notInside : ¬index < word.length) : Fails (.noSuchSound index) :=
    (inside.resolve_left notInside) index
  unfold changeSegment
  cases isKind : instruction.kind with
  | changeSound | dropSound =>
      exact ensures_ite (fun _ => fails_pure _) fun notInside => ensures_throw (missing notInside)
  | changeClass =>
      obtain ⟨source, target⟩ := resolves isKind
      refine ensures_lookup source fun _ isSource => ensures_lookup target fun _ isTarget => ?_
      obtain ⟨sourceName, hasSource⟩ := isSome_of_checkClassName isSource
      obtain ⟨targetName, hasTarget⟩ := isSome_of_checkClassName isTarget
      rw [hasSource, hasTarget]
      refine ensures_lookup (failsOnly_ok sourceName) fun _ _ => ?_
      refine ensures_lookup (failsOnly_ok targetName) fun _ _ => ?_
      refine ensures_lookup (fails_exchangeClass? inside _ _) fun replacement? _ => ?_
      cases replacement? <;> exact fails_pure _
  | _ => exact fails_pure _

theorem fails_segmentOutcome? (answers : word.Answers Kept Fails frame.inventory) (form : WordForm)
    {branches : List Branch}
    (resolve : ∀ branch ∈ branches, branch.ResolvesAtSound Fails frame) :
    (frame.segmentOutcome? word form branches index).FailsOnlyFrom Kept Fails := by
  refine ensures_bind (Question.ensures_firstBranch? answers fun branch isMember =>
    (resolve branch isMember).predicates) fun branch? isChosen => ?_
  cases branch? with
  | none => exact fails_pure _
  | some branch =>
      have chosen := resolve branch (isChosen branch rfl)
      refine fails_bind (ensures_foldlM (fun instruction isMember current _ => ?_) trivial)
        fun _ => fails_pure _
      exact fails_changeSegment inside current (chosen.instructions instruction isMember)

end

theorem fails_segmentOutcomes (answers : word.Answers Kept Fails frame.inventory) (form : WordForm)
    {branches : List Branch}
    (resolve : ∀ branch ∈ branches, branch.ResolvesAtSound Fails frame) {indices : List Nat}
    (inside : ∀ index ∈ indices, index < word.length ∨ ∀ index, Fails (.noSuchSound index)) :
    (frame.segmentOutcomes word form branches indices).FailsOnlyFrom Kept Fails := by
  induction indices with
  | nil => exact fails_pure _
  | cons index indices inductionHypothesis =>
      obtain ⟨first, others⟩ := List.forall_mem_cons.mp inside
      refine fails_bind (fails_segmentOutcome? first answers form resolve) fun outcome? => ?_
      refine fails_bind (inductionHypothesis others) fun outcomes => ?_
      cases outcome? <;> exact fails_pure _

/-- A stress that is counted from the beginning is so still, and no sound is missing. -/
theorem stressAfterDrops_nonneg (results : List (Option Text)) {stressed : Int}
    (nonneg : 0 ≤ stressed) :
    ∃ left, stressAfterDrops results stressed = .ok left ∧ ∀ place, left = some place → 0 ≤ place := by
  unfold stressAfterDrops
  split
  · exact ⟨none, rfl, fun _ isNone => nomatch isNone⟩
  · rename_i isInside
    have isPlace : placeIn? results.length stressed = some stressed.toNat := by
      unfold placeIn?
      dsimp only
      rw [if_neg (Int.not_lt.mpr nonneg), if_pos]
      simpa using ⟨nonneg, Int.not_le.mp isInside⟩
    rw [isPlace]
    dsimp only
    split
    · exact ⟨none, rfl, fun _ isNone => nomatch isNone⟩
    · refine ⟨_, rfl, ?_⟩
      rintro _ ⟨rfl⟩
      have dropped := List.length_filter_le Option.isNone (results.take stressed.toNat)
      have taken := List.length_take_le stressed.toNat results
      omega

theorem ensures_runSounds (stresses : frame.StressesOnly Kept Fails) {form : WordForm}
    (steady : form.IsSteady Fails) {branches : List Branch}
    (resolve : ∀ branch ∈ branches, branch.ResolvesAtSound Fails frame)
    {indices : Option (List Nat)} (areInside : ∀ index ∈ indices.getD [],
      index < frame.soundCount form ∨ ∀ index, Fails (.noSuchSound index)) :
    (frame.runSounds branches form indices).EnsuresFrom Kept Fails fun outcome =>
      outcome.form.IsSteady Fails := by
  refine ensures_bind (ensures_segments stresses form) fun word isWord => ?_
  obtain ⟨answers, sameLength⟩ := isWord
  refine fails_bind (fails_segmentOutcomes answers form resolve fun index isMember => ?_)
    fun outcomes => ?_
  · cases indices with
    | none => exact .inl (List.mem_range.mp isMember)
    | some indices => exact sameLength ▸ areInside index isMember
  · refine ensures_ite (fun _ => ensures_pure steady) fun _ => ?_
    dsimp only
    generalize word.segments.zipIdx.map _ = results
    cases isStressed : form.stressedIndex with
    | none => exact ensures_pure (steady_unstressed _)
    | some stressed =>
        rcases steady stressed isStressed with nonneg | noSegment
        · obtain ⟨left, gave, isPlace⟩ := stressAfterDrops_nonneg results nonneg
          dsimp only
          rw [gave]
          exact ensures_pure fun place isPlaced => .inl (isPlace place isPlaced)
        · refine ensures_lookup ?_ fun left _ => ensures_pure fun _ _ => .inr noSegment
          unfold stressAfterDrops
          split
          · exact failsOnly_ok _
          · split
            · exact failsOnly_error (noSegment _)
            · split <;> exact failsOnly_ok _

theorem failsOnly_changeCategories
    {change : List CategoryValue → CategoryValue → List CategoryValue} {first : Language}
    {others : List Language} {form : WordForm} {keys : List Text}
    (resolve : ∀ key ∈ keys, FailsOnly Fails (resolveCategory first others key)) :
    FailsOnly Fails (changeCategories change first others form keys) :=
  failsOnly_bind (failsOnly_mapM resolve) fun _ _ => failsOnly_ok _

theorem stressedIndex_changeCategories
    {change : List CategoryValue → CategoryValue → List CategoryValue} {first : Language}
    {others : List Language} {form changed : WordForm} {keys : List Text}
    (gave : changeCategories change first others form keys = .ok changed) :
    changed.stressedIndex = form.stressedIndex := by
  obtain ⟨values, -, same⟩ := Except.bind_eq_ok.mp gave
  cases same
  rfl

theorem ensures_markClass {form : WordForm} (steady : form.IsSteady Fails) {key : Option Text}
    (resolves : FailsOnly Fails (frame.wordClass key)) :
    (liftM (frame.markClass key form) : Session WordForm).EnsuresFrom Kept Fails
      (WordForm.IsSteady Fails) := by
  have only : FailsOnly Fails (frame.markClass key form) := by
    refine failsOnly_bind resolves fun wordClass _ => ?_
    split <;> exact failsOnly_ok _
  refine ensures_liftM only fun changed gave => ?_
  obtain ⟨wordClass, -, gave⟩ := Except.bind_eq_ok.mp gave
  split at gave <;> cases gave <;> exact steady

theorem ensures_changeByCitation {form : WordForm} (steady : form.IsSteady Fails)
    {change : List CategoryValue → CategoryValue → List CategoryValue}
    {instruction : Instruction}
    (resolve : ∀ key ∈ citedCategories instruction.argument,
      FailsOnly Fails (resolveCategory frame.language [] key)) :
    (liftM (frame.changeByCitation change instruction form) : Session WordForm).EnsuresFrom Kept Fails
      (WordForm.IsSteady Fails) :=
  ensures_liftM (failsOnly_changeCategories resolve) fun _ gave stressed isStressed =>
    steady stressed (stressedIndex_changeCategories gave ▸ isStressed)

section

variable (stresses : frame.StressesOnly Kept Fails)

include stresses

theorem ensures_carryOut {branch : Option Branch} {form : WordForm}
    (steady : form.IsSteady Fails) {instruction : Instruction}
    (resolves : instruction.Resolves Kept Fails frame branch) :
    (frame.carryOut branch form instruction).EnsuresFrom Kept Fails (WordForm.IsSteady Fails) := by
  unfold Instruction.Resolves at resolves
  unfold carryOut
  revert resolves
  cases instruction.kind with
  | noChange => exact fun _ => ensures_pure steady
  | changeEnding =>
      rintro ⟨given, resolve⟩
      exact ensures_changeEnding stresses steady given resolve
  | attach side =>
      rintro ⟨given, resolve⟩
      exact ensures_attach stresses steady side given resolve
  | insert side =>
      rintro ⟨place, given⟩
      exact ensures_insert stresses steady side place given
  | stress =>
      exact fun given => ensures_needed given fun ordinal _ _ =>
        ensures_moveStress stresses steady ordinal
  | markClass => exact ensures_markClass steady
  | addCategory => exact ensures_changeByCitation steady
  | replaceCategory => exact ensures_changeByCitation steady
  | applyRule =>
      exact fun given => ensures_needed given fun _ _ calls => ensures_callRule (calls form steady)
  | applySoundRule =>
      rintro ⟨given, place⟩
      exact ensures_needed given fun _ _ calls =>
        ensures_applySoundRule stresses steady calls place
  | soundChange =>
      exact fun given => ensures_needed given fun _ _ resolves =>
        ensures_changeSounds stresses steady resolves
  | changeSound | dropSound | changeClass => exact fun isAllowed => ensures_throw isAllowed

theorem ensures_carryOutAll {branch : Option Branch} {form : WordForm}
    (steady : form.IsSteady Fails) {instructions : List Instruction}
    (resolve : ∀ instruction ∈ instructions, instruction.Resolves Kept Fails frame branch) :
    (frame.carryOutAll branch form instructions).EnsuresFrom Kept Fails (WordForm.IsSteady Fails) :=
  ensures_foldlM (fun instruction isMember _ isSteady =>
    ensures_carryOut stresses isSteady (resolve instruction isMember)) steady

theorem ensures_runLogic {form : WordForm} (steady : form.IsSteady Fails) {logic : Logic}
    (resolves : logic.Resolves Kept Fails frame) :
    (frame.runLogic logic form).EnsuresFrom Kept Fails fun outcome => outcome.form.IsSteady Fails := by
  cases logic with
  | sequential instructions =>
      exact ensures_bind (ensures_carryOutAll stresses steady resolves.opening)
        fun _ isSteady => ensures_pure isSteady
  | branching opening branches =>
      refine ensures_bind (ensures_carryOutAll stresses steady resolves.opening)
        fun working isSteady => ?_
      refine ensures_ite (fun isSegmental => ?_) fun notSegmental => ?_
      · refine ensures_bind (ensures_runSounds stresses isSteady
          (resolves.sounds isSegmental) fun _ isMember => nomatch isMember) fun outcome outcomeSteady => ensures_pure ?_
        split
        · exact outcomeSteady
        · exact steady
      · have areWords := resolves.words (by simpa using notSegmental)
        have asked : (frame.questionOf working).EnsuresFrom Kept Fails fun question =>
            question.word.Answers Kept Fails frame.inventory ∧ question.index = none :=
          ensures_bind (ensures_segmentation stresses working) fun word answers =>
            ensures_pure ⟨answers, rfl⟩
        refine ensures_bind asked fun question isQuestion => ?_
        obtain ⟨answers, isWhole⟩ := isQuestion
        refine ensures_bind (Question.ensures_firstBranch? answers fun branch isMember => ?_)
          fun branch? isChosen => ?_
        · rw [isWhole]
          exact (areWords branch isMember).predicates
        · cases branch? with
          | none => exact ensures_pure steady
          | some branch =>
              have chosen := (areWords branch (isChosen branch rfl)).instructions
              exact ensures_bind (ensures_carryOutAll stresses isSteady chosen)
                fun _ isSteady => ensures_pure isSteady

theorem ensures_runWhole {rule : Rule} {form : WordForm} (steady : form.IsSteady Fails)
    (resolves : rule.logic.Resolves Kept Fails frame)
    (declared : ∀ form, FailsOnly Fails (frame.declareCategories rule form)) :
    (frame.runWhole rule form).EnsuresFrom Kept Fails fun outcome => outcome.form.IsSteady Fails := by
  refine ensures_bind (ensures_runLogic stresses steady resolves) fun outcome isSteady => ?_
  refine ensures_ite (fun _ => ?_) fun _ => ensures_pure steady
  refine ensures_lookup (declared outcome.form) fun changed isChanged => ?_
  refine ensures_pure fun stressed isStressed => isSteady stressed ?_
  obtain ⟨languages, -, gave⟩ := Except.bind_eq_ok.mp isChanged
  obtain ⟨replaced, isReplaced, isAdded⟩ := Except.bind_eq_ok.mp gave
  rw [← stressedIndex_changeCategories isReplaced, ← stressedIndex_changeCategories isAdded]
  exact isStressed

end

end Frame

end Diachrony
