import Diachrony.Proofs.Notation.Draft

/-!
# What is read is complete

An instruction, a predicate and a sound change that were read have all the parts that
they need, and the parts of a logic that was read fit together.  So nothing is missing when
such a logic is run.
-/
namespace Diachrony

open Text (isLineBreak)

namespace Slot

/-- A slot that is neither the edge of the word nor literal sounds has features. -/
def IsFilled (slot : Slot) : Prop :=
  slot.boundary = false → slot.literal = none → slot.features ≠ []

theorem IsMark.isFilled {mark : Text} {slot : Slot} (isMark : IsMark mark slot) :
    slot.IsFilled := by
  cases isMark with
  | edge => exact fun isInside => nomatch isInside
  | consonant | vowel => exact fun _ _ => List.cons_ne_nil _ _
  | features _ isSlot =>
      unfold readFeatures at isSlot
      dsimp only at isSlot
      split at isSlot
      · cases isSlot
      · cases isSlot
        exact fun _ _ => Text.pieces_ne_nil _ _

theorem isFilled_closeRun (run : Text) {slots : List Slot}
    (areFilled : ∀ slot ∈ slots, slot.IsFilled) : ∀ slot ∈ closeRun run slots, slot.IsFilled := by
  unfold closeRun
  split
  · exact areFilled
  · have isLiteral : (sounds run).IsFilled := fun _ isNone => nomatch isNone
    exact List.forall_mem_cons.mpr ⟨isLiteral, areFilled⟩

theorem IsWritten.isFilled {text : Text} {slots : List Slot} (isWritten : IsWritten text slots) :
    ∀ slot ∈ slots, slot.IsFilled := by
  induction isWritten with
  | run => exact isFilled_closeRun _ fun _ isMember => nomatch isMember
  | mark _ isMark _ inductionHypothesis =>
      exact isFilled_closeRun _ (List.forall_mem_cons.mpr ⟨isMark.isFilled, inductionHypothesis⟩)

theorem IsSide.isFilled {slots : List Slot} (isSide : IsSide slots) :
    ∀ slot ∈ slots, slot.IsFilled := by
  cases isSide with
  | zero => exact fun _ isMember => nomatch isMember
  | row _ _ isWritten => exact isWritten.isFilled

end Slot

/-- The sounds of a change are inside the word. -/
theorem SoundChange.inside_of_checkSounds {before after : List Slot}
    (fits : checkSounds before after = .ok ()) :
    (∀ slot ∈ before, slot.boundary = false) ∧ ∀ slot ∈ after, slot.boundary = false := by
  unfold checkSounds at fits
  split at fits
  · cases fits
  · split at fits
    · cases fits
    · rename_i noBoundary
      simpa using noBoundary

namespace Instruction

/-- An instruction as it is read: its kind, and the parts that its kind needs. -/
inductive IsRead : Instruction → Prop
  | noChange : IsRead { kind := .noChange }
  | changeSound (text : Text) : IsRead { kind := .changeSound, argument := some text }
  | dropSound : IsRead { kind := .dropSound }
  | changeClass (source target : Text) :
      IsRead { kind := .changeClass, argument := some source, target := some target }
  | changeEnding (text : Text) : IsRead { kind := .changeEnding, argument := some text }
  | attachText (side : Side) (text : Text) :
      IsRead { kind := .attach side, argument := some text }
  | attachSound (side : Side) (source : SeekTarget) :
      IsRead { kind := .attach side, seek := some source }
  | insert (side : Side) (text : Text) (place : SeekTarget) :
      IsRead { kind := .insert side, argument := some text, seek := some place }
  | stress (ordinal : Ordinal) : IsRead { kind := .stress, ordinal := some ordinal.number }
  | markClass (name : Text) : IsRead { kind := .markClass, argument := some name }
  | addCategory (names : Text) : IsRead { kind := .addCategory, argument := some names }
  | replaceCategory (names : Text) : IsRead { kind := .replaceCategory, argument := some names }
  | applyRule (rule : RuleRef) : IsRead { kind := .applyRule, rule := some rule }
  | applySoundRule (rule : RuleRef) (place : SeekTarget) :
      IsRead { kind := .applySoundRule, rule := some rule, seek := some place }
  | soundChange {change : SoundChange} : change.IsRead →
      IsRead { kind := .soundChange, change := some change }

def Completes (form : Form) : Prop :=
  ∀ line instruction, form line = some (.ok instruction) → instruction.IsRead

/-- A form of the notation whose instructions are complete and refer to no rule. -/
def CompletesAlone (form : Form) : Prop :=
  ∀ line instruction, form line = some (.ok instruction) →
    instruction.IsRead ∧ instruction.rule = none

theorem CompletesAlone.completes {form : Form} (alone : CompletesAlone form) : Completes form :=
  fun line instruction gave => (alone line instruction gave).1

theorem completesAlone_readPhrase : CompletesAlone readPhrase := by
  intro line instruction gave
  obtain ⟨kind, isFound, same⟩ := Option.map_eq_some_iff.mp gave
  cases same
  have isPhrase := List.mem_of_find?_eq_some isFound
  simp only [List.mem_cons, List.not_mem_nil, or_false] at isPhrase
  rcases isPhrase with rfl | rfl
  · exact ⟨.noChange, rfl⟩
  · exact ⟨.dropSound, rfl⟩

theorem completesAlone_readWithLiteral (verb : Text) {kind : InstructionKind}
    (isRead : ∀ text, IsRead { kind, argument := some text }) :
    CompletesAlone (readWithLiteral verb kind) := by
  intro line instruction gave
  obtain ⟨rest, -, gave⟩ := Option.bind_eq_some_iff.mp gave
  obtain ⟨text, -, rfl⟩ := Except.map_eq_ok.mp (Option.some.inj gave)
  exact ⟨isRead text, rfl⟩

theorem completesAlone_readAttach (side : Side) (verb : Text) :
    CompletesAlone (readAttach side verb) := by
  intro line instruction gave
  obtain ⟨rest, -, gave⟩ := Option.bind_eq_some_iff.mp gave
  split at gave
  · obtain ⟨text, -, rfl⟩ := Except.map_eq_ok.mp (Option.some.inj gave)
    exact ⟨.attachText side text, rfl⟩
  · obtain ⟨source, -, rfl⟩ := Except.map_eq_ok.mp (Option.some.inj gave)
    exact ⟨.attachSound side source, rfl⟩

theorem completesAlone_readInsert : CompletesAlone readInsert := by
  intro line instruction gave
  obtain ⟨⟨content, rest⟩, -, gave⟩ := Option.bind_eq_some_iff.mp gave
  obtain ⟨side, -, gave⟩ := List.exists_of_findSome?_eq_some gave
  obtain ⟨place, -, gave⟩ := Option.bind_eq_some_iff.mp gave
  split at gave
  · cases gave
  · obtain ⟨place, -, rfl⟩ := Except.map_eq_ok.mp (Option.some.inj gave)
    exact ⟨.insert side content place, rfl⟩

theorem completesAlone_readStress : CompletesAlone readStress := by
  intro line instruction gave
  obtain ⟨rest, -, gave⟩ := Option.bind_eq_some_iff.mp gave
  obtain ⟨ordinal, -, gave⟩ := Option.bind_eq_some_iff.mp gave
  cases gave
  exact ⟨.stress ordinal, rfl⟩

theorem completesAlone_readMarkClass : CompletesAlone readMarkClass := by
  intro line instruction gave
  obtain ⟨name, -, gave⟩ := Option.bind_eq_some_iff.mp gave
  split at gave
  · cases gave
  · cases gave
    exact ⟨.markClass name, rfl⟩

theorem completesAlone_readWithCategories (verb : Text) {kind : InstructionKind}
    (isRead : ∀ names, IsRead { kind, argument := some names }) :
    CompletesAlone (readWithCategories verb kind) := by
  intro line instruction gave
  obtain ⟨rest, -, gave⟩ := Option.bind_eq_some_iff.mp gave
  obtain ⟨names, -, rfl⟩ := Except.map_eq_ok.mp (Option.some.inj gave)
  exact ⟨isRead names, rfl⟩

theorem completesAlone_readSoundChange : CompletesAlone readSoundChange := by
  intro line instruction gave
  unfold readSoundChange at gave
  split at gave
  · obtain ⟨change, isChange, rfl⟩ := Except.map_eq_ok.mp (Option.some.inj gave)
    exact ⟨.soundChange (SoundChange.isRead_of_read isChange), rfl⟩
  · cases gave

theorem completesAlone_readChangeClass : CompletesAlone readChangeClass := by
  intro line instruction gave
  unfold readChangeClass at gave
  split at gave
  · cases gave
  · obtain ⟨⟨source, target⟩, -, same⟩ := Option.map_eq_some_iff.mp gave
    cases same
    exact ⟨.changeClass source target, rfl⟩

theorem completes_readApplySoundRule (resolver : Resolver) :
    Completes (readApplySoundRule resolver) := by
  intro line instruction gave
  obtain ⟨⟨name, rest⟩, -, gave⟩ := Option.bind_eq_some_iff.mp gave
  obtain ⟨place, -, gave⟩ := Option.bind_eq_some_iff.mp gave
  split at gave
  · cases gave
  · obtain ⟨rule, -, gave⟩ := Except.bind_eq_ok.mp (Option.some.inj gave)
    obtain ⟨place, -, gave⟩ := Except.bind_eq_ok.mp gave
    cases gave
    exact .applySoundRule rule place

theorem completes_readApplyRule (resolver : Resolver) : Completes (readApplyRule resolver) := by
  intro line instruction gave
  obtain ⟨rest, -, gave⟩ := Option.bind_eq_some_iff.mp gave
  obtain ⟨name, -, gave⟩ := Except.bind_eq_ok.mp (Option.some.inj gave)
  obtain ⟨rule, -, gave⟩ := Except.bind_eq_ok.mp gave
  cases gave
  exact .applyRule rule

theorem completes_of_mem (resolver : Resolver) : ∀ form ∈ forms resolver, Completes form := by
  simp only [forms, List.forall_mem_cons, List.not_mem_nil, false_implies, implies_true,
    and_true]
  exact ⟨completesAlone_readPhrase.completes,
    (completesAlone_readWithLiteral _ .changeSound).completes,
    (completesAlone_readWithLiteral _ .changeEnding).completes,
    (completesAlone_readAttach _ _).completes, (completesAlone_readAttach _ _).completes,
    completesAlone_readInsert.completes, completesAlone_readStress.completes,
    completesAlone_readMarkClass.completes,
    (completesAlone_readWithCategories _ .addCategory).completes,
    (completesAlone_readWithCategories _ .replaceCategory).completes,
    completes_readApplySoundRule _, completes_readApplyRule _,
    completesAlone_readSoundChange.completes, completesAlone_readChangeClass.completes⟩

/-- An instruction that was read has all parts that its kind needs. -/
theorem isRead_of_read {resolver : Resolver} {text : Text} {instruction : Instruction}
    (gave : read resolver text = .ok instruction) : instruction.IsRead := by
  unfold read at gave
  dsimp only at gave
  cases isFound : (forms resolver).findSome? fun form => form (Text.squeeze text) with
  | none =>
      rw [isFound] at gave
      cases gave
  | some result =>
      rw [isFound, Option.getD_some] at gave
      obtain ⟨form, isForm, isResult⟩ := List.exists_of_findSome?_eq_some isFound
      exact completes_of_mem resolver form isForm _ instruction (gave ▸ isResult)

end Instruction

namespace Logic

/-- A logic in which nothing is missing: its instructions and predicates are as they are
read, and its parts fit together. -/
structure IsComplete (logic : Logic) : Prop where
  instructions : ∀ instruction ∈ logic.instructions, instruction.IsRead
  predicates : ∀ predicate ∈ logic.predicates, predicate.IsRead
  fits : logic.fits = true

namespace Draft

def instructions (draft : Draft) : List Instruction :=
  valuesOf draft.opening ++ draft.branches.flatMap fun branch => valuesOf branch.instructions

theorem mem_instructions_addInstruction {draft : Draft} {number : Nat}
    {added instruction : Instruction} :
    instruction ∈ (draft.addInstruction ⟨number, added⟩).instructions ↔
      instruction = added ∨ instruction ∈ draft.instructions := by
  obtain ⟨opening, branches, comments⟩ := draft
  cases branches with
  | nil => simp [instructions, addInstruction, valuesOf]
  | cons branch branches =>
      simp only [instructions, addInstruction, valuesOf, List.flatMap_cons, List.map_cons,
        List.mem_append, List.mem_cons]
      rw [or_assoc, or_left_comm]

theorem mem_instructions_logic {draft : Draft} {instruction : Instruction} :
    instruction ∈ draft.logic.instructions ↔ instruction ∈ draft.instructions := by
  unfold logic instructions
  split
  · rename_i isNone
    rw [List.isEmpty_iff.mp isNone]
    simp [Logic.instructions, Logic.branches, openingInstructions, valuesOf]
  · simp [Logic.instructions, Logic.branches, openingInstructions, valuesOf, DraftBranch.branch]

/-- A draft in which nothing is missing so far. -/
structure IsComplete (draft : Draft) : Prop where
  instructions : ∀ instruction ∈ draft.instructions, instruction.IsRead
  conditions : ∀ branch ∈ draft.branches, branch.condition.IsRead

variable {resolver : Resolver} {draft after : Draft}

theorem isComplete_addInstruction (isComplete : draft.IsComplete) (number : Nat)
    {instruction : Instruction} (isRead : instruction.IsRead) :
    (draft.addInstruction ⟨number, instruction⟩).IsComplete := by
  refine ⟨fun other isMember => ?_, ?_⟩
  · rcases mem_instructions_addInstruction.mp isMember with rfl | isMember
    · exact isRead
    · exact isComplete.instructions other isMember
  · obtain ⟨opening, branches, comments⟩ := draft
    cases branches with
    | nil => exact isComplete.conditions
    | cons branch branches =>
        exact List.forall_mem_cons.mpr (List.forall_mem_cons.mp isComplete.conditions)

theorem isComplete_of_readLine (isComplete : draft.IsComplete) {number : Nat} {line : Text}
    (oneLine : ∀ char ∈ line, isLineBreak char = false)
    (gave : draft.readLine resolver number line = .ok after) : after.IsComplete := by
  rcases readLine_cases gave with ⟨comment, rfl, rfl⟩ | ⟨text, instruction, rfl, isInstruction, rfl⟩ |
    ⟨heading, condition, rfl, -, isCondition, rfl⟩
  · exact ⟨isComplete.instructions, isComplete.conditions⟩
  · exact isComplete_addInstruction isComplete number (Instruction.isRead_of_read isInstruction)
  · have isRead := Condition.isRead_of_read (List.forall_mem_append.mp oneLine).1 isCondition
    exact ⟨isComplete.instructions, List.forall_mem_cons.mpr ⟨isRead, isComplete.conditions⟩⟩

theorem predicates_logic (isComplete : draft.IsComplete) :
    ∀ predicate ∈ draft.logic.predicates, predicate.IsRead := by
  intro predicate isMember
  obtain ⟨branch, isBranch, isMember⟩ := List.mem_flatMap.mp isMember
  unfold logic at isBranch
  split at isBranch
  · cases isBranch
  · obtain ⟨draftBranch, isDraftBranch, rfl⟩ := List.mem_map.mp isBranch
    exact Condition.isRead_of_mem_predicates
      (isComplete.conditions draftBranch (List.mem_reverse.mp isDraftBranch)) predicate isMember

end Draft

/-- In a logic that was read nothing is missing, however rules were found. -/
theorem isComplete_of_read {resolver : Resolver} {text : Text} {logic : Logic}
    (gave : read resolver text = .ok logic) : logic.IsComplete := by
  obtain ⟨draft, isDraft, rfl, areFit⟩ := read_eq_ok.mp gave
  have isEmpty : Draft.IsComplete {} := ⟨by simp [Draft.instructions, valuesOf], by simp⟩
  have isComplete := Draft.outline_induction
    (fun oneLine gave isComplete => Draft.isComplete_of_readLine isComplete oneLine gave)
    (fun line => Text.whole_of_mem_lines) isDraft isEmpty
  exact ⟨fun instruction isMember =>
    isComplete.instructions instruction (Draft.mem_instructions_logic.mp isMember),
    Draft.predicates_logic isComplete, areFit⟩

end Logic

end Diachrony
