import Diachrony.Logic.Reader
import Diachrony.Proofs.Notation.Condition
import Diachrony.Proofs.Notation.Instruction

/-!
# Drafts of a logic

What a draft holds after its lines were read, and what it takes for a draft to be made a
logic.  The numbers of the lines go into faults only: a text is read as the same logic
wherever its lines stand.
-/
namespace Diachrony

open Text (trim before? isLineBreak joinWith)

namespace Logic

def valuesOf {α : Type} (numbered : List (Numbered α)) : List α := numbered.map Numbered.value

def DraftBranch.branch (draft : DraftBranch) : Branch where
  condition := draft.condition
  instructions := valuesOf draft.instructions.reverse
  comment := draft.comment

def Draft.logic (draft : Draft) : Logic :=
  if draft.branches.isEmpty then sequential (valuesOf draft.opening.reverse)
  else
    branching (valuesOf draft.opening.reverse) (draft.branches.reverse.map DraftBranch.branch)

def lacks (isRefused : InstructionKind → Bool) (instructions : List Instruction) : Bool :=
  instructions.all fun instruction => !isRefused instruction.kind

/-- Whether the instructions of a branch fit its condition and the kind of the rule. -/
def branchFits (segmental : Bool) (branch : Branch) : Bool :=
  !branch.instructions.isEmpty &&
    if segmental then lacks InstructionKind.isWordLevel branch.instructions
    else
      lacks InstructionKind.isSegmental branch.instructions &&
        (branch.condition.asksEnding || lacks (· == .changeEnding) branch.instructions)

def fits (logic : Logic) : Bool :=
  lacks InstructionKind.isSegmental logic.openingInstructions &&
    match logic with
    | sequential instructions => lacks (· == .changeEnding) instructions
    | branching _ branches => !branches.isEmpty && branches.all (branchFits logic.isSegmental)

theorem refuseFirst_eq_ok {isRefused : InstructionKind → Bool}
    {fault : InstructionKind → ReadingFault} {instructions : List (Numbered Instruction)} :
    refuseFirst isRefused fault instructions = .ok () ↔
      lacks isRefused (valuesOf instructions) = true := by
  unfold refuseFirst lacks valuesOf
  rw [List.all_map]
  split
  · rename_i numbered isFound
    refine iff_of_false (fun gave => nomatch gave) fun areAll => ?_
    have isRefused := List.find?_some isFound
    have isMember := List.mem_of_find?_eq_some isFound
    have notRefused := List.all_eq_true.mp areAll numbered isMember
    simp [isRefused] at notRefused
  · rename_i isNone
    refine iff_of_true rfl (List.all_eq_true.mpr fun numbered isMember => ?_)
    simpa using List.find?_eq_none.mp isNone numbered isMember

theorem finishBranch_eq_ok (segmental : Bool) (draft : DraftBranch) (branch : Branch) :
    finishBranch segmental draft = .ok branch ↔
      branch = draft.branch ∧ branchFits segmental branch = true := by
  have isPure : (pure draft.branch : Except LocatedFault Branch) = .ok branch ↔
      branch = draft.branch := by
    constructor
    · rintro ⟨rfl⟩
      rfl
    · rintro rfl
      rfl
  have sameBranch : ∀ {holds : Bool}, (branch = draft.branch → branchFits segmental branch = holds) →
      (holds = true ∧ branch = draft.branch ↔
        branch = draft.branch ∧ branchFits segmental branch = true) := by
    intro holds isHolds
    rw [And.comm]
    exact and_congr_right fun isBranch => by rw [isHolds isBranch]
  have isPart : draft.branch.instructions = valuesOf draft.instructions.reverse := rfl
  unfold finishBranch
  dsimp only
  cases isNone : draft.instructions.reverse.isEmpty with
  | true =>
      refine iff_of_false (fun gave => nomatch gave) ?_
      rintro ⟨rfl, areFit⟩
      rw [branchFits, isPart, valuesOf, List.isEmpty_map, isNone] at areFit
      cases areFit
  | false =>
      have isSome : draft.branch.instructions.isEmpty = false := by
        rw [isPart, valuesOf, List.isEmpty_map, isNone]
      rw [if_neg Bool.false_ne_true]
      cases segmental with
      | true =>
          rw [if_pos rfl, Except.check_eq_ok]
          refine (and_congr refuseFirst_eq_ok isPure).trans (sameBranch ?_)
          rintro rfl
          rw [branchFits, isSome]
          rfl
      | false =>
          rw [if_neg Bool.false_ne_true, Except.check_eq_ok]
          cases asks : draft.condition.asksEnding with
          | true =>
              refine (and_congr refuseFirst_eq_ok isPure).trans (sameBranch ?_)
              rintro rfl
              rw [branchFits, isSome, show draft.branch.condition = draft.condition from rfl, asks,
                Bool.true_or, Bool.and_true]
              rfl
          | false =>
              rw [Bool.not_false, if_pos rfl, Except.check_eq_ok, ← and_assoc]
              refine (and_congr (and_congr refuseFirst_eq_ok refuseFirst_eq_ok) isPure).trans ?_
              rw [← Bool.and_eq_true]
              refine sameBranch ?_
              rintro rfl
              rw [branchFits, isSome, show draft.branch.condition = draft.condition from rfl, asks]
              rfl

/-- A draft is made the logic it is about, if the parts of that logic fit together. -/
theorem finish_eq_ok {draft : Draft} {logic : Logic} :
    finish draft = .ok logic ↔ logic = draft.logic ∧ logic.fits = true := by
  unfold finish Draft.logic
  dsimp only
  rw [Except.check_eq_ok, List.isEmpty_reverse]
  cases isNone : draft.branches.isEmpty with
  | true =>
      rw [if_pos rfl, if_pos rfl, Except.check_eq_ok]
      rw [show refuseSegmental draft.opening.reverse = .ok () ↔ _ from refuseFirst_eq_ok,
        show refuseEndingChange draft.opening.reverse = .ok () ↔ _ from refuseFirst_eq_ok]
      have isFit : fits (sequential (valuesOf draft.opening.reverse)) =
          (lacks InstructionKind.isSegmental (valuesOf draft.opening.reverse) &&
            lacks (· == .changeEnding) (valuesOf draft.opening.reverse)) := rfl
      constructor
      · rintro ⟨noSegmental, noEnding, ⟨rfl⟩⟩
        exact ⟨rfl, isFit.trans (by rw [noSegmental, noEnding]; rfl)⟩
      · rintro ⟨rfl, areFit⟩
        rw [isFit, Bool.and_eq_true] at areFit
        exact ⟨areFit.1, areFit.2, rfl⟩
  | false =>
      have isFit : fits (branching (valuesOf draft.opening.reverse)
          (draft.branches.reverse.map DraftBranch.branch)) =
          (lacks InstructionKind.isSegmental (valuesOf draft.opening.reverse) &&
            (draft.branches.reverse.map DraftBranch.branch).all
              (branchFits (draft.branches.reverse.any fun branch => branch.condition.isSegmental))) := by
        unfold fits
        dsimp only
        rw [List.isEmpty_map, List.isEmpty_reverse, isNone, Bool.not_false, Bool.true_and,
          isSegmental, List.any_map]
        rfl
      rw [if_neg Bool.false_ne_true, if_neg Bool.false_ne_true, Except.bind_eq_ok]
      rw [show refuseSegmental draft.opening.reverse = .ok () ↔ _ from refuseFirst_eq_ok]
      simp only [Except.mapM_eq_ok_map (finishBranch_eq_ok _)]
      constructor
      · rintro ⟨noSegmental, branches, ⟨rfl, areFit⟩, ⟨rfl⟩⟩
        exact ⟨rfl, isFit.trans (by rw [noSegmental, areFit]; rfl)⟩
      · rintro ⟨rfl, areFit⟩
        rw [isFit, Bool.and_eq_true] at areFit
        exact ⟨areFit.1, _, ⟨rfl, areFit.2⟩, rfl⟩

theorem valuesOf_reverse_zero {α : Type} (numbered : List (Numbered α)) :
    valuesOf (numbered.map fun numbered => ⟨0, numbered.value⟩).reverse =
      valuesOf numbered.reverse := by
  unfold valuesOf
  rw [← List.map_reverse, List.map_map]
  rfl

def DraftBranch.unnumbered (draft : DraftBranch) : DraftBranch where
  line := 0
  condition := draft.condition
  instructions := draft.instructions.map fun numbered => ⟨0, numbered.value⟩
  comment := draft.comment

namespace Draft

/-- A draft in which every line has the number zero. -/
def unnumbered (draft : Draft) : Draft where
  opening := draft.opening.map fun numbered => ⟨0, numbered.value⟩
  branches := draft.branches.map DraftBranch.unnumbered
  comments := draft.comments

/-- Reads lines into a draft as if each had the number zero. -/
def outline? (resolver : Resolver) : Draft → List Text → Option Draft
  | draft, [] => some draft
  | draft, line :: lines =>
    if (trim line).isEmpty then outline? resolver draft lines
    else
      (draft.readLine resolver 0 (trim line)).toOption.bind fun draft =>
        outline? resolver draft lines

variable {resolver : Resolver}

theorem addInstruction_unnumbered (draft : Draft) (number : Nat) (instruction : Instruction) :
    (draft.addInstruction ⟨number, instruction⟩).unnumbered =
      draft.unnumbered.addInstruction ⟨0, instruction⟩ := by
  unfold addInstruction unnumbered
  cases draft.branches <;> rfl

theorem isClosed_unnumbered (draft : Draft) : draft.unnumbered.isClosed = draft.isClosed := by
  unfold isClosed unnumbered
  cases draft.branches <;> rfl

theorem readLine_unnumbered (draft : Draft) (number : Nat) (line : Text) :
    (draft.readLine resolver number line).map unnumbered =
      draft.unnumbered.readLine resolver 0 line := by
  unfold readLine
  split
  · rfl
  · rename_i text
    cases Instruction.read resolver text with
    | error fault => rfl
    | ok instruction => exact congrArg Except.ok (addInstruction_unnumbered draft number instruction)
  · cases before? [':'] line with
    | none => rfl
    | some heading =>
        dsimp only
        rw [isClosed_unnumbered]
        cases draft.isClosed with
        | true => rfl
        | false =>
            cases Condition.read heading with
            | error fault => rfl
            | ok condition => rfl

theorem readLines_unnumbered (draft : Draft) (numbered : List (Nat × Text)) :
    (draft.readLines resolver numbered).toOption.map unnumbered =
      draft.unnumbered.outline? resolver (numbered.map Prod.snd) := by
  induction numbered generalizing draft with
  | nil => rfl
  | cons first numbered inductionHypothesis =>
      obtain ⟨number, line⟩ := first
      rw [readLines, List.map_cons, outline?, ← readLine_unnumbered draft number]
      dsimp only
      split
      · exact inductionHypothesis draft
      · cases draft.readLine resolver number (trim line) with
        | error fault => rfl
        | ok next => exact inductionHypothesis next

theorem logic_unnumbered (draft : Draft) : draft.unnumbered.logic = draft.logic := by
  have sameBranch : DraftBranch.branch ∘ DraftBranch.unnumbered = DraftBranch.branch := by
    funext branch
    simp only [Function.comp, DraftBranch.branch, DraftBranch.unnumbered, valuesOf_reverse_zero]
  unfold logic unnumbered
  dsimp only
  rw [List.isEmpty_map, valuesOf_reverse_zero, ← List.map_reverse, List.map_map, sameBranch]

end Draft

/-- A text is read as the logic that its lines are about, if the parts of that logic fit
together. -/
theorem read_eq_ok {resolver : Resolver} {text : Text} {logic : Logic} :
    read resolver text = .ok logic ↔
      ∃ draft, Draft.outline? resolver {} (Text.lines text) = some draft ∧ logic = draft.logic ∧
        logic.fits = true := by
  have outlined : ((Draft.readLines resolver {} (Text.numberedLines text)).toOption.map
      Draft.unnumbered) = _ := Draft.readLines_unnumbered {} (Text.numberedLines text)
  rw [Text.numberedLines_snd] at outlined
  unfold read
  rw [Except.bind_eq_ok]
  simp only [finish_eq_ok]
  constructor
  · rintro ⟨draft, isDraft, isLogic⟩
    rw [isDraft] at outlined
    exact ⟨draft.unnumbered, outlined.symm, by rwa [Draft.logic_unnumbered]⟩
  · rintro ⟨outline, isOutline, isLogic⟩
    obtain ⟨draft, isDraft, same⟩ := Except.exists_of_toOption_map (outlined.trans isOutline)
    rw [← same, Draft.logic_unnumbered] at isLogic
    exact ⟨draft, isDraft, isLogic⟩

theorem readFor_eq_ok {resolver : Resolver} {rule : Data} {text : Text}
    {logic : Logic} :
    readFor resolver rule text = .ok logic ↔ read resolver text = .ok logic :=
  Except.mapError_eq_ok

/-- A line of a comment as it is read: one line without blanks around it. -/
structure IsCommentLine (line : Text) : Prop where
  trimmed : trim line = line
  oneLine : ∀ char ∈ line, isLineBreak char = false

/-- A comment as it is read: one line of a comment, or more of them. -/
def IsComment (comment : Text) : Prop :=
  ∃ lines : List Text, lines ≠ [] ∧ (∀ line ∈ lines, IsCommentLine line) ∧
    comment = joinWith ['\n'] lines

end Logic

structure Branch.IsRead (resolver : Resolver) (branch : Branch) : Prop where
  condition : branch.condition.IsRead
  instructions : ∀ instruction ∈ branch.instructions, instruction.IsPrintable resolver
  comment : ∀ comment, branch.comment = some comment → Logic.IsComment comment

namespace Logic

/-- A logic as it is read: only the last branch may take all that is left. -/
structure IsRead (resolver : Resolver) (logic : Logic) : Prop where
  opening : ∀ instruction ∈ logic.openingInstructions, instruction.IsPrintable resolver
  branches : ∀ branch ∈ logic.branches, branch.IsRead resolver
  closed : ∀ branch ∈ logic.branches.dropLast, branch.condition.isOtherwise = false
  fits : logic.fits = true

namespace Draft

structure IsRead (resolver : Resolver) (draft : Draft) : Prop where
  opening : ∀ numbered ∈ draft.opening, numbered.value.IsPrintable resolver
  branches : ∀ branch ∈ draft.branches, branch.branch.IsRead resolver
  comments : ∀ comment ∈ draft.comments, IsCommentLine comment
  closed : ∀ branch ∈ draft.branches.tail, branch.condition.isOtherwise = false

variable {resolver : Resolver} {draft after : Draft}

theorem isRead_addComment (isRead : draft.IsRead resolver) {comment : Text}
    (oneLine : ∀ char ∈ comment, isLineBreak char = false) :
    (draft.addComment (trim comment)).IsRead resolver where
  opening := isRead.opening
  branches := isRead.branches
  comments := by
    refine List.forall_mem_cons.mpr ⟨⟨Text.trim_trim comment, fun char isMember => ?_⟩,
      isRead.comments⟩
    obtain ⟨front, back, whole, -, -⟩ := Text.trim_spec comment
    exact oneLine char (whole ▸ List.mem_append_right _ (List.mem_append_left _ isMember))
  closed := isRead.closed

theorem isRead_addInstruction (isRead : draft.IsRead resolver) {number : Nat}
    {instruction : Instruction} (isPrintable : instruction.IsPrintable resolver) :
    (draft.addInstruction ⟨number, instruction⟩).IsRead resolver := by
  obtain ⟨opening, branches, comments⟩ := draft
  cases branches with
  | nil =>
      exact ⟨List.forall_mem_cons.mpr ⟨isPrintable, isRead.opening⟩, isRead.branches,
        isRead.comments, isRead.closed⟩
  | cons branch branches =>
      obtain ⟨isBranch, areBranches⟩ := List.forall_mem_cons.mp isRead.branches
      refine ⟨isRead.opening, List.forall_mem_cons.mpr ⟨⟨isBranch.condition, ?_, isBranch.comment⟩,
        areBranches⟩, isRead.comments, isRead.closed⟩
      intro other isMember
      simp only [DraftBranch.branch, valuesOf, List.reverse_cons, List.map_append, List.mem_append,
        List.map_cons, List.map_nil, List.mem_singleton] at isMember
      rcases isMember with isMember | rfl
      · exact isBranch.instructions other isMember
      · exact isPrintable

theorem isRead_openBranch (isRead : draft.IsRead resolver) (notClosed : draft.isClosed = false)
    {number : Nat} {condition : Condition} (isCondition : condition.IsRead) :
    (draft.openBranch number condition).IsRead resolver where
  opening := isRead.opening
  branches := by
    refine List.forall_mem_cons.mpr ⟨⟨isCondition, (fun _ isMember => nomatch isMember), ?_⟩,
      isRead.branches⟩
    intro comment isComment
    unfold DraftBranch.branch at isComment
    dsimp only at isComment
    split at isComment
    · cases isComment
    · rename_i areSome
      cases isComment
      refine ⟨draft.comments.reverse, by simpa using areSome, fun line isLine => ?_, rfl⟩
      exact isRead.comments line (List.mem_reverse.mp isLine)
  comments := fun _ isMember => nomatch isMember
  closed := by
    intro branch isMember
    change branch ∈ draft.branches at isMember
    unfold isClosed at notClosed
    cases areBranches : draft.branches with
    | nil =>
        rw [areBranches] at isMember
        cases isMember
    | cons first others =>
        rw [areBranches, List.head?_cons, Option.any_some] at notClosed
        rw [areBranches] at isMember
        rcases List.mem_cons.mp isMember with rfl | isMember
        · exact notClosed
        · exact isRead.closed branch (by rw [areBranches]; exact isMember)

/-- What one line makes of a draft: it is a comment, an instruction or the heading of a
branch. -/
theorem readLine_cases {number : Nat} {line : Text}
    (gave : draft.readLine resolver number line = .ok after) :
    (∃ comment, line = '#' :: comment ∧ after = draft.addComment (trim comment)) ∨
    (∃ text instruction, line = '-' :: text ∧ Instruction.read resolver text = .ok instruction ∧
      after = draft.addInstruction ⟨number, instruction⟩) ∨
    ∃ heading condition, line = heading ++ [':'] ∧ draft.isClosed = false ∧
      Condition.read heading = .ok condition ∧ after = draft.openBranch number condition := by
  unfold readLine at gave
  split at gave
  · rename_i comment
    cases gave
    exact .inl ⟨comment, rfl, rfl⟩
  · rename_i text
    obtain ⟨instruction, isInstruction, gave⟩ := Except.bind_eq_ok.mp gave
    cases gave
    exact .inr (.inl ⟨text, instruction, rfl, isInstruction, rfl⟩)
  · split at gave
    · cases gave
    · rename_i heading isHeading
      split at gave
      · cases gave
      · rename_i notClosed
        obtain ⟨condition, isCondition, gave⟩ := Except.bind_eq_ok.mp gave
        cases gave
        exact .inr (.inr ⟨heading, condition, Text.before?_eq_some.mp isHeading,
          by simpa using notClosed, isCondition, rfl⟩)

/-- What every line of a text keeps of a draft, all of them keep. -/
theorem outline_induction {Holds : Draft → Prop}
    (step : ∀ {draft after : Draft} {line : Text}, (∀ char ∈ line, isLineBreak char = false) →
      draft.readLine resolver 0 line = .ok after → Holds draft → Holds after)
    {lines : List Text} (areWhole : ∀ line ∈ lines, ∀ char ∈ line, isLineBreak char = false)
    (gave : draft.outline? resolver lines = some after) (holds : Holds draft) : Holds after := by
  induction lines generalizing draft with
  | nil =>
      cases gave
      exact holds
  | cons line lines inductionHypothesis =>
      obtain ⟨isWhole, areWhole⟩ := List.forall_mem_cons.mp areWhole
      rw [outline?] at gave
      split at gave
      · exact inductionHypothesis areWhole gave holds
      · obtain ⟨next, isNext, gave⟩ := Option.bind_eq_some_iff.mp gave
        refine inductionHypothesis areWhole gave
          (step (fun char isMember => ?_) (Except.toOption_eq_some.mp isNext) holds)
        obtain ⟨front, back, whole, -, -⟩ := Text.trim_spec line
        exact isWhole char (whole ▸ List.mem_append_right _ (List.mem_append_left _ isMember))

/-- What one line leaves of a draft as it is read. -/
theorem isRead_of_readLine (isByName : resolver.IsByName) (isRead : draft.IsRead resolver)
    {number : Nat} {line : Text} (oneLine : ∀ char ∈ line, isLineBreak char = false)
    (gave : draft.readLine resolver number line = .ok after) : after.IsRead resolver := by
  rcases readLine_cases gave with ⟨comment, rfl, rfl⟩ | ⟨text, instruction, rfl, isInstruction, rfl⟩ |
    ⟨heading, condition, rfl, notClosed, isCondition, rfl⟩
  · exact isRead_addComment isRead (List.forall_mem_cons.mp oneLine).2
  · exact isRead_addInstruction isRead (Instruction.isPrintable_of_read isByName isInstruction)
  · exact isRead_openBranch isRead notClosed
      (Condition.isRead_of_read (List.forall_mem_append.mp oneLine).1 isCondition)

end Draft

/-- What is read of a text is a logic as it is read. -/
theorem isRead_of_read {resolver : Resolver} (isByName : resolver.IsByName) {text : Text}
    {logic : Logic} (gave : read resolver text = .ok logic) : logic.IsRead resolver := by
  obtain ⟨draft, isDraft, rfl, areFit⟩ := read_eq_ok.mp gave
  have isEmpty : Draft.IsRead resolver {} := ⟨by simp, by simp, by simp, by simp⟩
  have isRead := Draft.outline_induction
    (fun oneLine gave isRead => Draft.isRead_of_readLine isByName isRead oneLine gave)
    (fun line => Text.whole_of_mem_lines) isDraft isEmpty
  have opening : ∀ instruction ∈ valuesOf draft.opening.reverse,
      instruction.IsPrintable resolver := by
    intro instruction isMember
    obtain ⟨numbered, isNumbered, rfl⟩ := List.mem_map.mp isMember
    exact isRead.opening numbered (List.mem_reverse.mp isNumbered)
  unfold Draft.logic at areFit ⊢
  split
  · rename_i isNone
    rw [if_pos isNone] at areFit
    exact ⟨opening, (fun _ isMember => nomatch isMember), (fun _ isMember => nomatch isMember), areFit⟩
  · rename_i isSome
    rw [if_neg isSome] at areFit
    refine ⟨opening, fun branch isMember => ?_, fun branch isMember => ?_, areFit⟩
    · obtain ⟨draftBranch, isDraftBranch, rfl⟩ := List.mem_map.mp isMember
      exact isRead.branches draftBranch (List.mem_reverse.mp isDraftBranch)
    · change branch ∈ (draft.branches.reverse.map DraftBranch.branch).dropLast at isMember
      rw [← List.map_dropLast, List.dropLast_reverse] at isMember
      obtain ⟨draftBranch, isDraftBranch, rfl⟩ := List.mem_map.mp isMember
      exact isRead.closed draftBranch (List.mem_reverse.mp isDraftBranch)

end Logic

end Diachrony
