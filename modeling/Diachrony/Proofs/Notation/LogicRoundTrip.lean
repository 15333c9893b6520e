import Diachrony.Proofs.Notation.Relinking

/-!
# Printed logic is read again

The printed form of a logic is read line by line as what is read again of each of its
parts.  So the logic of a rule is read as it is printed if and only if its conditions
and instructions are and no comment is empty, for which nothing is printed.
-/
namespace Diachrony

open Text (trim before? isBlank isLineBreak joinWith splitAt Tight)

variable {resolver : Resolver}

/-- What is read of the printed form of an instruction. -/
def Instruction.again? (resolver : Resolver) (instruction : Instruction) : Option Instruction :=
  (Instruction.read resolver (' ' :: instruction.print)).toOption

/-- What is read of the printed form of a branch. -/
def Branch.again? (resolver : Resolver) (branch : Branch) : Option Branch := do
  let condition ← (Condition.read branch.condition.print).toOption
  let instructions ← branch.instructions.mapM (Instruction.again? resolver)
  return { condition, instructions, comment := branch.comment.filter (· ≠ []) }

def Branch.isPlain (branch : Branch) : Bool :=
  branch.condition.isPlain && branch.instructions.all Instruction.isPlain &&
    branch.comment != some []

namespace Logic

def isPlain (logic : Logic) : Bool :=
  logic.openingInstructions.all Instruction.isPlain && logic.branches.all Branch.isPlain

theorem mapM_eq_some_self {α : Type} {again? : α → Option α} {items : List α} :
    items.mapM again? = some items ↔ ∀ item ∈ items, again? item = some item := by
  induction items with
  | nil => simp
  | cons item items inductionHypothesis =>
      rw [List.mapM_cons, List.forall_mem_cons, ← inductionHypothesis]
      simp only [Option.bind_eq_bind, Option.bind_eq_some_iff]
      constructor
      · rintro ⟨found, isFound, others, areFound, same⟩
        cases same
        exact ⟨isFound, areFound⟩
      · rintro ⟨isFound, areFound⟩
        exact ⟨item, isFound, items, areFound, rfl⟩

theorem instruction_again_iff {instruction : Instruction}
    (isPrintable : instruction.IsPrintable resolver) :
    instruction.again? resolver = some instruction ↔ instruction.isPlain = true := by
  rw [← isPrintable.reads]
  exact Except.toOption_eq_some

theorem instructions_again_iff {instructions : List Instruction}
    (arePrintable : ∀ instruction ∈ instructions, instruction.IsPrintable resolver) :
    instructions.mapM (Instruction.again? resolver) = some instructions ↔
      instructions.all Instruction.isPlain = true := by
  rw [mapM_eq_some_self, List.all_eq_true]
  exact forall₂_congr fun instruction isMember =>
    instruction_again_iff (arePrintable instruction isMember)

theorem branch_again_iff {branch : Branch} (isRead : branch.IsRead resolver) :
    branch.again? resolver = some branch ↔ branch.isPlain = true := by
  unfold Branch.again? Branch.isPlain
  rw [Bool.and_eq_true, Bool.and_eq_true, ← Condition.read_print_iff isRead.condition,
    ← instructions_again_iff isRead.instructions]
  simp only [Option.bind_eq_bind, Option.bind_eq_some_iff, Except.toOption_eq_some]
  have isComment : branch.comment.filter (· ≠ []) = branch.comment ↔
      (branch.comment != some []) = true := by
    cases branch.comment with
    | none => simp
    | some comment => cases comment <;> simp
  rw [← isComment]
  constructor
  · rintro ⟨condition, isCondition, instructions, areInstructions, same⟩
    have isBranch := Option.some.inj same
    have sameCondition : condition = branch.condition := congrArg Branch.condition isBranch
    have sameInstructions : instructions = branch.instructions :=
      congrArg Branch.instructions isBranch
    rw [sameCondition] at isCondition
    rw [sameInstructions] at areInstructions
    exact ⟨⟨isCondition, areInstructions⟩, congrArg Branch.comment isBranch⟩
  · rintro ⟨⟨isCondition, areInstructions⟩, sameComment⟩
    refine ⟨_, isCondition, _, areInstructions, ?_⟩
    rw [sameComment]
    rfl

namespace Draft

theorem outline_append (draft : Draft) (lines more : List Text) :
    draft.outline? resolver (lines ++ more) =
      (draft.outline? resolver lines).bind fun draft => draft.outline? resolver more := by
  induction lines generalizing draft with
  | nil => rfl
  | cons line lines inductionHypothesis =>
      rw [List.cons_append, outline?, outline?]
      split
      · exact inductionHypothesis draft
      · cases (draft.readLine resolver 0 (trim line)).toOption with
        | none => rfl
        | some next => exact inductionHypothesis next

theorem outline_cons {draft : Draft} {line trimmed : Text} (isTrimmed : trim line = trimmed)
    (isSome : trimmed ≠ []) (lines : List Text) :
    draft.outline? resolver (line :: lines) =
      (draft.readLine resolver 0 trimmed).toOption.bind fun draft =>
        draft.outline? resolver lines := by
  rw [outline?, isTrimmed, if_neg (by simpa [List.isEmpty_iff] using isSome)]

def addInstructions (draft : Draft) (instructions : List Instruction) : Draft :=
  instructions.foldl (fun draft instruction => draft.addInstruction ⟨0, instruction⟩) draft

theorem trim_instruction {indent : Text} (blank : ∀ char ∈ indent, isBlank char = true)
    {instruction : Instruction} (tight : Tight instruction.print) :
    trim (indent ++ printInstruction instruction) = '-' :: ' ' :: instruction.print := by
  have isDash : Tight ("-".toList ++ ' ' :: instruction.print) :=
    (show Tight "-".toList from Text.tight_of_solid (by decide) (by decide)).append tight
  rw [Text.trim_append_of_blank blank]
  exact isDash.trim

/-- The lines of instructions are read as what is read again of each. -/
theorem outline_instructions {indent : Text} (blank : ∀ char ∈ indent, isBlank char = true)
    {instructions : List Instruction}
    (areTight : ∀ instruction ∈ instructions, Tight instruction.print) (draft : Draft) :
    draft.outline? resolver (instructions.map fun instruction =>
        indent ++ printInstruction instruction) =
      (instructions.mapM (Instruction.again? resolver)).map draft.addInstructions := by
  induction instructions generalizing draft with
  | nil => rfl
  | cons instruction instructions inductionHypothesis =>
      obtain ⟨isTight, areTight⟩ := List.forall_mem_cons.mp areTight
      rw [List.map_cons, outline_cons (trim_instruction blank isTight) (List.cons_ne_nil _ _),
        List.mapM_cons, readLine, Instruction.again?]
      cases Instruction.read resolver (' ' :: instruction.print) with
      | error fault => rfl
      | ok again =>
          change (draft.addInstruction ⟨0, again⟩).outline? resolver _ = _
          rw [inductionHypothesis areTight]
          change _ = ((instructions.mapM (Instruction.again? resolver)).bind fun others =>
            some (again :: others)).map draft.addInstructions
          cases instructions.mapM (Instruction.again? resolver) <;> rfl

theorem outline_commentLines {lines : List Text} (areLines : ∀ line ∈ lines, IsCommentLine line)
    (draft : Draft) :
    draft.outline? resolver (lines.map fun line => "# ".toList ++ line) =
      some { draft with comments := lines.reverse ++ draft.comments } := by
  induction lines generalizing draft with
  | nil => rfl
  | cons line lines inductionHypothesis =>
      obtain ⟨isLine, areLines⟩ := List.forall_mem_cons.mp areLines
      have isTrimmed : trim ("# ".toList ++ line) = '#' :: Text.trimEnd (' ' :: line) :=
        Text.trim_cons_of_solid (by decide) _
      have isComment : trim (Text.trimEnd (' ' :: line)) = line := by
        rw [Text.trim_trimEnd, Text.trim_cons_of_blank (by decide), isLine.trimmed]
      rw [List.map_cons, outline_cons isTrimmed (List.cons_ne_nil _ _), readLine, isComment]
      change (draft.addComment line).outline? resolver _ = _
      rw [inductionHypothesis areLines, addComment, List.reverse_cons, List.append_assoc]
      rfl

/-- The lines of a comment are read as that comment, if there are any. -/
theorem outline_comment (resolver : Resolver) {comment : Option Text}
    (isComment : ∀ text, comment = some text → IsComment text) {draft : Draft}
    (noComments : draft.comments = []) :
    ∃ lines, draft.outline? resolver (printComment comment) = some { draft with comments := lines } ∧
      (if lines.isEmpty then none else some (joinWith ['\n'] lines.reverse)) =
        comment.filter (· ≠ []) := by
  have noLines : draft.outline? resolver [] = some { draft with comments := [] } := by
    rw [outline?, ← noComments]
  cases comment with
  | none => exact ⟨[], noLines, rfl⟩
  | some text =>
      cases text with
      | nil => exact ⟨[], noLines, rfl⟩
      | cons char text =>
          obtain ⟨lines, areSome, areLines, isText⟩ := isComment _ rfl
          have areSplit : splitAt '\n' (char :: text) = lines := by
            rw [isText]
            refine Text.splitAt_joinWith areSome fun line isLine isMember => ?_
            have notBreak := (areLines line isLine).oneLine '\n' isMember
            cases notBreak
          have isPrinted : printComment (some (char :: text)) =
              lines.map fun line => "# ".toList ++ line := by
            rw [← areSplit]
            rfl
          refine ⟨lines.reverse, ?_, ?_⟩
          · rw [isPrinted, outline_commentLines areLines, noComments, List.append_nil]
          · rw [List.isEmpty_reverse, if_neg (by simpa using areSome), List.reverse_reverse,
              ← isText]
            rfl

def ofBranch (branch : Branch) : DraftBranch where
  line := 0
  condition := branch.condition
  instructions := (branch.instructions.map fun instruction => ⟨0, instruction⟩).reverse
  comment := branch.comment

def ofParts (opening : List Instruction) (branches : List Branch) : Draft where
  opening := (opening.map fun instruction => ⟨0, instruction⟩).reverse
  branches := (branches.map ofBranch).reverse

theorem addInstructions_opening {draft : Draft} (noBranch : draft.branches = [])
    (instructions : List Instruction) :
    draft.addInstructions instructions =
      { draft with
        opening := (instructions.map fun instruction => ⟨0, instruction⟩).reverse ++
          draft.opening } := by
  induction instructions generalizing draft with
  | nil => rfl
  | cons instruction instructions inductionHypothesis =>
      have isAdded : draft.addInstruction ⟨0, instruction⟩ =
          { draft with opening := ⟨0, instruction⟩ :: draft.opening } := by
        rw [addInstruction, noBranch]
      have noBranchAdded : (draft.addInstruction ⟨0, instruction⟩).branches = [] := by
        rw [isAdded]
        exact noBranch
      change (draft.addInstruction ⟨0, instruction⟩).addInstructions instructions = _
      rw [inductionHypothesis noBranchAdded, isAdded]
      simp

theorem addInstructions_branch {draft : Draft} {branch : DraftBranch}
    {branches : List DraftBranch} (isOpen : draft.branches = branch :: branches)
    (instructions : List Instruction) :
    draft.addInstructions instructions =
      { draft with
        branches :=
          { branch with
            instructions := (instructions.map fun instruction => ⟨0, instruction⟩).reverse ++
              branch.instructions } :: branches } := by
  induction instructions generalizing draft branch with
  | nil =>
      obtain ⟨opening, others, comments⟩ := draft
      cases isOpen
      rfl
  | cons instruction instructions inductionHypothesis =>
      have isAdded : draft.addInstruction ⟨0, instruction⟩ =
          { draft with
            branches :=
              { branch with instructions := ⟨0, instruction⟩ :: branch.instructions } ::
                branches } := by
        rw [addInstruction, isOpen]
      change (draft.addInstruction ⟨0, instruction⟩).addInstructions instructions = _
      rw [inductionHypothesis (congrArg Draft.branches isAdded), isAdded]
      simp

theorem readLine_heading {heading : Text} (isHeading : IsHeading heading) (draft : Draft)
    (number : Nat) :
    draft.readLine resolver number (heading ++ [':']) =
      if draft.isClosed then .error .otherwiseNotLast
      else do return draft.openBranch number (← Condition.read heading) := by
  obtain ⟨char, isFirst, -, notComment, notInstruction⟩ := isHeading.first
  have isCut : before? [':'] (heading ++ [':']) = some heading := Text.before?_append heading [':']
  obtain ⟨rest, rfl⟩ := List.head?_eq_some_iff.mp isFirst
  unfold readLine
  split
  · rename_i same
    exact absurd (List.cons.inj same).1 notComment
  · rename_i same
    exact absurd (List.cons.inj same).1 notInstruction
  · rw [isCut]

/-- The lines of a branch are read as what is read again of the branch, unless the branch
in front of it takes all that is left. -/
theorem outline_branch {branch : Branch} (isRead : branch.IsRead resolver)
    (opening : List Instruction) (branches : List Branch) :
    (ofParts opening branches).outline? resolver (printBranch branch) =
      if (ofParts opening branches).isClosed then none
      else (branch.again? resolver).map fun again => ofParts opening (branches ++ [again]) := by
  obtain ⟨lines, areRead, isGiven⟩ := outline_comment resolver isRead.comment
    (show (ofParts opening branches).comments = [] from rfl)
  have isHeading := (Condition.isHeading_print isRead.condition).1
  have areTight : ∀ instruction ∈ branch.instructions, Tight instruction.print :=
    fun instruction isMember => (isRead.instructions instruction isMember).tight
  unfold printBranch
  rw [outline_append, outline_append, areRead, Option.bind_some,
    outline_cons isHeading.trim_colon (by simp), readLine_heading isHeading]
  have notYet : ({ ofParts opening branches with comments := lines } : Draft).isClosed =
      (ofParts opening branches).isClosed := rfl
  rw [notYet]
  cases (ofParts opening branches).isClosed with
  | true => rfl
  | false =>
      rw [if_neg Bool.false_ne_true, if_neg Bool.false_ne_true]
      unfold Branch.again?
      cases Condition.read branch.condition.print with
      | error fault => rfl
      | ok condition =>
          have blank : ∀ char ∈ "    ".toList, isBlank char = true := by decide
          change (Draft.outline? resolver
            (({ ofParts opening branches with comments := lines } : Draft).openBranch 0 condition)
            (branch.instructions.map fun instruction =>
              "    ".toList ++ printInstruction instruction)) = _
          rw [outline_instructions blank areTight]
          change _ = ((branch.instructions.mapM (Instruction.again? resolver)).bind
            fun instructions => some (⟨condition, instructions, branch.comment.filter (· ≠ [])⟩ :
              Branch)).map _
          cases branch.instructions.mapM (Instruction.again? resolver) with
          | none => rfl
          | some instructions =>
              rw [Option.map_some, Option.bind_some, Option.map_some, addInstructions_branch rfl,
                ← isGiven]
              simp [ofParts, ofBranch, openBranch]

theorem isClosed_ofParts (opening : List Instruction) (branches : List Branch) :
    (ofParts opening branches).isClosed =
      branches.getLast?.any fun branch => branch.condition.isOtherwise := by
  unfold isClosed ofParts
  dsimp only
  rw [List.head?_reverse, List.getLast?_map, Option.any_map]
  rfl

/-- What the lines of branches are read as, if they are read. -/
theorem again_of_outline {branches : List Branch}
    (areRead : ∀ branch ∈ branches, branch.IsRead resolver) {opening : List Instruction}
    {front : List Branch} {draft : Draft}
    (gave : (ofParts opening front).outline? resolver (branches.flatMap printBranch) = some draft) :
    ∃ again, branches.mapM (Branch.again? resolver) = some again ∧
      draft = ofParts opening (front ++ again) := by
  induction branches generalizing front with
  | nil =>
      cases gave
      exact ⟨[], rfl, by rw [List.append_nil]⟩
  | cons branch branches inductionHypothesis =>
      obtain ⟨isRead, areRead⟩ := List.forall_mem_cons.mp areRead
      rw [List.flatMap_cons, outline_append, outline_branch isRead] at gave
      split at gave
      · cases gave
      · obtain ⟨next, isNext, gave⟩ := Option.bind_eq_some_iff.mp gave
        obtain ⟨first, isFirst, rfl⟩ := Option.map_eq_some_iff.mp isNext
        obtain ⟨others, areOthers, isDraft⟩ := inductionHypothesis areRead gave
        refine ⟨first :: others, ?_, by rw [isDraft, List.append_assoc]; rfl⟩
        rw [List.mapM_cons, isFirst, areOthers]
        rfl

/-- The lines of branches that are read again are read as these branches, if none but the
last takes all that is left. -/
theorem outline_of_again {branches : List Branch}
    (areRead : ∀ branch ∈ branches, branch.IsRead resolver) {opening : List Instruction}
    {front : List Branch}
    (closed : ∀ branch ∈ (front ++ branches).dropLast, branch.condition.isOtherwise = false)
    (areAgain : ∀ branch ∈ branches, branch.again? resolver = some branch) :
    (ofParts opening front).outline? resolver (branches.flatMap printBranch) =
      some (ofParts opening (front ++ branches)) := by
  induction branches generalizing front with
  | nil =>
      rw [List.append_nil]
      rfl
  | cons branch branches inductionHypothesis =>
      obtain ⟨isRead, areRead⟩ := List.forall_mem_cons.mp areRead
      obtain ⟨isAgain, areAgain⟩ := List.forall_mem_cons.mp areAgain
      have isOpen : (ofParts opening front).isClosed = false := by
        rw [isClosed_ofParts]
        cases isLast : front.getLast? with
        | none => rfl
        | some last =>
            rw [Option.any_some]
            refine closed last ?_
            rw [List.dropLast_append_of_ne_nil (List.cons_ne_nil _ _)]
            exact List.mem_append_left _ (List.mem_of_getLast? isLast)
      have isShifted : front ++ branch :: branches = front ++ [branch] ++ branches := by simp
      rw [List.flatMap_cons, outline_append, outline_branch isRead, isOpen,
        if_neg Bool.false_ne_true, isAgain, Option.map_some, Option.bind_some,
        inductionHypothesis areRead (isShifted ▸ closed) areAgain, isShifted]

/-- The empty lines in front of branches are passed over. -/
theorem outline_appendBranches (draft : Draft) (lines : List Text) (branches : List Branch) :
    draft.outline? resolver (appendBranches lines branches) =
      (draft.outline? resolver lines).bind fun draft =>
        draft.outline? resolver (branches.flatMap printBranch) := by
  induction branches generalizing lines with
  | nil =>
      exact (Option.bind_fun_some _).symm
  | cons branch branches inductionHypothesis =>
      have noGap : ∀ draft : Draft, draft.outline? resolver (if lines.isEmpty then [] else [[]]) =
          some draft := by
        intro draft
        cases lines <;> rfl
      rw [appendBranches, inductionHypothesis, outline_append, outline_append, List.flatMap_cons]
      simp only [noGap, Option.bind_fun_some, Option.bind_assoc, outline_append]

theorem valuesOf_zero {α : Type} (values : List α) :
    valuesOf (values.map fun value => (⟨0, value⟩ : Numbered α)) = values := by
  unfold valuesOf
  rw [List.map_map]
  exact List.map_id values

theorem logic_ofParts (opening : List Instruction) {branches : List Branch} (areSome : branches ≠ []) :
    (ofParts opening branches).logic = branching opening branches := by
  have sameBranch : DraftBranch.branch ∘ ofBranch = id := by
    funext branch
    rw [Function.comp, DraftBranch.branch, ofBranch, List.reverse_reverse, valuesOf_zero]
    rfl
  unfold Draft.logic ofParts
  dsimp only
  rw [List.isEmpty_reverse, List.isEmpty_map, if_neg (by simpa using areSome), List.reverse_reverse,
    List.reverse_reverse, List.map_map, sameBranch, List.map_id, valuesOf_zero]

theorem logic_ofParts_nil (opening : List Instruction) :
    (ofParts opening []).logic = sequential opening := by
  simp [Draft.logic, ofParts, valuesOf_zero]

theorem outline_opening {opening : List Instruction}
    (arePrintable : ∀ instruction ∈ opening, instruction.IsPrintable resolver) :
    Draft.outline? resolver {} (opening.map printInstruction) =
      (opening.mapM (Instruction.again? resolver)).map fun again => ofParts again [] := by
  have noIndent : ∀ char ∈ ([] : Text), isBlank char = true := fun _ isMember => nomatch isMember
  refine (outline_instructions noIndent (fun instruction isMember =>
    (arePrintable instruction isMember).tight) {}).trans ?_
  congr 1
  funext again
  rw [addInstructions_opening rfl, List.append_nil]
  rfl

end Draft

def printedLines : Logic → List Text
  | branching opening branches => appendBranches (opening.map printInstruction) branches
  | sequential instructions => instructions.map printInstruction

theorem print_eq (logic : Logic) : logic.print = joinWith ['\n'] logic.printedLines := by
  cases logic <;> rfl

/-- A line as it is printed: one line with something in it. -/
structure IsPrintedLine (line : Text) : Prop where
  isSome : line ≠ []
  oneLine : ∀ char ∈ line, isLineBreak char = false

theorem IsPrintedLine.lead {front line : Text} (isFront : IsPrintedLine front)
    (oneLine : ∀ char ∈ line, isLineBreak char = false) : IsPrintedLine (front ++ line) where
  isSome := List.append_ne_nil_of_left_ne_nil isFront.isSome line
  oneLine := by
    intro char isMember
    rcases List.mem_append.mp isMember with isMember | isMember
    · exact isFront.oneLine char isMember
    · exact oneLine char isMember

theorem isPrintedLine_instruction {instruction : Instruction}
    (isPrintable : instruction.IsPrintable resolver) :
    IsPrintedLine (printInstruction instruction) :=
  IsPrintedLine.lead ⟨by decide, by decide⟩ fun _ => isPrintable.tight.isLineBreak

theorem isPrintedLine_branch {branch : Branch} (isRead : branch.IsRead resolver) {line : Text}
    (isLine : line ∈ printBranch branch) : IsPrintedLine line := by
  rcases List.mem_append.mp isLine with isLine | isLine
  · rcases List.mem_append.mp isLine with isLine | isLine
    · cases isComment : branch.comment with
      | none =>
          rw [isComment] at isLine
          cases isLine
      | some comment =>
          obtain ⟨lines, areSome, areLines, rfl⟩ := isRead.comment comment isComment
          rw [isComment] at isLine
          unfold printComment at isLine
          split at isLine
          · cases isLine
          · cases isLine
          · rename_i isPrinted
            cases isPrinted
            obtain ⟨line, isMember, rfl⟩ := List.mem_map.mp isLine
            rw [Text.splitAt_joinWith areSome fun line isLine isMember =>
              nomatch (areLines line isLine).oneLine '\n' isMember] at isMember
            exact IsPrintedLine.lead ⟨by decide, by decide⟩ (areLines line isMember).oneLine
    · cases List.mem_singleton.mp isLine
      have isHeading := (Condition.isHeading_print isRead.condition).1
      exact IsPrintedLine.lead ⟨isHeading.isSome, isHeading.oneLine⟩ (by decide)
  · obtain ⟨instruction, isMember, rfl⟩ := List.mem_map.mp isLine
    exact IsPrintedLine.lead ⟨by decide, by decide⟩
      (isPrintedLine_instruction (isRead.instructions instruction isMember)).oneLine

/-- Lines that may stand in a printed form: whole ones, of which the last is not empty. -/
structure ArePrinted (lines : List Text) : Prop where
  whole : ∀ line ∈ lines, ∀ char ∈ line, isLineBreak char = false
  last : lines.getLast? ≠ some []

theorem arePrinted_of_forall {lines : List Text} (areLines : ∀ line ∈ lines, IsPrintedLine line) :
    ArePrinted lines where
  whole := fun line isLine => (areLines line isLine).oneLine
  last := fun isLast => (areLines [] (List.mem_of_getLast? isLast)).isSome rfl

theorem arePrinted_appendBranches {lines : List Text} (arePrinted : ArePrinted lines)
    {branches : List Branch} (areRead : ∀ branch ∈ branches, branch.IsRead resolver) :
    ArePrinted (appendBranches lines branches) := by
  induction branches generalizing lines with
  | nil => exact arePrinted
  | cons branch branches inductionHypothesis =>
      obtain ⟨isRead, areRead⟩ := List.forall_mem_cons.mp areRead
      have areBranch := arePrinted_of_forall fun _ => isPrintedLine_branch isRead
      have isSome : printBranch branch ≠ [] := by simp [printBranch]
      refine inductionHypothesis ⟨fun line isLine => ?_, ?_⟩ areRead
      · rcases List.mem_append.mp isLine with isLine | isLine
        · rcases List.mem_append.mp isLine with isLine | isLine
          · exact arePrinted.whole line isLine
          · split at isLine
            · cases isLine
            · cases List.mem_singleton.mp isLine
              exact fun _ isMember => nomatch isMember
        · exact areBranch.whole line isLine
      · rw [List.getLast?_append_of_ne_nil _ isSome]
        exact areBranch.last

theorem lines_print {logic : Logic} (isRead : logic.IsRead resolver) :
    Text.lines logic.print = logic.printedLines := by
  have arePrinted : ArePrinted logic.printedLines := by
    have isOpening : ArePrinted (logic.openingInstructions.map printInstruction) := by
      refine arePrinted_of_forall fun line isLine => ?_
      obtain ⟨instruction, isMember, rfl⟩ := List.mem_map.mp isLine
      exact isPrintedLine_instruction (isRead.opening instruction isMember)
    cases logic with
    | branching opening branches => exact arePrinted_appendBranches isOpening isRead.branches
    | sequential instructions => exact isOpening
  rw [print_eq]
  exact Text.lines_joinWith arePrinted.whole arePrinted.last

/-- A logic as it is read is read as it is printed, if and only if it is plain. -/
theorem read_print_iff {logic : Logic} (isRead : logic.IsRead resolver) :
    read resolver logic.print = .ok logic ↔ logic.isPlain = true := by
  have areBranchesPlain : (∀ branch ∈ logic.branches, branch.again? resolver = some branch) ↔
      logic.branches.all Branch.isPlain = true := by
    rw [List.all_eq_true]
    exact forall₂_congr fun branch isMember => branch_again_iff (isRead.branches branch isMember)
  rw [read_eq_ok, lines_print isRead, isPlain, Bool.and_eq_true,
    ← instructions_again_iff isRead.opening, ← areBranchesPlain]
  cases logic with
  | sequential instructions =>
      have isOpening : ∀ instruction ∈ instructions, instruction.IsPrintable resolver :=
        isRead.opening
      rw [printedLines, Draft.outline_opening isOpening]
      constructor
      · rintro ⟨draft, isDraft, isLogic, -⟩
        obtain ⟨again, areAgain, rfl⟩ := Option.map_eq_some_iff.mp isDraft
        rw [Draft.logic_ofParts_nil] at isLogic
        cases isLogic
        exact ⟨areAgain, fun _ isMember => nomatch isMember⟩
      · rintro ⟨areAgain, -⟩
        change instructions.mapM _ = some instructions at areAgain
        rw [areAgain]
        exact ⟨_, rfl, (Draft.logic_ofParts_nil instructions).symm, isRead.fits⟩
  | branching opening branches =>
      have areSome : branches ≠ [] := by
        have areFit := isRead.fits
        simp only [fits, Bool.and_eq_true, Bool.not_eq_true', List.isEmpty_eq_false_iff] at areFit
        exact areFit.2.1
      have isOpening : ∀ instruction ∈ opening, instruction.IsPrintable resolver := isRead.opening
      rw [printedLines, Draft.outline_appendBranches, Draft.outline_opening isOpening]
      constructor
      · rintro ⟨draft, isDraft, isLogic, -⟩
        obtain ⟨front, isFront, isDraft⟩ := Option.bind_eq_some_iff.mp isDraft
        obtain ⟨again, areAgain, rfl⟩ := Option.map_eq_some_iff.mp isFront
        obtain ⟨others, areOthers, rfl⟩ := Draft.again_of_outline isRead.branches isDraft
        rw [List.nil_append] at isLogic
        have sameLength : others ≠ [] := by
          rintro rfl
          rw [Draft.logic_ofParts_nil] at isLogic
          cases isLogic
        rw [Draft.logic_ofParts again sameLength] at isLogic
        cases isLogic
        exact ⟨areAgain, mapM_eq_some_self.mp areOthers⟩
      · rintro ⟨areOpening, areBranches⟩
        change opening.mapM _ = some opening at areOpening
        rw [areOpening]
        refine ⟨_, Draft.outline_of_again isRead.branches isRead.closed areBranches, ?_, isRead.fits⟩
        exact (Draft.logic_ofParts opening areSome).symm

theorem printingErrors_eq_nil {ordinals : List (Option Int)} {numbers : List Int}
    (named : ∀ number ∈ ordinals, (Ordinal.nameOf? number).isSome = true)
    (short : ∀ number ∈ numbers, (Text.ofNat number.natAbs).length ≤ Text.digitLimit) :
    printingErrors ordinals numbers = [] := by
  have noneUnnamed : (ordinals.filter fun ordinal => (Ordinal.nameOf? ordinal).isNone) = [] := by
    refine List.filter_eq_nil_iff.mpr fun number isMember => ?_
    simpa [Option.isSome_iff_ne_none] using named number isMember
  have noneLong : ((numbers.map fun number => (Text.ofNat number.natAbs).length).filter
      (Text.digitLimit < ·)) = [] := by
    simpa [List.filter_eq_nil_iff] using short
  unfold printingErrors
  dsimp only
  rw [noneUnnamed, noneLong]
  rfl

theorem allPrintingErrors_of_isRead {logic : Logic} (isRead : logic.IsRead resolver) :
    logic.allPrintingErrors = [] := by
  have areFree {instructions : List Instruction}
      (arePrintable : ∀ instruction ∈ instructions, instruction.IsPrintable resolver) :
      instructions.flatMap instructionErrors = [] :=
    List.flatMap_eq_nil_iff.mpr fun instruction isMember =>
      printingErrors_eq_nil (arePrintable instruction isMember).named fun _ isNumber =>
          nomatch isNumber
  cases logic with
  | sequential instructions => exact areFree isRead.opening
  | branching opening branches =>
      refine List.append_eq_nil_iff.mpr ⟨areFree isRead.opening, ?_⟩
      refine List.flatMap_eq_nil_iff.mpr fun branch isBranch => ?_
      have isBranchRead := isRead.branches branch isBranch
      refine List.append_eq_nil_iff.mpr ⟨?_, areFree isBranchRead.instructions⟩
      refine List.flatMap_eq_nil_iff.mpr fun predicate isPredicate => ?_
      have isPredicateRead :=
        Condition.isRead_of_mem_predicates isBranchRead.condition predicate isPredicate
      exact printingErrors_eq_nil isPredicateRead.named isPredicateRead.short

theorem printed_of_isRead {logic : Logic} (isRead : logic.IsRead resolver) :
    logic.printed = .ok logic.print := by
  unfold printed
  rw [allPrintingErrors_of_isRead isRead]
  rfl

/-- Whatever text a logic was read of, the logic has a printed form, and that is read as
this logic if and only if the logic is plain. -/
theorem read_printed_iff {resolver : Resolver} (isByName : resolver.IsByName) (rule : Data)
    {text : Text} {logic : Logic} (gave : readFor resolver rule text = .ok logic) :
    ∃ printed, logic.printed = .ok printed ∧
      (readFor resolver rule printed = .ok logic ↔ logic.isPlain = true) := by
  have isRead := isRead_of_read isByName (readFor_eq_ok.mp gave)
  exact ⟨logic.print, printed_of_isRead isRead, readFor_eq_ok.trans (read_print_iff isRead)⟩

/-- The article goes, and what it kept apart is then read as a denial. -/
theorem read_printed_iff_notVowel :
    ∃ logic printed,
      readFor (RuleNames.resolver []) .null "sound is a not vowel:\n- sound disappears" = .ok logic ∧
        logic.printed = .ok printed ∧ readFor (RuleNames.resolver []) .null printed ≠ .ok logic := by
  have found : ((readFor (RuleNames.resolver []) .null
      "sound is a not vowel:\n- sound disappears").toOption.map isPlain) = some false := by
    decide +kernel
  obtain ⟨logic, gave, notPlain⟩ := Except.exists_of_toOption_map found
  obtain ⟨printed, isPrinted, isAgain⟩ :=
    read_printed_iff (RuleNames.isByName_resolver []) .null gave
  refine ⟨logic, printed, gave, isPrinted, fun again => ?_⟩
  rw [isAgain.mp again] at notPlain
  cases notPlain

end Logic

end Diachrony
