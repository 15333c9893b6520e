import Diachrony.Proofs.Notation.Faults
import Diachrony.Proofs.Notation.LogicRoundTrip

/-!
# Where a fault is found

The parts of a rule are read without knowing where they stand; a fault gets the number of its
line when the line has been read, or, where lines do not go together, at the end.  Either way it
is the number of a line that states something.  What is wrong within a line is found when that
line is read, whatever comes behind it.  Of a heading that counts syllables too far the rule and
the line are not told.
-/
namespace Diachrony

open Text (trim before? numberedLines isLineBreak ofNat)

namespace Logic

/-- A line states something: it is neither blank nor a comment. -/
structure States (line : Text) : Prop where
  isSome : trim line ≠ []
  noComment : (trim line).head? ≠ some '#'

def CountsTooFar (line : Text) : Prop :=
  ∃ heading, trim line = heading ++ [':'] ∧ Condition.CountsTooFar heading

variable {resolver : Resolver} {Holds : Nat → Prop}

namespace Draft

variable {draft after : Draft} {number : Nat} {line : Text}

theorem readLine_comment (draft : Draft) (number : Nat) (comment : Text) :
    draft.readLine resolver number ('#' :: comment) = .ok (draft.addComment (trim comment)) := by
  rfl

theorem states_of_readLine {fault : ReadingFault} (isSome : trim line ≠ [])
    (failed : draft.readLine resolver number (trim line) = .error fault) : States line where
  isSome := isSome
  noComment := by
    intro isFirst
    obtain ⟨comment, isComment⟩ := List.head?_eq_some_iff.mp isFirst
    rw [isComment, readLine_comment] at failed
    cases failed

/-- What is wrong with a line is a fault of the notation, unless it counts too far. -/
theorem complains_readLine (draft : Draft) (number : Nat)
    (oneLine : ∀ char ∈ line, isLineBreak char = false) (near : ¬CountsTooFar line) :
    Complains (draft.readLine resolver number (trim line)) := by
  unfold readLine
  split
  · simp
  · apply complains_bind (Instruction.complains_read resolver _)
    simp
  · split
    · simp [ReadingFault.isOfNotation]
    · rename_i heading isHeading
      have isLine := Text.before?_eq_some.mp isHeading
      split
      · simp [ReadingFault.isOfNotation]
      · have oneLineHere : ∀ char ∈ heading, isLineBreak char = false := by
          intro char isMember
          apply oneLine char
          apply Text.mem_of_mem_trim
          simp [isLine, isMember]
        have nearHere : ¬Condition.CountsTooFar heading :=
          fun counts => near ⟨heading, isLine, counts⟩
        apply complains_bind (Condition.complains_read oneLineHere nearHere)
        simp

/-- What goes wrong while lines are read goes wrong in one that states something. -/
theorem exists_line_of_readLines {numbered : List (Nat × Text)} {located : LocatedFault}
    (failed : draft.readLines resolver numbered = .error located) :
    ∃ line before, (located.line, line) ∈ numbered ∧ trim line ≠ [] ∧
      readLine resolver before located.line (trim line) = .error located.fault := by
  induction numbered generalizing draft with
  | nil => cases failed
  | cons first numbered inductionHypothesis =>
      obtain ⟨number, line⟩ := first
      have later (next : Draft) (failed : next.readLines resolver numbered = .error located) :
          ∃ other before, (located.line, other) ∈ (number, line) :: numbered ∧ trim other ≠ [] ∧
            readLine resolver before located.line (trim other) = .error located.fault := by
        obtain ⟨other, before, isMember, found⟩ := inductionHypothesis failed
        exact ⟨other, before, List.mem_cons_of_mem _ isMember, found⟩
      rw [readLines] at failed
      split at failed
      · exact later draft failed
      · rename_i isSome
        cases isRead : draft.readLine resolver number (trim line) with
        | ok next =>
            rw [isRead] at failed
            exact later next failed
        | error fault =>
            rw [isRead] at failed
            cases failed
            exact ⟨line, draft, List.mem_cons_self, by simpa using isSome, isRead⟩

/-- What goes wrong while lines are read goes wrong whatever lines come behind them. -/
theorem readLines_append {front : List (Nat × Text)} {located : LocatedFault}
    (failed : draft.readLines resolver front = .error located) (back : List (Nat × Text)) :
    draft.readLines resolver (front ++ back) = .error located := by
  induction front generalizing draft with
  | nil => cases failed
  | cons first front inductionHypothesis =>
      obtain ⟨number, line⟩ := first
      rw [readLines] at failed
      rw [List.cons_append, readLines]
      by_cases isBlank : (trim line).isEmpty = true
      · rw [if_pos isBlank] at failed ⊢
        exact inductionHypothesis failed
      · rw [if_neg isBlank] at failed ⊢
        cases isRead : draft.readLine resolver number (trim line) with
        | ok next =>
            rw [isRead] at failed
            exact inductionHypothesis failed
        | error fault =>
            rw [isRead] at failed
            exact failed

/-- Whatever stands in a draft has the number of a line with some property. -/
structure IsFrom (Holds : Nat → Prop) (draft : Draft) : Prop where
  opening : ∀ numbered ∈ draft.opening, Holds numbered.line
  headings : ∀ branch ∈ draft.branches, Holds branch.line
  instructions : ∀ branch ∈ draft.branches, ∀ numbered ∈ branch.instructions, Holds numbered.line

theorem isFrom_empty : IsFrom Holds {} where
  opening := by simp
  headings := by simp
  instructions := by simp

theorem isFrom_addComment (isFrom : draft.IsFrom Holds) (comment : Text) :
    (draft.addComment comment).IsFrom Holds where
  opening := isFrom.opening
  headings := isFrom.headings
  instructions := isFrom.instructions

theorem isFrom_addInstruction (isFrom : draft.IsFrom Holds) {added : Numbered Instruction}
    (holds : Holds added.line) : (draft.addInstruction added).IsFrom Holds := by
  obtain ⟨opening, branches, comments⟩ := draft
  cases branches with
  | nil =>
      exact
        { opening := List.forall_mem_cons.mpr ⟨holds, isFrom.opening⟩
          headings := isFrom.headings
          instructions := isFrom.instructions }
  | cons branch branches =>
      obtain ⟨ofBranch, ofOthers⟩ := List.forall_mem_cons.mp isFrom.instructions
      have ofExtended : ∀ numbered ∈ added :: branch.instructions, Holds numbered.line :=
        List.forall_mem_cons.mpr ⟨holds, ofBranch⟩
      exact
        { opening := isFrom.opening
          headings := List.forall_mem_cons.mpr (List.forall_mem_cons.mp isFrom.headings)
          instructions := List.forall_mem_cons.mpr ⟨ofExtended, ofOthers⟩ }

theorem isFrom_openBranch (isFrom : draft.IsFrom Holds) (holds : Holds number)
    (condition : Condition) : (draft.openBranch number condition).IsFrom Holds where
  opening := isFrom.opening
  headings := List.forall_mem_cons.mpr ⟨holds, isFrom.headings⟩
  instructions := List.forall_mem_cons.mpr ⟨by simp, isFrom.instructions⟩

/-- A line that is read puts no other number than its own into a draft, and a comment none. -/
theorem isFrom_of_readLine (isFrom : draft.IsFrom Holds)
    (gave : draft.readLine resolver number line = .ok after)
    (holds : line.head? ≠ some '#' → Holds number) : after.IsFrom Holds := by
  by_cases isComment : line.head? = some '#'
  · obtain ⟨comment, rfl⟩ := List.head?_eq_some_iff.mp isComment
    rw [readLine_comment] at gave
    cases gave
    exact isFrom_addComment isFrom _
  · have holds := holds isComment
    rcases readLine_cases gave with ⟨comment, -, rfl⟩ | ⟨text, instruction, -, -, rfl⟩ |
      ⟨heading, condition, -, -, -, rfl⟩
    · exact isFrom_addComment isFrom _
    · exact isFrom_addInstruction isFrom holds
    · exact isFrom_openBranch isFrom holds condition

theorem isFrom_of_readLines {numbered : List (Nat × Text)} (isFrom : draft.IsFrom Holds)
    (gave : draft.readLines resolver numbered = .ok after)
    (hold : ∀ entry ∈ numbered, States entry.2 → Holds entry.1) : after.IsFrom Holds := by
  induction numbered generalizing draft with
  | nil =>
      cases gave
      exact isFrom
  | cons first numbered inductionHypothesis =>
      obtain ⟨number, line⟩ := first
      obtain ⟨holds, hold⟩ := List.forall_mem_cons.mp hold
      rw [readLines] at gave
      split at gave
      · exact inductionHypothesis isFrom gave hold
      · rename_i isSome
        cases isRead : draft.readLine resolver number (trim line) with
        | error fault =>
            rw [isRead] at gave
            cases gave
        | ok next =>
            rw [isRead] at gave
            apply inductionHypothesis _ gave hold
            apply isFrom_of_readLine isFrom isRead
            intro noComment
            exact holds ⟨by simpa using isSome, noComment⟩

end Draft

/-- What goes wrong is a fault of the notation, in a line with some property. -/
def Locates {α : Type} (Holds : Nat → Prop) (result : Except LocatedFault α) : Prop :=
  ∀ located, result = .error located → Holds located.line ∧ located.fault.isOfNotation = true

section

variable {α β : Type}

theorem locates_ok (value : α) : Locates Holds (.ok value) := by
  intro located failed
  cases failed

theorem locates_error {located : LocatedFault} (holds : Holds located.line)
    (isOfNotation : located.fault.isOfNotation = true) :
    Locates Holds (.error located : Except LocatedFault α) := by
  rintro _ ⟨⟩
  exact ⟨holds, isOfNotation⟩

theorem locates_bind {result : Except LocatedFault α} {next : α → Except LocatedFault β}
    (first : Locates Holds result) (second : ∀ value, Locates Holds (next value)) :
    Locates Holds (result >>= next) := by
  intro located failed
  rcases Except.bind_eq_error.mp failed with failed | ⟨value, -, failed⟩
  · exact first located failed
  · exact second value located failed

end

section

variable {instructions : List (Numbered Instruction)}
  (hold : ∀ numbered ∈ instructions, Holds numbered.line)

include hold

theorem locates_refuseFirst {isRefused : InstructionKind → Bool}
    {fault : InstructionKind → ReadingFault}
    (areOfNotation : ∀ kind, (fault kind).isOfNotation = true) :
    Locates Holds (refuseFirst isRefused fault instructions) := by
  unfold refuseFirst
  split
  · rename_i numbered isFound
    exact locates_error (hold numbered (List.mem_of_find?_eq_some isFound)) (areOfNotation _)
  · exact locates_ok ()

theorem locates_refuseSegmental : Locates Holds (refuseSegmental instructions) :=
  locates_refuseFirst hold fun _ => rfl

theorem locates_refuseWordLevel : Locates Holds (refuseWordLevel instructions) :=
  locates_refuseFirst hold fun _ => rfl

theorem locates_refuseEndingChange : Locates Holds (refuseEndingChange instructions) :=
  locates_refuseFirst hold fun _ => rfl

end

theorem locates_finishBranch {draft : DraftBranch} (isHeading : Holds draft.line)
    (hold : ∀ numbered ∈ draft.instructions, Holds numbered.line) (segmental : Bool) :
    Locates Holds (finishBranch segmental draft) := by
  have inOrder : ∀ numbered ∈ draft.instructions.reverse, Holds numbered.line := by
    simpa using hold
  unfold finishBranch
  dsimp only
  by_cases isNone : draft.instructions.reverse.isEmpty = true
  · rw [if_pos isNone]
    exact locates_error isHeading rfl
  · rw [if_neg isNone]
    cases segmental with
    | true => exact locates_bind (locates_refuseWordLevel inOrder) fun _ => locates_ok _
    | false =>
        apply locates_bind (locates_refuseSegmental inOrder)
        intro _
        by_cases asks : draft.condition.asksEnding = true
        · simp only [asks]
          exact locates_ok _
        · simp only [asks]
          exact locates_bind (locates_refuseEndingChange inOrder) fun _ => locates_ok _

/-- What is wrong with a draft as a whole is wrong in a line that something in it is from. -/
theorem locates_finish {draft : Draft} (isFrom : draft.IsFrom Holds) :
    Locates Holds (finish draft) := by
  have inOrder : ∀ numbered ∈ draft.opening.reverse, Holds numbered.line := by
    simpa using isFrom.opening
  unfold finish
  apply locates_bind (locates_refuseSegmental inOrder)
  intro _
  dsimp only
  by_cases isNone : draft.branches.reverse.isEmpty = true
  · rw [if_pos isNone]
    exact locates_bind (locates_refuseEndingChange inOrder) fun _ => locates_ok _
  · rw [if_neg isNone]
    apply locates_bind _ fun _ => locates_ok _
    intro located failed
    obtain ⟨branch, isMember, failed⟩ := Except.exists_error_of_mapM failed
    have isBranch := List.mem_reverse.mp isMember
    exact locates_finishBranch (isFrom.headings branch isBranch)
      (isFrom.instructions branch isBranch) _ located failed

/-- What went wrong, if anything did. -/
def fault? {α : Type} : Except LocatedFault α → Option LocatedFault
  | .error located => some located
  | .ok _ => none

theorem fault?_eq_some {α : Type} {result : Except LocatedFault α} {located : LocatedFault} :
    fault? result = some located ↔ result = .error located := by
  cases result <;> simp [fault?]

end Logic

theorem Text.mem_numberedLines {text line : Text} {number : Nat} :
    (number, line) ∈ numberedLines text ↔ 1 ≤ number ∧ (lines text)[number - 1]? = some line := by
  unfold numberedLines
  rw [List.mem_map]
  constructor
  · rintro ⟨⟨found, index⟩, isMember, same⟩
    cases same
    simpa using List.mk_mem_zipIdx_iff_getElem?.mp isMember
  · rintro ⟨isPositive, isLine⟩
    refine ⟨(line, number - 1), List.mk_mem_zipIdx_iff_getElem?.mpr isLine, ?_⟩
    simp
    omega

theorem Text.take_numberedLines {text other : Text} {count : Nat}
    (same : (lines other).take count = (lines text).take count) :
    (numberedLines other).take count = (numberedLines text).take count := by
  have taken (text : Text) : (numberedLines text).take count =
      ((lines text).take count).zipIdx.map fun entry => (entry.2 + 1, entry.1) := by
    unfold numberedLines
    rw [← List.map_take]
    congr 1
    apply List.ext_getElem?
    intro index
    simp only [List.getElem?_take, List.getElem?_zipIdx]
    by_cases isInside : index < count
    · simp [isInside]
    · simp [isInside]
  rw [taken, taken, same]

/-- An error is about a line of a rule: its code is one of those for what is wrong in a rule, its
wording begins with the rule and the line, and its particulars name them. -/
structure Error.IsAbout (error : Error) (rule : Text) (line : Nat) : Prop where
  code : error.code? = some ("rule_parse_failed" : Text) ∨
    error.code? = some ("unresolved_rule" : Text)
  field : error.field? = some ("logic" : Text)
  message : ∃ reason, error.particulars.lookup ("reason" : Text) = some (.text reason) ∧
    error.message = rule ++ ": line ".toList ++ ofNat line ++ ": ".toList ++ reason
  rule : error.particulars.lookup ("rule" : Text) = some (.text rule)
  line : error.particulars.lookup ("line" : Text) = some (.integer line)

theorem Error.located_text {name : Text} (isNamed : name ≠ []) (line : Nat) (reason : Text) :
    located (.text name) (some line) reason =
      name ++ ": line ".toList ++ ofNat line ++ ": ".toList ++ reason := by
  have isSome : (Data.text name).isBlank = false := by simpa [Data.isBlank] using isNamed
  have lead : ": line ".toList = ": ".toList ++ "line ".toList := by decide
  calc located (.text name) (some line) reason
    _ = name ++ ": ".toList ++ ("line ".toList ++ ofNat line ++ ": ".toList ++ reason) := by
      rw [located, isSome]
      rfl
    _ = name ++ ": line ".toList ++ ofNat line ++ ": ".toList ++ reason := by
      rw [lead]
      ac_rfl

namespace Logic

variable {resolver : Resolver}

theorem readFor_eq_error {rule : Data} {text : Text} {error : Error} :
    readFor resolver rule text = .error error ↔
      ∃ located, read resolver text = .error located ∧ errorIn rule located = error := by
  unfold readFor
  cases read resolver text <;> simp [Except.mapError]

theorem errorIn_text (name : Text) (located : LocatedFault) :
    errorIn (.text name) located = .inRule located.fault (.text name) (some located.line) := by
  simp [errorIn, Data.isText]

theorem isAbout_errorIn {name : Text} (isNamed : name ≠ []) {located : LocatedFault}
    (isOfNotation : located.fault.isOfNotation = true) :
    (errorIn (.text name) located).IsAbout name located.line := by
  rw [errorIn_text]
  exact
    { code := Error.code?_inRule isOfNotation _ _
      field := rfl
      message := ⟨located.fault.message, rfl, Error.located_text isNamed _ _⟩
      rule := rfl
      line := rfl }

/-- What goes wrong in a text goes wrong in a line that states something. It is a fault of the
notation, unless that line counts too far. -/
theorem exists_line_of_read {text : Text} {located : LocatedFault}
    (failed : read resolver text = .error located) :
    ∃ line, (located.line, line) ∈ numberedLines text ∧ States line ∧
      (located.fault.isOfNotation = false → CountsTooFar line) := by
  rcases Except.bind_eq_error.mp failed with failed | ⟨draft, isDraft, failed⟩
  · obtain ⟨line, before, isMember, isSome, failed⟩ := Draft.exists_line_of_readLines failed
    refine ⟨line, isMember, Draft.states_of_readLine isSome failed, ?_⟩
    intro notOfNotation
    by_cases counts : CountsTooFar line
    · exact counts
    · have isLine : line ∈ Text.lines text := by
        rw [← Text.numberedLines_snd]
        exact List.mem_map.mpr ⟨_, isMember, rfl⟩
      have isOfNotation := Draft.complains_readLine before located.line
        (Text.whole_of_mem_lines isLine) counts located.fault failed
      simp [isOfNotation] at notOfNotation
  · have isFrom : draft.IsFrom fun number =>
        ∃ line, (number, line) ∈ numberedLines text ∧ States line :=
      Draft.isFrom_of_readLines Draft.isFrom_empty isDraft
        fun entry isMember states => ⟨entry.2, isMember, states⟩
    obtain ⟨⟨line, isMember, states⟩, isOfNotation⟩ := locates_finish isFrom located failed
    refine ⟨line, isMember, states, ?_⟩
    simp [isOfNotation]

/-- What goes wrong while the first lines of a text are read goes wrong in every text that begins
with these lines. -/
theorem read_of_take {text other : Text} {count : Nat} {located : LocatedFault}
    (failed : Draft.readLines resolver {} ((numberedLines text).take count) = .error located)
    (same : (Text.lines other).take count = (Text.lines text).take count) :
    read resolver other = .error located := by
  rw [← Text.take_numberedLines same] at failed
  have failedBehind := Draft.readLines_append failed ((numberedLines other).drop count)
  rw [List.take_append_drop] at failedBehind
  rw [read, failedBehind]
  rfl

/-- A rule that begins with a heading that counts too far is refused by an error that is not
recorded. -/
theorem readFor_of_far (comparison : Comparison) {number : Nat}
    (isFar : 10 ^ Text.digitLimit ≤ number) {text : Text} {lines : List Text}
    (areLines : Text.lines text = (comparison.lead ++ ofNat number ++ [':']) :: lines)
    (rule : Data) :
    ∃ error, readFor resolver rule text = .error error ∧ error.isRecordable = false := by
  obtain ⟨digits, refused⟩ := Condition.read_count_of_far comparison isFar
  have isPhrase := Predicate.isPhrase_syllableCount comparison number
  have isHeading : IsHeading (comparison.lead ++ ofNat number) :=
    { first := by cases comparison <;> exact ⟨'n', rfl, by decide, by decide, by decide⟩
      last := fun _ => isPhrase.last_solid
      oneLine := isPhrase.oneLine }
  have failedThere : Draft.readLines resolver {} ((numberedLines text).take 1) =
      .error ⟨1, .numberTooLong digits⟩ := by
    have isRefused : Draft.readLine resolver {} 1 (comparison.lead ++ ofNat number ++ [':']) =
        .error (.numberTooLong digits) := by
      rw [Draft.readLine_heading isHeading, refused]
      rfl
    rw [numberedLines, areLines, List.zipIdx_cons, List.map_cons, List.take_succ_cons,
      Draft.readLines, isHeading.trim_colon, if_neg (by simp)]
    simp only [Nat.zero_add, isRefused]
  have failed : read resolver text = .error ⟨1, .numberTooLong digits⟩ :=
    read_of_take failedThere rfl
  exact ⟨_, readFor_eq_error.mpr ⟨_, failed, rfl⟩, rfl⟩

/-- What goes wrong while the logic of a rule is read is told as an error about that rule and a
line of it that states something; only a line that counts syllables too far is told of in another
way.  If the lines up to there go wrong in that line by themselves, every text that begins with
them goes wrong in the same way. -/
theorem readFor_locates_faults {name text : Text} {error : Error} (isNamed : name ≠ [])
    (failed : readFor resolver (.text name) text = .error error) :
    ∃ number line, 1 ≤ number ∧ (Text.lines text)[number - 1]? = some line ∧ States line ∧
      (error.IsAbout name number ∨ error.isRecordable = false ∧ CountsTooFar line) ∧
      ∀ located : LocatedFault, located.line = number →
        Draft.readLines resolver {} ((numberedLines text).take number) = .error located →
        ∀ other, (Text.lines other).take number = (Text.lines text).take number →
          readFor resolver (.text name) other = .error error := by
  obtain ⟨located, isFault, rfl⟩ := readFor_eq_error.mp failed
  obtain ⟨line, isMember, states, counts⟩ := exists_line_of_read isFault
  obtain ⟨isPositive, isLine⟩ := Text.mem_numberedLines.mp isMember
  refine ⟨located.line, line, isPositive, isLine, states, ?_, ?_⟩
  · cases isOfNotation : located.fault.isOfNotation with
    | true => exact .inl (isAbout_errorIn isNamed isOfNotation)
    | false =>
        refine .inr ⟨?_, counts isOfNotation⟩
        rw [errorIn_text, Error.isRecordable_inRule, isOfNotation]
  · intro found _ failedThere other same
    have failedHere : read resolver text = .error found := read_of_take failedThere rfl
    have sameFault : located = found := Except.error.inj (isFault.symm.trans failedHere)
    exact readFor_eq_error.mpr ⟨found, read_of_take failedThere same, by rw [sameFault]⟩

/-- A rule that breaks off in a heading, behind an instruction, a blank line and a comment. -/
def brokenOff : Text := "- append 'a'\n\n# stops\nnext sound is vowel and:\n- append 'e'\n"

/-- The error names the fourth line, and however the rule goes on, it stays the same. -/
theorem readFor_locates_faults_brokenOff :
    ∃ error, readFor (fun _ => none) (.text "echo") brokenOff = .error error ∧
      error.IsAbout "echo" 4 ∧
      ∀ other, (Text.lines other).take 4 = (Text.lines brokenOff).take 4 →
        readFor (fun _ => none) (.text "echo") other = .error error := by
  have isFault : read (fun _ => none) brokenOff = .error ⟨4, .conditionExpected none⟩ :=
    fault?_eq_some.mp (by decide +kernel)
  have failedThere : Draft.readLines (fun _ => none) {} ((numberedLines brokenOff).take 4) =
      .error ⟨4, .conditionExpected none⟩ :=
    fault?_eq_some.mp (by decide +kernel)
  have failed : readFor (fun _ => none) (.text "echo") brokenOff =
      .error (errorIn (.text "echo") ⟨4, .conditionExpected none⟩) :=
    readFor_eq_error.mpr ⟨_, isFault, rfl⟩
  have isNamed : ("echo" : Text) ≠ [] := by decide
  obtain ⟨number, line, -, -, -, isAbout, staysWrong⟩ := readFor_locates_faults isNamed failed
  have isAbout : (errorIn (.text "echo") ⟨4, .conditionExpected none⟩).IsAbout "echo" number := by
    rcases isAbout with isAbout | ⟨notRecordable, -⟩
    · exact isAbout
    · cases notRecordable
  have sameLine : some (Data.integer (4 : Nat)) = some (.integer number) := isAbout.line
  have isFourth : number = 4 := by
    simp at sameLine
    omega
  subst isFourth
  exact ⟨_, failed, isAbout, staysWrong _ rfl failedThere⟩

end Logic

end Diachrony
