import Diachrony.Proofs.Application.Frames
import Diachrony.Proofs.Application.Seen
import Diachrony.Proofs.Notation.Completeness
import Diachrony.Proofs.Text.LetterCase

/-!
# Changes of endings

A change of an ending takes off as many characters as the ending has that its branch asked for.
What is asked for is found in lower case, so that what is taken off is what was found only where
lower case changes neither lengths nor, at the end, a sigma.  A change of an ending that no
condition governs changes nothing, and a logic that was read has such changes in front of its
branches only.
-/
namespace Diachrony

open Work Text

namespace Text

variable {base stem taken ending new : Text}

/-- What a text becomes when an ending of it, in whatever letter case, is exchanged. -/
def IsExchange (base ending new text : Text) : Prop :=
  ∃ stem taken, base = stem ++ taken ∧ lower taken = lower ending ∧ text = stem ++ new

theorem isExchange_iff (isBase : base = stem ++ taken) (ending new : Text) :
    IsExchange base ending new (stem ++ new) ↔ lower taken = lower ending := by
  constructor
  · rintro ⟨otherStem, otherTaken, isOther, same, isText⟩
    have sameStem : stem = otherStem := List.append_cancel_right isText
    rw [isBase, sameStem] at isOther
    rwa [List.append_cancel_left isOther]
  · intro same
    exact ⟨stem, taken, isBase, same, rfl⟩

/-- A text and an ending whose lengths lower case does not change, and no capital sigma, whose
lower case is a matter of its surroundings. -/
structure IsPlain (base ending : Text) : Prop where
  noDots : dottedI ∉ base
  noDotsAsked : dottedI ∉ ending
  noSigma : capitalSigma ∉ base

/-- Of a plain text, exactly the ending is taken off. -/
theorem IsPlain.lower_taken (isPlain : IsPlain (stem ++ taken) ending)
    (ends : endsWith (lower ending) (lower (stem ++ taken)) = true)
    (isLong : taken.length = ending.length ∨ (stem ++ taken).length < ending.length) :
    lower taken = lower ending := by
  have notTaken : ∀ {char}, char ∉ stem ++ taken → char ∉ taken :=
    fun notMember isMember => notMember (List.mem_append_right stem isMember)
  have fitsIn : ending.length ≤ (stem ++ taken).length := by
    obtain ⟨front, isFront⟩ := Option.isSome_iff_exists.mp ends
    have lengths := congrArg List.length (before?_eq_some.mp isFront)
    rw [List.length_append, length_lower_of_not_mem isPlain.noDots,
      length_lower_of_not_mem isPlain.noDotsAsked] at lengths
    omega
  have sameLength : taken.length = ending.length := by omega
  rw [lower_eq_iff_of_endsWith ends, length_lower_of_not_mem (notTaken isPlain.noDots),
    length_lower_of_not_mem isPlain.noDotsAsked]
  refine ⟨sameLength, ?_⟩
  rintro ⟨-, lead, rest, isTaken, -⟩
  apply notTaken isPlain.noSigma
  rw [isTaken]
  exact List.mem_append_right lead List.mem_cons_self

end Text

namespace Frame

variable {frame : Frame} {made : Inventories} {form : WordForm} {word : Segmentation}
  {condition : Condition} {pattern : SoundPattern}

def IsFirstEnding (word : Segmentation) (condition : Condition) (pattern : SoundPattern) : Prop :=
  ∃ earlier later,
    condition.predicates.filterMap Predicate.endingPattern? = earlier ++ pattern :: later ∧
      (∀ other ∈ earlier, (Question.endsLike word other).result = .ok false) ∧
      (Question.endsLike word pattern).result = .ok true

/-- A text is taken apart by length, at its beginning if it is shorter than the ending. -/
theorem stemOf_append (text : Text) (endingLength : Nat) :
    ∃ taken, text = stemOf text endingLength ++ taken ∧
      (taken.length = endingLength ∨ text.length < endingLength) := by
  unfold stemOf
  by_cases isLong : endingLength ≤ text.length
  · rw [if_pos isLong]
    refine ⟨_, (List.take_append_drop _ text).symm, .inl ?_⟩
    rw [List.length_drop]
    omega
  · rw [if_neg isLong]
    exact ⟨_, (List.take_append_drop _ text).symm, .inr (by omega)⟩

theorem result_firstStem? (isSettled : word.IsSettled)
    (isFirst : IsFirstEnding word condition pattern) :
    (firstStem? word (condition.predicates.filterMap Predicate.endingPattern?)).result =
      .ok (some (stemBefore word pattern)) := by
  obtain ⟨earlier, later, isSplit, areLacked, isFound⟩ := isFirst
  have ends (asked : SoundPattern) := Question.agree_endsLike isSettled asked
  have branches (asked : SoundPattern) (others : List SoundPattern) (held : Bool) :
      (if held then return some (stemBefore word asked) else firstStem? word others :
        Session (Option Text)).IsSettled :=
    agree_ite (fun _ => agree_pure rfl) fun _ => agree_firstStem? isSettled others
  rw [isSplit]
  clear isSplit
  induction earlier with
  | nil =>
      rw [List.nil_append, firstStem?,
        IsSettled.result_bind (ends pattern) (branches pattern later), isFound]
      rfl
  | cons other earlier inductionHypothesis =>
      obtain ⟨isLacked, areLacked⟩ := List.forall_mem_cons.mp areLacked
      rw [List.cons_append, firstStem?,
        IsSettled.result_bind (ends other) (branches other _), isLacked]
      exact inductionHypothesis areLacked

/-- What a change of an ending makes of a form whose stem has been looked for. -/
def withEnding (form : WordForm) (ending : Option Text) : Option Text → Session WordForm
  | some stem => return form.withText (stem ++ (← needed "ending" ending))
  | none => return form

theorem isSettled_withEnding (form : WordForm) (ending stem? : Option Text) :
    (withEnding form ending stem?).IsSettled := by
  cases stem? with
  | none => exact agree_pure rfl
  | some stem => exact agree_lookup fun _ _ => agree_pure rfl

theorem changeEnding_eq (frame : Frame) (branch : Branch) (ending : Option Text)
    (form : WordForm) :
    frame.changeEnding (some branch) ending form =
      frame.segmentation form >>= fun word =>
        firstStem? word (branch.condition.predicates.filterMap Predicate.endingPattern?) >>=
          withEnding form ending := by
  unfold changeEnding
  refine bind_congr fun word => bind_congr fun stem? => ?_
  cases stem? <;> rfl

/-- A branch with an ending that the word has exchanges what stands behind the stem. -/
theorem on_changeEnding {branch : Branch}
    (isFirst : IsFirstEnding (frame.wordSeen made form) branch.condition pattern) (new : Text) :
    ((frame.changeEnding (some branch) (some new) form).on made).1 =
      .ok (form.withText (stemBefore (frame.wordSeen made form) pattern ++ new)) := by
  have isSettled := isSettled_wordSeen frame made form
  have found := agree_firstStem? isSettled
    (branch.condition.predicates.filterMap Predicate.endingPattern?)
  have finishes := isSettled_withEnding form (some new)
  rw [changeEnding_eq, on_segmentation (agree_bind_eq found finishes),
    IsSettled.result_bind found finishes, result_firstStem? isSettled isFirst]
  rfl

theorem endsLike_literal {ending : Text} (isLiteral : pattern.literal = some ending) :
    (Question.endsLike word pattern).result =
      .ok (endsWith (lower ending) (lower word.text)) := by
  unfold Question.endsLike
  rw [isLiteral]
  rfl

/-- A change of an ending, where the first ending asked for that the word has is literal, gives
the stem with the new ending, and it takes off as many characters as the literal has.  What it
takes off is the ending that was asked for, if and only if the two are of one length in lower case
and no sigma in it is final only because of what stands before it; so it is in plain texts. -/
theorem changeEnding_exchanges_iff (frame : Frame) (made : Inventories) (form : WordForm)
    {instruction : Instruction} {branch : Branch} {pattern : SoundPattern} {ending new : Text}
    (isChange : instruction.kind = .changeEnding) (isGiven : instruction.argument = some new)
    (isFirst : IsFirstEnding (frame.wordSeen made form) branch.condition pattern)
    (isLiteral : pattern.literal = some ending) :
    ∃ stem taken, bareText frame.marker form.text = stem ++ taken ∧
      (taken.length = ending.length ∨
        (bareText frame.marker form.text).length < ending.length) ∧
      ((frame.carryOut (some branch) form instruction).on made).1 =
        .ok (form.withText (stem ++ new)) ∧
      (IsExchange (bareText frame.marker form.text) ending new (stem ++ new) ↔
        (lower taken).length = (lower ending).length ∧ ¬FinalBehind stem.reverse taken) ∧
      (IsPlain (bareText frame.marker form.text) ending →
        IsExchange (bareText frame.marker form.text) ending new (stem ++ new)) := by
  obtain ⟨taken, isBase, isLong⟩ :=
    stemOf_append (bareText frame.marker form.text) ending.length
  have ends : endsWith (lower ending) (lower (bareText frame.marker form.text)) = true := by
    obtain ⟨-, -, -, -, isFound⟩ := isFirst
    rw [endsLike_literal isLiteral] at isFound
    exact Except.ok.inj isFound
  have isCarriedOut : frame.carryOut (some branch) form instruction =
      frame.changeEnding (some branch) (some new) form := by
    unfold carryOut
    rw [isChange, isGiven]
  refine ⟨_, taken, isBase, isLong, ?_, ?_, fun isPlain => ?_⟩
  · rw [isCarriedOut, on_changeEnding isFirst, stemBefore, isLiteral]
    rfl
  · rw [isExchange_iff isBase]
    rw [isBase] at ends
    exact lower_eq_iff_of_endsWith ends
  · rw [isExchange_iff isBase]
    rw [isBase] at ends isLong isPlain
    exact isPlain.lower_taken ends isLong

/-- A change to "x" of the ending "i̇", an i with a dot of its own. -/
def undot : Instruction := { kind := .changeEnding, argument := some "x" }

def undotting : Branch :=
  { condition := .holds
      { test := .wordEdge .ending, pattern := some { literal := some "i\u0307" } }
    instructions := [undot] }

/-- The surroundings of a rule from a language without sounds of its own. -/
def unsoundedFrame : Frame :=
  Graph.outerFrame {} Graph.usualMarker { name := "A", shortName := "a" }
    (.ofLanguage { name := "A", shortName := "a" })

/-- Two characters are taken off "aİ", where one of them is what the ending matched. -/
theorem changeEnding_exchanges_iff_dotted :
    ((unsoundedFrame.carryOut (some undotting) { text := "a\u0130", language := "a" } undot).on
        {}).1 = .ok { text := "x", language := "a" } ∧
      ¬IsExchange "a\u0130" "i\u0307" "x" "x" := by
  have isFirst : IsFirstEnding
      (unsoundedFrame.wordSeen {} { text := "a\u0130", language := "a" }) undotting.condition
        { literal := some "i\u0307" } := by
    refine ⟨[], [], rfl, List.forall_mem_nil _, ?_⟩
    rw [endsLike_literal rfl]
    exact congrArg Except.ok (by decide +kernel)
  have isChange : undot.kind = .changeEnding := rfl
  obtain ⟨stem, taken, isBase, isLong, gave, isExchange, -⟩ :=
    changeEnding_exchanges_iff unsoundedFrame {} { text := "a\u0130", language := "a" } isChange
      rfl isFirst rfl
  have noMark : bareText unsoundedFrame.marker "a\u0130" = ("a\u0130" : Text) := by decide
  rw [noMark] at isBase isLong isExchange
  have isAll : taken.length = 2 := isLong.resolve_right (by decide)
  have noStem : stem = [] := by
    have lengths : 2 = stem.length + taken.length := by
      rw [← List.length_append, ← isBase]
      rfl
    exact List.eq_nil_of_length_eq_zero (by omega)
  rw [noStem, List.nil_append] at isBase gave isExchange
  refine ⟨gave, fun exchanged => ?_⟩
  have sameLength := (isExchange.mp exchanged).1
  rw [← isBase] at sameLength
  revert sameLength
  decide +kernel

end Frame

/-- The condition of a branch that changes an ending asks, without denying it, for one. -/
def Branch.AsksForEndings (branch : Branch) : Prop :=
  ∀ instruction ∈ branch.instructions, instruction.kind = .changeEnding →
    ∃ predicate ∈ branch.condition.predicates,
      predicate.test = .wordEdge .ending ∧ predicate.negated = false

namespace Logic

variable {logic : Logic}

/-- Every change of an ending is in a branch whose condition asks for one. -/
def AsksForEndings (logic : Logic) : Prop :=
  (∀ instruction ∈ logic.openingInstructions, instruction.kind ≠ .changeEnding) ∧
    ∀ branch ∈ logic.branches, branch.AsksForEndings

def withoutIdleEndings : Logic → Logic
  | branching opening branches =>
    branching (opening.filter fun instruction => instruction.kind ≠ .changeEnding) branches
  | sequential instructions => sequential instructions

theorem branches_withoutIdleEndings (logic : Logic) :
    logic.withoutIdleEndings.branches = logic.branches := by
  cases logic <;> rfl

theorem predicates_withoutIdleEndings (logic : Logic) :
    logic.withoutIdleEndings.predicates = logic.predicates := by
  unfold predicates
  rw [branches_withoutIdleEndings]

theorem lacks_eq_true {isRefused : InstructionKind → Bool} {instructions : List Instruction} :
    lacks isRefused instructions = true ↔
      ∀ instruction ∈ instructions, isRefused instruction.kind = false := by
  simp [lacks]

/-- Branches ask for the endings that they change: those of a sound rule change none. -/
theorem asksForEndings_of_branchFits {segmental : Bool} {branch : Branch}
    (fits : branchFits segmental branch = true) : branch.AsksForEndings := by
  intro instruction isMember isChange
  obtain ⟨-, fits⟩ := Bool.and_eq_true_iff.mp fits
  cases segmental with
  | true =>
      have notAboutWords := lacks_eq_true.mp fits instruction isMember
      rw [isChange] at notAboutWords
      cases notAboutWords
  | false =>
      obtain ⟨-, fits⟩ := Bool.and_eq_true_iff.mp fits
      rcases Bool.or_eq_true_iff.mp fits with asks | noneChanges
      · obtain ⟨predicate, isPredicate, isEnding⟩ := List.any_eq_true.mp asks
        unfold Predicate.endingPattern? at isEnding
        split at isEnding
        · rename_i isAffirmed
          exact ⟨predicate, isPredicate, by simpa using isAffirmed⟩
        · cases isEnding
      · have notChange := lacks_eq_true.mp noneChanges instruction isMember
        rw [isChange] at notChange
        cases notChange

theorem branches_askForEndings (fits : logic.fits = true) :
    ∀ branch ∈ logic.branches, branch.AsksForEndings := by
  obtain ⟨-, fits⟩ := Bool.and_eq_true_iff.mp fits
  cases logic with
  | sequential instructions => exact List.forall_mem_nil _
  | branching opening branches =>
      intro branch isBranch
      obtain ⟨-, fits⟩ := Bool.and_eq_true_iff.mp fits
      exact asksForEndings_of_branchFits (List.all_eq_true.mp fits branch isBranch)

/-- The changes of endings that no condition asks for are those in front of the branches. -/
theorem withoutIdleEndings_asksForEndings (fits : logic.fits = true) :
    logic.withoutIdleEndings.AsksForEndings := by
  have branchesAsk := branches_askForEndings fits
  cases logic with
  | branching opening branches =>
      refine ⟨fun instruction isMember => ?_, branchesAsk⟩
      simpa using (List.mem_filter.mp isMember).2
  | sequential instructions =>
      refine ⟨fun instruction isMember => ?_, branchesAsk⟩
      have notChange :=
        lacks_eq_true.mp (Bool.and_eq_true_iff.mp fits).2 instruction isMember
      simpa using notChange

theorem withoutIdleEndings_eq_self (asks : logic.AsksForEndings) :
    logic.withoutIdleEndings = logic := by
  cases logic with
  | branching opening branches =>
      have noneIdle : (opening.filter fun instruction => instruction.kind ≠ .changeEnding) =
          opening := by
        rw [List.filter_eq_self]
        exact fun instruction isMember => decide_eq_true (asks.1 instruction isMember)
      exact congrArg (branching · branches) noneIdle
  | sequential instructions => rfl

end Logic

namespace Frame

/-- In front of all branches, a change of an ending leaves a form as it is. -/
theorem carryOut_idleEnding (frame : Frame) (form : WordForm) {instruction : Instruction}
    (isChange : instruction.kind = .changeEnding) :
    frame.carryOut none form instruction = pure form := by
  unfold carryOut
  rw [isChange]
  rfl

theorem carryOutAll_withoutIdleEndings (frame : Frame) (form : WordForm)
    (opening : List Instruction) :
    frame.carryOutAll none form
        (opening.filter fun instruction => instruction.kind ≠ .changeEnding) =
      frame.carryOutAll none form opening := by
  unfold carryOutAll
  induction opening generalizing form with
  | nil => rfl
  | cons instruction opening inductionHypothesis =>
      by_cases isChange : instruction.kind = .changeEnding
      · rw [List.filter_cons_of_neg (by simpa using isChange), inductionHypothesis,
          List.foldlM_cons, carryOut_idleEnding frame form isChange, pure_bind]
      · rw [List.filter_cons_of_pos (by simpa using isChange), List.foldlM_cons, List.foldlM_cons]
        exact bind_congr fun changed => inductionHypothesis changed

theorem runLogic_withoutIdleEndings (frame : Frame) (logic : Logic) (form : WordForm) :
    frame.runLogic logic.withoutIdleEndings form = frame.runLogic logic form := by
  cases logic with
  | sequential instructions => rfl
  | branching opening branches =>
      unfold Logic.withoutIdleEndings runLogic
      dsimp only
      rw [carryOutAll_withoutIdleEndings]
      rfl

/-- A change of an ending names nothing that would have to be looked up. -/
theorem checkInstruction_endingChange (frame : Frame) {instruction : Instruction}
    (isRead : instruction.IsRead) (isChange : instruction.kind = .changeEnding) :
    frame.checkInstruction instruction = .ok () := by
  cases isRead with
  | changeEnding => rfl
  | _ => cases isChange

theorem checkInstructions_withoutIdleEndings (frame : Frame) {opening : List Instruction}
    (areRead : ∀ instruction ∈ opening, instruction.IsRead) (others : List Instruction) :
    ((opening.filter fun instruction => instruction.kind ≠ .changeEnding) ++ others).forM
        frame.checkInstruction =
      (opening ++ others).forM frame.checkInstruction := by
  rw [List.forM_eq_forM]
  induction opening with
  | nil => rfl
  | cons instruction opening inductionHypothesis =>
      obtain ⟨isRead, areRead⟩ := List.forall_mem_cons.mp areRead
      rw [List.cons_append, List.forM_cons, ← inductionHypothesis areRead]
      by_cases isChange : instruction.kind = .changeEnding
      · rw [List.filter_cons_of_neg (by simpa using isChange),
          checkInstruction_endingChange frame isRead isChange]
        rfl
      · rw [List.filter_cons_of_pos (by simpa using isChange), List.cons_append, List.forM_cons]

/-- The same names are looked up. -/
theorem checkReferences_withoutIdleEndings (frame : Frame) {rule : Rule}
    (areRead : ∀ instruction ∈ rule.logic.instructions, instruction.IsRead) :
    frame.checkReferences { rule with logic := rule.logic.withoutIdleEndings } =
      frame.checkReferences rule := by
  have sameChecks : rule.logic.withoutIdleEndings.instructions.forM frame.checkInstruction =
      rule.logic.instructions.forM frame.checkInstruction := by
    revert areRead
    cases rule.logic with
    | sequential instructions => exact fun _ => rfl
    | branching opening branches =>
        intro areRead
        have openingRead := (List.forall_mem_append.mp areRead).1
        exact checkInstructions_withoutIdleEndings frame openingRead _
  unfold checkReferences
  rw [Logic.predicates_withoutIdleEndings, sameChecks]
  rfl

theorem run_withoutIdleEndings (frame : Frame) {rule : Rule}
    (areRead : ∀ instruction ∈ rule.logic.instructions, instruction.IsRead) (extent : Extent)
    (form : WordForm) :
    frame.run { rule with logic := rule.logic.withoutIdleEndings } extent form =
      frame.run rule extent form := by
  unfold run runWhole
  rw [checkReferences_withoutIdleEndings frame areRead, runLogic_withoutIdleEndings,
    Logic.branches_withoutIdleEndings]
  rfl

end Frame

/-- A rule does the same without the changes of endings in front of its branches. -/
theorem Graph.applyWithin_withoutIdleEndings (graph : Graph) (marker : Text)
    (active : List RuleRef) (pending : List Text) {rule : Rule}
    (areRead : ∀ instruction ∈ rule.logic.instructions, instruction.IsRead) (extent : Extent)
    (form : WordForm) :
    graph.applyWithin marker active pending
        { rule with logic := rule.logic.withoutIdleEndings } extent form =
      graph.applyWithin marker active pending rule extent form := by
  unfold applyWithin
  refine bind_congr fun language => bind_congr fun inventory => ?_
  exact Frame.run_withoutIdleEndings _ areRead extent form

/-- In a logic that was read, every branch asks for the endings that it changes.  Where a change
of an ending is in front of the branches, it is idle: left out, it leaves a logic that asks for
all its endings, and in whatever graph, a rule does on every form the same without it. -/
theorem Logic.asksForEndings_of_read {resolver : Resolver} {name : Data} {text : Text}
    {logic : Logic} (gave : readFor resolver name text = .ok logic) :
    (∀ branch ∈ logic.branches, branch.AsksForEndings) ∧
      (logic.AsksForEndings ↔ logic.withoutIdleEndings = logic) ∧
      logic.withoutIdleEndings.AsksForEndings ∧
      ∀ (graph : Graph) (marker : Text) (active : List RuleRef) (pending : List Text)
        (rule : Rule) (extent : Extent) (form : WordForm), rule.logic = logic →
          graph.applyWithin marker active pending
              { rule with logic := logic.withoutIdleEndings } extent form =
            graph.applyWithin marker active pending rule extent form := by
  have isComplete := isComplete_of_read (readFor_eq_ok.mp gave)
  have asks := withoutIdleEndings_asksForEndings isComplete.fits
  refine ⟨branches_askForEndings isComplete.fits,
    ⟨withoutIdleEndings_eq_self, fun same => same ▸ asks⟩, asks, ?_⟩
  rintro graph marker active pending rule extent form rfl
  exact graph.applyWithin_withoutIdleEndings marker active pending isComplete.instructions
    extent form

/-- A change of an ending in front of the branches is read, and it is idle. -/
theorem Logic.asksForEndings_of_read_opening :
    ∃ logic, readFor (RuleNames.resolver []) .null
        "- change ending to \x27x\x27\nword is noun:\n- append \x27a\x27" = .ok logic ∧
      ¬logic.AsksForEndings ∧ logic.withoutIdleEndings.AsksForEndings := by
  have found : ((readFor (RuleNames.resolver []) .null
      "- change ending to \x27x\x27\nword is noun:\n- append \x27a\x27").toOption.map
        fun logic => logic.openingInstructions.map Instruction.kind) = some [.changeEnding] := by
    decide +kernel
  obtain ⟨logic, gave, isOpening⟩ := Except.exists_of_toOption_map found
  obtain ⟨-, -, asks, -⟩ := asksForEndings_of_read gave
  refine ⟨logic, gave, fun areAsked => ?_, asks⟩
  obtain ⟨instruction, isMember, isChange⟩ :=
    List.mem_map.mp (isOpening ▸ List.mem_singleton_self InstructionKind.changeEnding)
  exact areAsked.1 instruction isMember isChange

end Diachrony
