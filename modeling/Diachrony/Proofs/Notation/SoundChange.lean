import Diachrony.SoundChange
import Diachrony.Proofs.Except
import Diachrony.Proofs.Text.Blank

/-!
# Sound changes

Slots are printed as they are written but for the blanks, so a row of slots that was
read is read as it is printed.  A sound change is read as it is printed unless there is
an arrow among the literal sounds or in a feature in front of its arrow: blanks can keep
the two characters of an arrow apart, and the printed form leaves the blanks out.
-/
namespace Diachrony

open Text (after? cut? cut?_append cut?_eq_some splitAt joinWith joinWith_splitAt words isBlank
  occursIn Tight)

namespace Slot

/-- Whether a character is read as a literal sound. -/
def isSound (char : Char) : Bool :=
  !("[#CV]_/".toList.contains char || char == Text.quoteMark)

/-- What a slot is written as that is no run of literal sounds. -/
inductive IsMark : Text → Slot → Prop
  | edge : IsMark ['#'] edge
  | consonant : IsMark ['C'] (featured [consonantClass])
  | vowel : IsMark ['V'] (featured [vowelClass])
  | features {content : Text} {slot : Slot} : ']' ∉ content → readFeatures content = .ok slot →
      IsMark ('[' :: (content ++ [']'])) slot

/-- What a row of slots is written as: any number of marks, with runs of literal sounds
between them. -/
inductive IsWritten : Text → List Slot → Prop
  | run {run : Text} : (∀ char ∈ run, isSound char = true) → IsWritten run (closeRun run [])
  | mark {run mark text : Text} {slot : Slot} {slots : List Slot} :
      (∀ char ∈ run, isSound char = true) → IsMark mark slot → IsWritten text slots →
      IsWritten (run ++ (mark ++ text)) (closeRun run (slot :: slots))

theorem isSound_of_plain {char : Char} (notOpen : char ≠ '[') (notEdge : char ≠ '#')
    (noClass : shorthand? char = none)
    (notReserved : ¬(char = ']' ∨ char = '_' ∨ char = '/' ∨ char = Text.quoteMark)) :
    isSound char = true := by
  have notConsonant : char ≠ 'C' := by
    rintro rfl
    cases noClass
  have notVowel : char ≠ 'V' := by
    rintro rfl
    cases noClass
  simp only [not_or] at notReserved
  simp [isSound, notOpen, notEdge, notConsonant, notVowel, notReserved]

theorem isMark_shorthand {char : Char} {slot : Slot} (isClass : shorthand? char = some slot) :
    IsMark [char] slot := by
  unfold shorthand? at isClass
  split at isClass
  · rename_i isConsonant
    cases isClass
    exact isConsonant ▸ .consonant
  · split at isClass
    · rename_i isVowel
      cases isClass
      exact isVowel ▸ .vowel
    · cases isClass

/-- What slots are read of is what they are written as. -/
theorem isWritten_of_readBehind {opened : Option Text} {run text : Text} {slots : List Slot}
    (gave : readBehind opened run text = .ok slots)
    (areSounds : ∀ char ∈ run, isSound char = true)
    (noBracket : ∀ content, opened = some content → ']' ∉ content) :
    IsWritten (run ++ ((opened.map ('[' :: ·)).getD [] ++ text)) slots := by
  induction text generalizing opened run slots with
  | nil =>
      cases opened with
      | some content => cases gave
      | none =>
          cases gave
          rw [Option.map_none, Option.getD_none, List.append_nil, List.append_nil]
          exact .run areSounds
  | cons char text inductionHypothesis =>
      cases opened with
      | some content =>
          have noBracket := noBracket content rfl
          rw [Option.map_some, Option.getD_some]
          rw [readBehind] at gave
          split at gave
          · rename_i isClose
            obtain ⟨slot, isSlot, gave⟩ := Except.bind_eq_ok.mp gave
            obtain ⟨others, areOthers, gave⟩ := Except.bind_eq_ok.mp gave
            cases gave
            have isRest := inductionHypothesis areOthers (fun _ isMember => nomatch isMember)
              (fun _ isNone => nomatch isNone)
            rw [isClose, List.append_cons, List.cons_append]
            exact .mark areSounds (.features noBracket isSlot) isRest
          · rename_i notClose
            have isRest := inductionHypothesis gave areSounds (by
              rintro _ ⟨rfl⟩
              simp [noBracket, Ne.symm notClose])
            rw [Option.map_some, Option.getD_some] at isRest
            rw [List.append_cons, List.cons_append]
            exact isRest
      | none =>
          rw [Option.map_none, Option.getD_none, List.nil_append]
          have marked : ∀ {slot : Slot}, IsMark [char] slot →
              (do return closeRun run (slot :: (← readBehind none [] text))) = .ok slots →
              IsWritten (run ++ char :: text) slots := by
            intro slot isMark gave
            obtain ⟨others, areOthers, gave⟩ := Except.bind_eq_ok.mp gave
            cases gave
            have isRest := inductionHypothesis areOthers (fun _ isMember => nomatch isMember)
              (fun _ isNone => nomatch isNone)
            exact .mark areSounds isMark isRest
          rw [readBehind] at gave
          split at gave
          · rename_i isOpen
            subst isOpen
            exact inductionHypothesis gave areSounds fun _ isOpened => by
              cases isOpened
              exact List.not_mem_nil
          · rename_i notOpen
            split at gave
            · rename_i isEdge
              subst isEdge
              exact marked .edge gave
            · rename_i notEdge
              split at gave
              · rename_i slot isClass
                exact marked (isMark_shorthand isClass) gave
              · rename_i noClass
                split at gave
                · cases gave
                · rename_i notReserved
                  have isHere := isSound_of_plain notOpen notEdge noClass (by
                    simpa [or_assoc] using notReserved)
                  have isRest := inductionHypothesis gave (by
                    intro other isMember
                    rcases List.mem_append.mp isMember with isMember | isMember
                    · exact areSounds other isMember
                    · cases List.mem_singleton.mp isMember
                      exact isHere) (fun _ isNone => nomatch isNone)
                  rw [List.append_cons]
                  exact isRest

theorem readBehind_sounds {run : Text} (areSounds : ∀ char ∈ run, isSound char = true)
    (before text : Text) :
    readBehind none before (run ++ text) = readBehind none (before ++ run) text := by
  induction run generalizing before with
  | nil => rw [List.nil_append, List.append_nil]
  | cons char run inductionHypothesis =>
      have isHere := areSounds char List.mem_cons_self
      have notMark : char ≠ '[' ∧ char ≠ '#' ∧ char ≠ 'C' ∧ char ≠ 'V' ∧ char ≠ ']' ∧
          char ≠ '_' ∧ char ≠ '/' ∧ char ≠ Text.quoteMark := by
        refine ⟨?_, ?_, ?_, ?_, ?_, ?_, ?_, ?_⟩
        all_goals
          rintro rfl
          cases isHere
      obtain ⟨notOpen, notEdge, notConsonant, notVowel, notClose, notFocus, notSlash, notQuote⟩ :=
        notMark
      have noClass : shorthand? char = none := by
        rw [shorthand?, if_neg notConsonant, if_neg notVowel]
      rw [List.cons_append, readBehind, if_neg notOpen, if_neg notEdge, noClass]
      dsimp only
      rw [if_neg (by simp [notClose, notFocus, notSlash, notQuote]),
        inductionHypothesis fun other isMember => areSounds other (List.mem_cons_of_mem _ isMember),
        List.append_assoc, List.singleton_append]

theorem readBehind_features {content : Text} (noBracket : ']' ∉ content) (before run text : Text) :
    readBehind (some before) run (content ++ ']' :: text) = do
      let slot ← readFeatures (before ++ content)
      return closeRun run (slot :: (← readBehind none [] text)) := by
  induction content generalizing before with
  | nil => rw [List.nil_append, List.append_nil, readBehind, if_pos rfl]
  | cons char content inductionHypothesis =>
      rw [List.mem_cons, not_or] at noBracket
      rw [List.cons_append, readBehind, if_neg (Ne.symm noBracket.1),
        inductionHypothesis noBracket.2, List.append_assoc, List.singleton_append]

theorem readBehind_mark {mark : Text} {slot : Slot} (isMark : IsMark mark slot)
    (run text : Text) :
    readBehind none run (mark ++ text) =
      (readBehind none [] text).map fun slots => closeRun run (slot :: slots) := by
  cases isMark with
  | features noBracket isSlot =>
      rw [List.cons_append, List.append_assoc, List.singleton_append, readBehind, if_pos rfl,
        readBehind_features noBracket, List.nil_append, isSlot]
      cases readBehind none [] text <;> rfl
  | _ =>
      rw [List.cons_append, List.nil_append, readBehind]
      cases readBehind none [] text <;> rfl

/-- What slots are written as is read as those slots. -/
theorem readBehind_of_isWritten {text : Text} {slots : List Slot} (isWritten : IsWritten text slots) :
    readBehind none [] text = .ok slots := by
  induction isWritten with
  | @run run areSounds =>
      have whole := readBehind_sounds areSounds [] []
      rw [List.append_nil, List.nil_append] at whole
      rw [whole]
      rfl
  | mark areSounds isMark isRest inductionHypothesis =>
      rw [readBehind_sounds areSounds, List.nil_append, readBehind_mark isMark,
        inductionHypothesis]
      rfl

theorem printAll_closeRun (run : Text) (slots : List Slot) :
    printAll (closeRun run slots) = run ++ printAll slots := by
  unfold closeRun printAll
  cases run with
  | nil => rfl
  | cons char run => rfl

theorem printAll_cons (slot : Slot) (slots : List Slot) :
    printAll (slot :: slots) = slot.print ++ printAll slots := rfl

/-- The printed form of a mark is another mark for the same slot. -/
theorem isMark_print {mark : Text} {slot : Slot} (isMark : IsMark mark slot) :
    IsMark slot.print slot ∧ slot.print.length ≤ mark.length ∧
      ∀ char ∈ slot.print, char ∈ mark ∨ char = 'C' ∨ char = 'V' := by
  cases isMark with
  | edge => exact ⟨.edge, Nat.le_refl _, fun _ => .inl⟩
  | consonant => exact ⟨.consonant, Nat.le_refl _, fun _ => .inl⟩
  | vowel => exact ⟨.vowel, Nat.le_refl _, fun _ => .inl⟩
  | @features content slot noBracket isSlot =>
      unfold readFeatures at isSlot
      dsimp only at isSlot
      split at isSlot
      · cases isSlot
      · rename_i areSome
        cases isSlot
        have isJoined : joinWith ",".toList (splitAt ',' content) = content :=
          joinWith_splitAt ',' content
        have isFeatured : readFeatures content = .ok (featured (splitAt ',' content)) := by
          rw [readFeatures, if_neg areSome]
        have isPrinted : (featured (splitAt ',' content)).print =
            printFeatures (splitAt ',' content) := rfl
        rw [isPrinted, printFeatures]
        split
        · rename_i isConsonant
          rw [isConsonant]
          refine ⟨.consonant, by simp, fun char isMember => .inr (.inl ?_)⟩
          exact List.mem_singleton.mp isMember
        · split
          · rename_i isVowel
            rw [isVowel]
            refine ⟨.vowel, by simp, fun char isMember => .inr (.inr ?_)⟩
            exact List.mem_singleton.mp isMember
          · rw [isJoined]
            exact ⟨.features noBracket isFeatured, Nat.le_refl _, fun _ => .inl⟩

/-- Slots are written as they are printed. -/
theorem isWritten_printAll {text : Text} {slots : List Slot} (isWritten : IsWritten text slots) :
    IsWritten (printAll slots) slots ∧ (printAll slots).length ≤ text.length ∧
      ∀ char ∈ printAll slots, char ∈ text ∨ char = 'C' ∨ char = 'V' := by
  induction isWritten with
  | @run run areSounds =>
      rw [printAll_closeRun, show printAll [] = [] from rfl, List.append_nil]
      exact ⟨.run areSounds, Nat.le_refl _, fun _ => .inl⟩
  | @mark run mark text slot slots areSounds isMark isRest inductionHypothesis =>
      obtain ⟨isPrinted, slotLength, slotChars⟩ := isMark_print isMark
      obtain ⟨restPrinted, restLength, restChars⟩ := inductionHypothesis
      rw [printAll_closeRun, printAll_cons]
      refine ⟨.mark areSounds isPrinted restPrinted, ?_, fun char isMember => ?_⟩
      · simp only [List.length_append]
        omega
      · simp only [List.mem_append] at isMember ⊢
        rcases isMember with isMember | isMember | isMember
        · exact .inl (.inl isMember)
        · exact (slotChars char isMember).imp (fun inMark => .inr (.inl inMark)) id
        · exact (restChars char isMember).imp (fun inRest => .inr (.inr inRest)) id

/-- Only a zero is printed as a zero. -/
theorem eq_zero_of_print {text : Text} {slots : List Slot} (isWritten : IsWritten text slots)
    (isZero : printAll slots = "0") : text = "0" := by
  cases isWritten with
  | run areSounds =>
      rw [printAll_closeRun, show printAll [] = [] from rfl, List.append_nil] at isZero
      exact isZero
  | @mark run mark text slot slots areSounds isMark isRest =>
      obtain ⟨isPrinted, -, -⟩ := isMark_print isMark
      rw [printAll_closeRun, printAll_cons] at isZero
      have noMark : ∀ {mark : Text} {slot : Slot}, IsMark mark slot →
          ∃ char ∈ mark, char ≠ '0' := by
        intro mark slot isMark
        cases isMark <;> exact ⟨_, List.mem_cons_self, by decide⟩
      obtain ⟨char, isMember, notZero⟩ := noMark isPrinted
      have inZero : char ∈ "0".toList := by
        rw [← isZero]
        exact List.mem_append_right _ (List.mem_append_left _ isMember)
      exact absurd (List.mem_singleton.mp inZero) notZero

theorem flatten_words (text : Text) : (words text).flatten = text.filter (!isBlank ·) := by
  have dropNone : ∀ pieces : List Text,
      (pieces.filter fun piece => !piece.isEmpty).flatten = pieces.flatten := by
    intro pieces
    induction pieces with
    | nil => rfl
    | cons piece pieces inductionHypothesis => cases piece <;> simp [inductionHypothesis]
  unfold words
  rw [dropNone]
  induction text with
  | nil => rfl
  | cons char text inductionHypothesis =>
      rw [Text.pieces, List.filter_cons]
      split
      · rename_i blank
        simp [blank, inductionHypothesis]
      · rename_i solid
        cases arePieces : Text.pieces isBlank text with
        | nil => exact absurd arePieces (Text.pieces_ne_nil _ _)
        | cons piece rest =>
            rw [arePieces] at inductionHypothesis
            simpa [solid] using inductionHypothesis

/-- A row of slots as it is read of a side of the arrow or of a context. -/
inductive IsSide : List Slot → Prop
  | zero : IsSide []
  | row {text : Text} {slots : List Slot} : text ≠ "0" → (∀ char ∈ text, isBlank char = false) →
      IsWritten text slots → IsSide slots

theorem isSide_of_readAll {text : Text} {slots : List Slot} (gave : readAll text = .ok slots) :
    IsSide slots ∧ (printAll slots).length ≤ text.length ∧
      ∀ char ∈ printAll slots, char ∈ text ∨ char = 'C' ∨ char = 'V' := by
  unfold readAll at gave
  rw [flatten_words] at gave
  dsimp only at gave
  split at gave
  · cases gave
    exact ⟨.zero, Nat.zero_le _, fun _ isMember => nomatch isMember⟩
  · rename_i notZero
    have isWritten := isWritten_of_readBehind gave (fun _ isMember => nomatch isMember)
      (fun _ isNone => nomatch isNone)
    obtain ⟨-, isLength, areChars⟩ := isWritten_printAll isWritten
    refine ⟨.row notZero (fun char isMember => ?_) isWritten, ?_, fun char isMember => ?_⟩
    · simpa using (List.mem_filter.mp isMember).2
    · exact isLength.trans (List.length_filter_le _ _)
    · exact (areChars char isMember).imp List.mem_of_mem_filter id

theorem isSide_of_readContext {text : Text} {slots : List Slot}
    (gave : SoundChange.readContext text = .ok slots) :
    IsSide slots ∧ ∀ char ∈ printAll slots, char ∈ text ∨ char = 'C' ∨ char = 'V' := by
  unfold SoundChange.readContext at gave
  split at gave
  · cases gave
    exact ⟨.zero, fun _ isMember => nomatch isMember⟩
  · obtain ⟨isSide, -, areChars⟩ := isSide_of_readAll gave
    exact ⟨isSide, areChars⟩

section

variable {slots : List Slot}

theorem solid_printAll (isSide : IsSide slots) : ∀ char ∈ printAll slots, isBlank char = false := by
  cases isSide with
  | zero => exact fun _ isMember => nomatch isMember
  | row notZero solid isWritten =>
      intro char isMember
      rcases (isWritten_printAll isWritten).2.2 char isMember with inText | rfl | rfl
      · exact solid char inText
      · decide
      · decide

theorem eq_nil_of_printAll (isSide : IsSide slots) (isNone : printAll slots = []) : slots = [] := by
  cases isSide with
  | zero => rfl
  | row notZero solid isWritten =>
      have whole := readBehind_of_isWritten (isWritten_printAll isWritten).1
      rw [isNone] at whole
      cases whole
      rfl

/-- A row of slots that has something to print is read as it is printed, whatever blanks
stand around it. -/
theorem readAll_printAll (isSide : IsSide slots) (isSome : printAll slots ≠ []) {text : Text}
    (isPrinted : text.filter (!isBlank ·) = printAll slots) : readAll text = .ok slots := by
  cases isSide with
  | zero => exact absurd rfl isSome
  | row notZero solid isWritten =>
      unfold readAll
      rw [flatten_words, isPrinted]
      dsimp only
      rw [if_neg fun isZero => notZero (eq_zero_of_print isWritten isZero)]
      exact readBehind_of_isWritten (isWritten_printAll isWritten).1

theorem readAll_printSide (isSide : IsSide slots) {text : Text}
    (isPrinted : text.filter (!isBlank ·) = printSide slots) : readAll text = .ok slots := by
  unfold printSide at isPrinted
  split at isPrinted
  · rename_i isNone
    rw [eq_nil_of_printAll isSide (List.isEmpty_iff.mp isNone)]
    unfold readAll
    rw [flatten_words, isPrinted]
    rfl
  · rename_i isSome
    exact readAll_printAll isSide (by simpa using isSome) isPrinted

theorem readContext_printAll (isSide : IsSide slots) {text : Text}
    (isPrinted : text.filter (!isBlank ·) = printAll slots) :
    SoundChange.readContext text = .ok slots := by
  unfold SoundChange.readContext
  split
  · rename_i areBlank
    have isNone : text.filter (!isBlank ·) = [] := by simpa using areBlank
    rw [eq_nil_of_printAll isSide (isPrinted ▸ isNone)]
  · rename_i notBlank
    refine readAll_printAll isSide (fun isNone => notBlank ?_) isPrinted
    rw [isNone] at isPrinted
    simpa using isPrinted

theorem solid_printSide (isSide : IsSide slots) :
    ∀ char ∈ printSide slots, isBlank char = false := by
  unfold printSide
  split
  · decide
  · exact solid_printAll isSide

end

end Slot

namespace SoundChange

structure IsRead (change : SoundChange) : Prop where
  before : Slot.IsSide change.before
  after : Slot.IsSide change.after
  preceding : Slot.IsSide change.preceding
  following : Slot.IsSide change.following
  noSlash : '/' ∉ Slot.printAll change.after
  noFocus : '_' ∉ Slot.printAll change.preceding
  fits : checkSounds change.before change.after = .ok ()

theorem not_mem_of_cutContext {text after : Text} {context : Option (Text × Text)}
    (isCut : cutContext text = .ok (after, context)) :
    '/' ∉ after ∧ '_' ∉ (context.getD ([], [])).1 := by
  unfold cutContext at isCut
  split at isCut
  · rename_i noSlash
    cases isCut
    exact ⟨Text.cut?_char_eq_none.mp noSlash, List.not_mem_nil⟩
  · rename_i head rest isSlash
    split at isCut
    · cases isCut
    · rename_i sides isFocus
      cases isCut
      exact ⟨Text.not_mem_of_cut?_char isSlash, Text.not_mem_of_cut?_char isFocus⟩

theorem isRead_of_read {text : Text} {change : SoundChange} (gave : read text = .ok change) :
    change.IsRead := by
  unfold read at gave
  split at gave
  · cases gave
  · obtain ⟨⟨afterText, context⟩, isCut, gave⟩ := Except.bind_eq_ok.mp gave
    obtain ⟨before, isBefore, gave⟩ := Except.bind_eq_ok.mp gave
    obtain ⟨after, isAfter, gave⟩ := Except.bind_eq_ok.mp gave
    dsimp only at gave
    obtain ⟨preceding, isPreceding, gave⟩ := Except.bind_eq_ok.mp gave
    obtain ⟨following, isFollowing, gave⟩ := Except.bind_eq_ok.mp gave
    obtain ⟨fits, isFit, gave⟩ := Except.bind_eq_ok.mp gave
    cases gave
    obtain ⟨noSlash, noFocus⟩ := not_mem_of_cutContext isCut
    obtain ⟨beforeSide, -, -⟩ := Slot.isSide_of_readAll isBefore
    obtain ⟨afterSide, -, afterChars⟩ := Slot.isSide_of_readAll isAfter
    obtain ⟨precedingSide, precedingChars⟩ := Slot.isSide_of_readContext isPreceding
    obtain ⟨followingSide, -⟩ := Slot.isSide_of_readContext isFollowing
    refine ⟨beforeSide, afterSide, precedingSide, followingSide, fun isSlash => ?_,
      fun isFocus => ?_, isFit⟩
    · rcases afterChars _ isSlash with inText | isClass | isClass
      · exact noSlash inText
      · cases isClass
      · cases isClass
    · rcases precedingChars _ isFocus with inText | isClass | isClass
      · exact noFocus inText
      · cases isClass
      · cases isClass

def printContext (change : SoundChange) : Text :=
  if change.preceding.isEmpty && change.following.isEmpty then []
  else " / ".toList ++ Slot.printAll change.preceding ++ '_' :: Slot.printAll change.following

theorem print_eq (change : SoundChange) :
    change.print = (Slot.printSide change.before ++ [' ']) ++
      ("->".toList ++ ' ' :: (Slot.printSide change.after ++ change.printContext)) := by
  unfold print printContext
  rw [List.append_assoc, List.append_assoc, List.append_assoc (Slot.printSide change.before) [' ']]
  rfl

theorem tight_print {change : SoundChange} (isRead : change.IsRead) : Tight change.print := by
  have tightSide : ∀ {slots : List Slot}, Slot.IsSide slots → Tight (Slot.printSide slots) := by
    intro slots isSide
    refine Text.tight_of_solid ?_ (Slot.solid_printSide isSide)
    unfold Slot.printSide
    split
    · exact List.cons_ne_nil _ _
    · rename_i isSome
      simpa using isSome
  have tightBehind : Tight (Slot.printSide change.after ++ change.printContext) := by
    unfold printContext
    split
    · rw [List.append_nil]
      exact tightSide isRead.after
    · have tightContext : Tight (Slot.printAll change.preceding ++
          '_' :: Slot.printAll change.following) := by
        refine Text.tight_of_solid (by simp) fun char isMember => ?_
        rcases List.mem_append.mp isMember with isMember | isMember
        · exact Slot.solid_printAll isRead.preceding char isMember
        · rcases List.mem_cons.mp isMember with rfl | isMember
          · decide
          · exact Slot.solid_printAll isRead.following char isMember
      have tightSlash : Tight ("/".toList) := Text.tight_of_solid (by decide) (by decide)
      have whole := (tightSide isRead.after).append (tightSlash.append tightContext)
      rw [List.append_assoc]
      exact whole
  have tightArrow : Tight ("->".toList) := Text.tight_of_solid (by decide) (by decide)
  have whole := (tightSide isRead.before).append (tightArrow.append tightBehind)
  rw [print_eq, List.append_assoc]
  exact whole

/-- What stands behind the arrow is read as the new sounds and the context. -/
theorem cutContext_print {change : SoundChange} (isRead : change.IsRead) :
    ∃ afterText context,
      cutContext (' ' :: (Slot.printSide change.after ++ change.printContext)) =
        .ok (afterText, context) ∧
      Slot.readAll afterText = .ok change.after ∧
      readContext (context.getD ([], [])).1 = .ok change.preceding ∧
      readContext (context.getD ([], [])).2 = .ok change.following := by
  have solidAfter := Slot.solid_printSide isRead.after
  have noSlash : '/' ∉ Slot.printSide change.after := by
    unfold Slot.printSide
    split
    · decide
    · exact isRead.noSlash
  have filtered : ∀ {text : Text}, (∀ char ∈ text, isBlank char = false) →
      text.filter (!isBlank ·) = text := by
    intro text solid
    rw [List.filter_eq_self]
    intro char isMember
    rw [solid char isMember]
    rfl
  have isAfter : ∀ before behind : Text, (∀ char ∈ before, isBlank char = true) →
      (∀ char ∈ behind, isBlank char = true) →
      Slot.readAll (before ++ (Slot.printSide change.after ++ behind)) = .ok change.after := by
    intro before behind areBefore areBehind
    refine Slot.readAll_printSide isRead.after ?_
    rw [List.filter_append, List.filter_append, filtered solidAfter,
      List.filter_eq_nil_iff.mpr fun char isMember => by simp [areBefore char isMember],
      List.filter_eq_nil_iff.mpr fun char isMember => by simp [areBehind char isMember],
      List.nil_append, List.append_nil]
  cases isAlone : change.preceding.isEmpty && change.following.isEmpty with
  | true =>
      have noContext : change.printContext = [] := by rw [printContext, isAlone, if_pos rfl]
      have isNone : cut? "/" (' ' :: Slot.printSide change.after) = none := by
        refine Text.cut?_char_eq_none.mpr fun isMember => ?_
        exact noSlash ((List.mem_cons.mp isMember).resolve_left (by decide))
      rw [Bool.and_eq_true, List.isEmpty_iff, List.isEmpty_iff] at isAlone
      rw [noContext, List.append_nil]
      refine ⟨_, none, by rw [cutContext, isNone], ?_, ?_, ?_⟩
      · have whole := isAfter [' '] [] (by decide) (by decide)
        rwa [List.append_nil] at whole
      · rw [isAlone.1]
        rfl
      · rw [isAlone.2]
        rfl
  | false =>
      have isSlash : cut? "/" (' ' :: (Slot.printSide change.after ++ change.printContext)) =
          some (' ' :: (Slot.printSide change.after ++ [' ']),
            (' ' :: Slot.printAll change.preceding) ++ '_' :: Slot.printAll change.following) := by
        have isCut := Text.cut?_char
          (show '/' ∉ ' ' :: (Slot.printSide change.after ++ [' ']) by simpa using noSlash)
          ((' ' :: Slot.printAll change.preceding) ++ '_' :: Slot.printAll change.following)
        rw [← isCut, printContext, isAlone]
        simp
      have isFocus : cut? "_" ((' ' :: Slot.printAll change.preceding) ++
          '_' :: Slot.printAll change.following) =
          some (' ' :: Slot.printAll change.preceding, Slot.printAll change.following) :=
        Text.cut?_char (show '_' ∉ ' ' :: Slot.printAll change.preceding by
          simpa using isRead.noFocus) _
      refine ⟨_, _, by rw [cutContext, isSlash]; dsimp only; rw [isFocus], ?_, ?_, ?_⟩
      · exact isAfter [' '] [' '] (by decide) (by decide)
      · refine Slot.readContext_printAll isRead.preceding ?_
        exact filtered (Slot.solid_printAll isRead.preceding)
      · exact Slot.readContext_printAll isRead.following
          (filtered (Slot.solid_printAll isRead.following))

theorem concat_eq_arrow {text head rest : Text} {char : Char} (notArrow : char ≠ '>')
    (isText : text ++ [char] = head ++ ("->".toList ++ rest)) :
    ∃ left, text = head ++ ("->".toList ++ left) := by
  rcases List.eq_nil_or_concat rest with rfl | ⟨left, last, rfl⟩
  · have isLast := congrArg List.getLast? isText
    rw [List.getLast?_concat, List.append_nil, List.getLast?_append] at isLast
    exact absurd (Option.some.inj isLast) notArrow
  · refine ⟨left, ?_⟩
    have isFront := congrArg List.dropLast isText
    rwa [List.dropLast_concat, List.concat_eq_append, ← List.append_assoc, ← List.append_assoc,
      List.dropLast_concat, List.append_assoc] at isFront

/-- An arrow behind a blank does not begin in front of the blank. -/
theorem occursIn_arrow_append {text : Text} (noArrow : occursIn "->" text = false) :
    occursIn "->" ((text ++ [' ']) ++ ['-']) = false := by
  cases isThere : occursIn "->" ((text ++ [' ']) ++ ['-']) with
  | false => rfl
  | true =>
      obtain ⟨head, rest, isText⟩ := Text.occursIn_iff.mp isThere
      obtain ⟨rest, isText⟩ := concat_eq_arrow (by decide) isText
      obtain ⟨rest, isText⟩ := concat_eq_arrow (by decide) isText
      rw [Text.occursIn_iff.mpr ⟨head, rest, isText⟩] at noArrow
      cases noArrow

/-- Nothing that is shorter than the printed form of a side is read as that side. -/
theorem readAll_ne_of_shorter {text : Text} {slots : List Slot}
    (shorter : text.length + 2 ≤ (Slot.printSide slots).length) :
    Slot.readAll text ≠ .ok slots := by
  intro gave
  obtain ⟨-, noLonger, -⟩ := Slot.isSide_of_readAll gave
  unfold Slot.printSide at shorter
  split at shorter
  · have isZero : "0".toList.length = 1 := rfl
    omega
  · omega

/-- A sound change that was read is read as it is printed, if and only if there is no
arrow in front of the arrow. -/
theorem read_print_iff {change : SoundChange} (isRead : change.IsRead) :
    read change.print = .ok change ↔ occursIn "->" (Slot.printSide change.before) = false := by
  rw [print_eq]
  unfold read
  cases isThere : occursIn "->" (Slot.printSide change.before) with
  | true =>
      refine iff_of_false (fun gave => ?_) (by simp)
      obtain ⟨⟨head, rest⟩, isCut⟩ := Option.isSome_iff_exists.mp isThere
      rw [List.append_assoc, Text.cut?_append_right isCut] at gave
      dsimp only at gave
      obtain ⟨context, -, gave⟩ := Except.bind_eq_ok.mp gave
      obtain ⟨before, isBefore, gave⟩ := Except.bind_eq_ok.mp gave
      obtain ⟨after, -, gave⟩ := Except.bind_eq_ok.mp gave
      obtain ⟨preceding, -, gave⟩ := Except.bind_eq_ok.mp gave
      obtain ⟨following, -, gave⟩ := Except.bind_eq_ok.mp gave
      obtain ⟨fits, -, gave⟩ := Except.bind_eq_ok.mp gave
      have isSame : before = change.before := congrArg SoundChange.before (Except.ok.inj gave)
      refine readAll_ne_of_shorter ?_ (isSame ▸ isBefore)
      rw [cut?_eq_some isCut, List.length_append, List.length_append]
      exact Nat.add_le_add_left (Nat.le_add_right 2 _) _
  | false =>
      refine iff_of_true ?_ rfl
      obtain ⟨afterText, context, isContext, isAfter, isPreceding, isFollowing⟩ :=
        cutContext_print isRead
      have isBefore : Slot.readAll (Slot.printSide change.before ++ [' ']) = .ok change.before := by
        refine Slot.readAll_printSide isRead.before ?_
        rw [List.filter_append, List.filter_eq_self.mpr fun char isMember => by
          rw [Slot.solid_printSide isRead.before char isMember]; rfl]
        exact List.append_nil _
      rw [cut?_append (by decide) (occursIn_arrow_append isThere)]
      exact Except.bind_eq_ok.mpr ⟨_, isContext, Except.bind_eq_ok.mpr ⟨_, isBefore,
        Except.bind_eq_ok.mpr ⟨_, isAfter, Except.bind_eq_ok.mpr ⟨_, isPreceding,
          Except.bind_eq_ok.mpr ⟨_, isFollowing, Except.bind_eq_ok.mpr ⟨_, isRead.fits, rfl⟩⟩⟩⟩⟩⟩

end SoundChange

end Diachrony
