import Diachrony.Proofs.Notation.SoundChange
import Mathlib.Data.List.Chain

/-!
# Sound changes that are put together

A sound change that was put together by hand need not have been read of any text.  Its printed
form is read as the same change where its slots are proper ones, and where the notation can keep
them apart: two runs of literal sounds in a row would be printed as one run, a lone zero would be
read as nothing at all, and the edge of the word has no place among the sounds.  The arrow of the
printed form is found because there is none in a slot and none between two slots.
-/
namespace Diachrony

open Text (isBlank joinWith occursIn cut? quoteMark)

/-- An arrow stands in a text where its two characters are neighbours. -/
theorem occursIn_arrow_iff {text : Text} :
    occursIn "->" text = false ↔ text.IsChain fun left right => ¬(left = '-' ∧ right = '>') := by
  induction text with
  | nil => exact iff_of_true rfl .nil
  | cons char text inductionHypothesis =>
      have further : occursIn "->" (char :: text) =
          ((Text.after? "->" (char :: text)).isSome || occursIn "->" text) := by
        unfold occursIn
        rw [cut?]
        cases Text.after? "->" (char :: text) with
        | some rest => rfl
        | none => simp
      rw [further, Bool.or_eq_false_iff]
      cases text with
      | nil =>
          exact iff_of_true ⟨by simp [Text.after?], rfl⟩ (.singleton char)
      | cons next text =>
          rw [List.isChain_cons_cons, inductionHypothesis]
          refine and_congr_left fun _ => ?_
          by_cases isDash : '-' = char
          · by_cases isTip : '>' = next
            · simp [Text.after?, isDash.symm, isTip.symm]
            · simp [Text.after?, isDash.symm, isTip, Ne.symm isTip]
          · simp [Text.after?, isDash, Ne.symm isDash]

/-- Two texts without an arrow make no arrow together, unless its characters meet. -/
theorem noArrow_append {left right : Text} (leftNone : occursIn "->" left = false)
    (rightNone : occursIn "->" right = false)
    (apart : left.getLast? ≠ some '-' ∨ right.head? ≠ some '>') :
    occursIn "->" (left ++ right) = false := by
  rw [occursIn_arrow_iff] at leftNone rightNone ⊢
  refine List.isChain_append.mpr ⟨leftNone, rightNone, ?_⟩
  rintro last isLast first isFirst ⟨rfl, rfl⟩
  rcases apart with notDash | notTip
  · exact notDash isLast
  · exact notTip isFirst

namespace Slot

/-- A run of literal sounds that reads as nothing else: no character of it is a blank or has
another use in the notation, and there is no arrow in it. -/
structure IsProperRun (run : Text) : Prop where
  isSome : run ≠ []
  solid : ∀ char ∈ run, isBlank char = false
  areSounds : ∀ char ∈ run, char ∉ "[]#_/\x27CV".toList
  noArrow : occursIn "->" run = false

instance (run : Text) : Decidable (IsProperRun run) :=
  decidable_of_iff (run ≠ [] ∧ (∀ char ∈ run, isBlank char = false) ∧
      (∀ char ∈ run, char ∉ "[]#_/\x27CV".toList) ∧ occursIn "->" run = false)
    ⟨fun ⟨isSome, solid, areSounds, noArrow⟩ => ⟨isSome, solid, areSounds, noArrow⟩,
      fun ⟨isSome, solid, areSounds, noArrow⟩ => ⟨isSome, solid, areSounds, noArrow⟩⟩

/-- The name of a feature that can be listed between square brackets. -/
structure IsProperFeature (name : Text) : Prop where
  isSome : name ≠ []
  solid : ∀ char ∈ name, isBlank char = false
  isWhole : ∀ char ∈ name, char ∉ ",[]#_/\x27".toList
  noArrow : occursIn "->" name = false

instance (name : Text) : Decidable (IsProperFeature name) :=
  decidable_of_iff (name ≠ [] ∧ (∀ char ∈ name, isBlank char = false) ∧
      (∀ char ∈ name, char ∉ ",[]#_/\x27".toList) ∧ occursIn "->" name = false)
    ⟨fun ⟨isSome, solid, isWhole, noArrow⟩ => ⟨isSome, solid, isWhole, noArrow⟩,
      fun ⟨isSome, solid, isWhole, noArrow⟩ => ⟨isSome, solid, isWhole, noArrow⟩⟩

/-- A slot that is one thing only: the edge of the word, a run of literal sounds or a list of
features. -/
inductive IsProper : Slot → Prop
  | edge : IsProper edge
  | run {run : Text} : IsProperRun run → IsProper (sounds run)
  | features {names : List Text} : names ≠ [] → (∀ name ∈ names, IsProperFeature name) →
      IsProper (featured names)

instance (slot : Slot) : Decidable slot.IsProper :=
  decidable_of_iff (slot = edge ∨ (∃ run ∈ slot.literal, slot = sounds run ∧ IsProperRun run) ∨
      slot = featured slot.features ∧ slot.features ≠ [] ∧
        ∀ name ∈ slot.features, IsProperFeature name) <| by
    constructor
    · rintro (isEdge | ⟨run, -, isRun, isProper⟩ | ⟨isList, areSome, areProper⟩)
      · exact isEdge ▸ .edge
      · exact isRun ▸ .run isProper
      · exact isList ▸ .features areSome areProper
    · intro isProper
      cases isProper with
      | edge => exact .inl rfl
      | run isRun => exact .inr (.inl ⟨_, rfl, rfl, isRun⟩)
      | features areSome areProper => exact .inr (.inr ⟨rfl, areSome, areProper⟩)

/-- A row of proper slots that can be told apart: no two runs of literal sounds are neighbours,
and the row is not a lone zero. -/
structure IsProperRow (slots : List Slot) : Prop where
  areProper : ∀ slot ∈ slots, slot.IsProper
  areApart : slots.IsChain fun left right => left.literal = none ∨ right.literal = none
  notZero : slots ≠ [sounds "0"]

instance (slots : List Slot) : Decidable (IsProperRow slots) :=
  decidable_of_iff ((∀ slot ∈ slots, slot.IsProper) ∧
      (slots.IsChain fun left right => left.literal = none ∨ right.literal = none) ∧
      slots ≠ [sounds "0"])
    ⟨fun ⟨areProper, areApart, notZero⟩ => ⟨areProper, areApart, notZero⟩,
      fun ⟨areProper, areApart, notZero⟩ => ⟨areProper, areApart, notZero⟩⟩

section

variable {slot : Slot} {slots : List Slot}

/-- The printed form of a list of features is a mark. -/
theorem isMark_featured {names : List Text} (areSome : names ≠ [])
    (areProper : ∀ name ∈ names, IsProperFeature name) :
    IsMark (featured names).print (featured names) := by
  have isPrinted : (featured names).print = printFeatures names := rfl
  rw [isPrinted, printFeatures]
  by_cases isConsonant : names = [consonantClass]
  · rw [if_pos isConsonant, isConsonant]
    exact .consonant
  · rw [if_neg isConsonant]
    by_cases isVowel : names = [vowelClass]
    · rw [if_pos isVowel, isVowel]
      exact .vowel
    · rw [if_neg isVowel]
      have noBracket : ']' ∉ joinWith ",".toList names := by
        intro isMember
        rcases Text.mem_joinWith isMember with isComma | ⟨name, isName, inName⟩
        · exact absurd isComma (by decide)
        · exact (areProper name isName).isWhole _ inName (by decide)
      have isWhole (name : Text) (isName : name ∈ names) : ',' ∉ name := fun inName =>
        (areProper name isName).isWhole _ inName (by decide)
      have areSplit : Text.splitAt ',' (joinWith ",".toList names) = names :=
        Text.splitAt_joinWith areSome isWhole
      have noneEmpty : ¬(names.any List.isEmpty) = true := by
        intro isEmpty
        obtain ⟨name, isName, isEmpty⟩ := List.any_eq_true.mp isEmpty
        exact (areProper name isName).isSome (List.isEmpty_iff.mp isEmpty)
      refine .features noBracket ?_
      rw [readFeatures, areSplit, if_neg noneEmpty]

/-- A proper slot that is no run of literal sounds is printed as a mark. -/
theorem IsProper.isMark (isProper : slot.IsProper) (noRun : slot.literal = none) :
    IsMark slot.print slot := by
  cases isProper with
  | edge => exact .edge
  | run isRun => cases noRun
  | features areSome areProper => exact isMark_featured areSome areProper

/-- Where a mark begins and ends, no arrow can. -/
theorem IsMark.ends {mark : Text} (isMark : IsMark mark slot) :
    mark ≠ [] ∧ mark.head? ≠ some '>' ∧ mark.getLast? ≠ some '-' := by
  cases isMark with
  | features noBracket isSlot =>
      refine ⟨List.cons_ne_nil _ _, fun isTip => ?_, fun isDash => ?_⟩
      · exact absurd (Option.some.inj isTip) (by decide)
      · rw [← List.cons_append, List.getLast?_concat] at isDash
        exact absurd (Option.some.inj isDash) (by decide)
  | _ => decide

theorem IsProper.print_isSome (isProper : slot.IsProper) : slot.print ≠ [] := by
  by_cases noRun : slot.literal = none
  · exact (isProper.isMark noRun).ends.1
  · cases isProper with
    | run isRun => exact isRun.isSome
    | _ => exact absurd rfl noRun

/-- No character of a printed slot is a blank, begins a context or stands in one for the
sounds. -/
theorem IsProper.print_chars (isProper : slot.IsProper) :
    ∀ char ∈ slot.print, isBlank char = false ∧ char ≠ '/' ∧ char ≠ '_' := by
  cases isProper with
  | edge => decide
  | run isRun =>
      intro char isMember
      have isSound := isRun.areSounds char isMember
      refine ⟨isRun.solid char isMember, ?_, ?_⟩
      · rintro rfl
        exact isSound (by decide)
      · rintro rfl
        exact isSound (by decide)
  | @features names areSome areProper =>
      have isPrinted : (featured names).print = printFeatures names := rfl
      have inList (char : Char) (isMember : char ∈ joinWith ",".toList names) :
          isBlank char = false ∧ char ≠ '/' ∧ char ≠ '_' := by
        rcases Text.mem_joinWith isMember with isComma | ⟨name, isName, inName⟩
        · rw [List.mem_singleton.mp isComma]
          decide
        · have isWhole := (areProper name isName).isWhole char inName
          refine ⟨(areProper name isName).solid char inName, ?_, ?_⟩
          · rintro rfl
            exact isWhole (by decide)
          · rintro rfl
            exact isWhole (by decide)
      rw [isPrinted, printFeatures]
      by_cases isConsonant : names = [consonantClass]
      · rw [if_pos isConsonant]
        decide
      · rw [if_neg isConsonant]
        by_cases isVowel : names = [vowelClass]
        · rw [if_pos isVowel]
          decide
        · rw [if_neg isVowel]
          simp only [List.cons_append, List.mem_cons, List.mem_append, List.not_mem_nil, or_false]
          rintro char (rfl | isMember | rfl)
          · decide
          · exact inList char isMember
          · decide

theorem noArrow_joinWith {names : List Text}
    (areProper : ∀ name ∈ names, IsProperFeature name) :
    occursIn "->" (joinWith ",".toList names) = false := by
  induction names with
  | nil => rfl
  | cons name names inductionHypothesis =>
      obtain ⟨isProper, areOthers⟩ := List.forall_mem_cons.mp areProper
      by_cases areNone : names = []
      · rw [areNone]
        exact isProper.noArrow
      · rw [Text.joinWith_cons _ _ areNone]
        have noComma : occursIn "->" ",".toList = false := by decide
        refine noArrow_append (noArrow_append isProper.noArrow noComma ?_)
          (inductionHypothesis areOthers) ?_
        · exact .inr (by decide)
        · refine .inl ?_
          rw [show ",".toList = [','] from rfl, List.getLast?_concat]
          decide

theorem IsProper.noArrow (isProper : slot.IsProper) : occursIn "->" slot.print = false := by
  cases isProper with
  | edge => decide
  | run isRun => exact isRun.noArrow
  | @features names areSome areProper =>
      have isPrinted : (featured names).print = printFeatures names := rfl
      rw [isPrinted, printFeatures]
      by_cases isConsonant : names = [consonantClass]
      · rw [if_pos isConsonant]
        decide
      · rw [if_neg isConsonant]
        by_cases isVowel : names = [vowelClass]
        · rw [if_pos isVowel]
          decide
        · rw [if_neg isVowel, List.cons_append, ← List.singleton_append]
          have noOpening : occursIn "->" ['['] = false := by decide
          have noClosing : occursIn "->" [']'] = false := by decide
          have noneInside := noArrow_append (noArrow_joinWith areProper) noClosing
            (.inr (by decide))
          exact noArrow_append noOpening noneInside (.inl (by decide))

/-- What is printed for a row of slots begins as its first slot does. -/
theorem head_printAll (isProper : slot.IsProper) (slots : List Slot) :
    (printAll (slot :: slots)).head? = slot.print.head? := by
  rw [printAll_cons, List.head?_append_of_ne_nil _ isProper.print_isSome]

/-- There is no arrow in a row of proper slots: none is in a slot, and of two neighbours one is a
mark, with which no arrow ends or begins. -/
theorem noArrow_printAll (areProper : ∀ slot ∈ slots, slot.IsProper)
    (areApart : slots.IsChain fun left right => left.literal = none ∨ right.literal = none) :
    occursIn "->" (printAll slots) = false := by
  induction slots with
  | nil => rfl
  | cons slot slots inductionHypothesis =>
      obtain ⟨isProper, areOthers⟩ := List.forall_mem_cons.mp areProper
      rw [printAll_cons]
      refine noArrow_append isProper.noArrow (inductionHypothesis areOthers areApart.tail) ?_
      by_cases noRun : slot.literal = none
      · exact .inl (isProper.isMark noRun).ends.2.2
      · cases slots with
        | nil => exact .inr (by decide)
        | cons next slots =>
            have nextProper := areOthers next List.mem_cons_self
            have nextMark := (List.isChain_cons_cons.mp areApart).1.resolve_left noRun
            rw [head_printAll nextProper]
            exact .inr (nextProper.isMark nextMark).ends.2.1

theorem isSound_of_areSounds {run : Text} (isRun : IsProperRun run) :
    ∀ char ∈ run, isSound char = true := by
  intro char isMember
  have isSound := isRun.areSounds char isMember
  simp only [show "[]#_/\x27CV".toList = ['[', ']', '#', '_', '/', quoteMark, 'C', 'V'] from rfl,
    List.mem_cons, List.not_mem_nil, or_false, not_or] at isSound
  simp [Slot.isSound, isSound]

/-- A row of proper slots is written as it is printed.  The induction carries the run of literal
sounds that stands in front of the row. -/
theorem isWritten_of_areProper (run : Text) (areSounds : ∀ char ∈ run, isSound char = true)
    (areProper : ∀ slot ∈ slots, slot.IsProper)
    (areApart : (closeRun run slots).IsChain fun left right =>
      left.literal = none ∨ right.literal = none) :
    IsWritten (run ++ printAll slots) (closeRun run slots) := by
  induction slots generalizing run with
  | nil =>
      rw [show printAll [] = [] from rfl, List.append_nil]
      exact .run areSounds
  | cons slot slots inductionHypothesis =>
      obtain ⟨isProper, areOthers⟩ := List.forall_mem_cons.mp areProper
      rw [printAll_cons]
      by_cases noRun : slot.literal = none
      · have restApart : (slot :: slots).IsChain fun left right =>
            left.literal = none ∨ right.literal = none := by
          cases run with
          | nil => exact areApart
          | cons char run => exact areApart.tail
        have isRest := inductionHypothesis [] (fun _ isMember => nomatch isMember) areOthers
          restApart.tail
        exact .mark areSounds (isProper.isMark noRun) isRest
      · cases isProper with
        | @run sound isRun =>
            cases run with
            | nil =>
                have isClosed : closeRun sound slots = sounds sound :: slots :=
                  if_neg (by simpa using isRun.isSome)
                rw [show closeRun [] (sounds sound :: slots) = closeRun sound slots from
                  isClosed.symm] at areApart ⊢
                exact inductionHypothesis sound (isSound_of_areSounds isRun) areOthers areApart
            | cons char run =>
                have isMark := (List.isChain_cons_cons.mp areApart).1
                exact absurd isMark (by simp [sounds])
        | _ => exact absurd rfl noRun

theorem IsProperRow.isSide (isRow : IsProperRow slots) : IsSide slots := by
  have isWritten : IsWritten (printAll slots) slots :=
    isWritten_of_areProper [] (fun _ isMember => nomatch isMember) isRow.areProper isRow.areApart
  refine .row (fun isZero => isRow.notZero ?_) (fun char isMember => ?_) isWritten
  · have isRead := readBehind_of_isWritten isWritten
    rw [isZero] at isRead
    exact (Except.ok.inj isRead).symm
  · obtain ⟨slot, isSlot, inSlot⟩ := List.mem_flatMap.mp isMember
    exact ((isRow.areProper slot isSlot).print_chars char inSlot).1

theorem IsProperRow.printAll_chars (isRow : IsProperRow slots) :
    '/' ∉ printAll slots ∧ '_' ∉ printAll slots := by
  constructor
  · intro isMember
    obtain ⟨slot, isSlot, inSlot⟩ := List.mem_flatMap.mp isMember
    exact ((isRow.areProper slot isSlot).print_chars _ inSlot).2.1 rfl
  · intro isMember
    obtain ⟨slot, isSlot, inSlot⟩ := List.mem_flatMap.mp isMember
    exact ((isRow.areProper slot isSlot).print_chars _ inSlot).2.2 rfl

end

end Slot

namespace SoundChange

/-- A sound change that was put together of proper rows: it has sounds, the edge of the word is in
its contexts only, and each list of features among the new sounds has an old sound at its
place. -/
structure IsProper (change : SoundChange) : Prop where
  before : Slot.IsProperRow change.before
  after : Slot.IsProperRow change.after
  preceding : Slot.IsProperRow change.preceding
  following : Slot.IsProperRow change.following
  isSome : ¬(change.before = [] ∧ change.after = [])
  inside : ∀ slot ∈ change.before ++ change.after, slot.boundary = false
  counterparts : ∀ slot ∈ change.after.drop change.before.length, slot.features = []

instance (change : SoundChange) : Decidable change.IsProper :=
  decidable_of_iff (Slot.IsProperRow change.before ∧ Slot.IsProperRow change.after ∧
      Slot.IsProperRow change.preceding ∧ Slot.IsProperRow change.following ∧
      ¬(change.before = [] ∧ change.after = []) ∧
      (∀ slot ∈ change.before ++ change.after, slot.boundary = false) ∧
      ∀ slot ∈ change.after.drop change.before.length, slot.features = [])
    ⟨fun ⟨before, after, preceding, following, isSome, inside, counterparts⟩ =>
        ⟨before, after, preceding, following, isSome, inside, counterparts⟩,
      fun ⟨before, after, preceding, following, isSome, inside, counterparts⟩ =>
        ⟨before, after, preceding, following, isSome, inside, counterparts⟩⟩

theorem IsProper.fits {change : SoundChange} (isProper : change.IsProper) :
    checkSounds change.before change.after = .ok () := by
  have hasSounds : ¬(change.before.isEmpty && change.after.isEmpty) = true := by
    simpa using isProper.isSome
  have noEdge : ¬((change.before ++ change.after).any Slot.boundary) = true := by
    intro isEdge
    obtain ⟨slot, isMember, isEdge⟩ := List.any_eq_true.mp isEdge
    rw [isProper.inside slot isMember] at isEdge
    cases isEdge
  have noneLeft : ((change.after.drop change.before.length).find? fun slot =>
      !slot.features.isEmpty) = none := by
    refine List.find?_eq_none.mpr fun slot isMember => ?_
    simp [isProper.counterparts slot isMember]
  rw [checkSounds, if_neg hasSounds, if_neg noEdge, noneLeft]

/-- A sound change that was put together of proper rows is as if it had been read. -/
theorem IsProper.isRead {change : SoundChange} (isProper : change.IsProper) : change.IsRead where
  before := isProper.before.isSide
  after := isProper.after.isSide
  preceding := isProper.preceding.isSide
  following := isProper.following.isSide
  noSlash := isProper.after.printAll_chars.1
  noFocus := isProper.preceding.printAll_chars.2
  fits := isProper.fits

/-- A sound change that was put together of proper rows is read as it is printed. -/
theorem read_print_of_isProper {change : SoundChange} (isProper : change.IsProper) :
    read change.print = .ok change := by
  apply (read_print_iff isProper.isRead).mpr
  rw [Slot.printSide]
  by_cases isNone : (Slot.printAll change.before).isEmpty = true
  · rw [if_pos isNone]
    decide
  · rw [if_neg isNone]
    exact Slot.noArrow_printAll isProper.before.areProper isProper.before.areApart

/-- A change in which the characters of an arrow, a zero and the names of both shorthands stand
close to other slots. -/
def closeCalls : SoundChange where
  before := [.sounds "0-", .featured [consonantClass], .sounds ">"]
  after := [.featured ["+voice", "-"], .sounds "00"]
  preceding := [.edge, .sounds "-", .edge]
  following := [.featured [vowelClass], .featured [vowelClass, ">C"], .sounds ">"]

theorem read_print_of_isProper_closeCalls :
    closeCalls.IsProper ∧ closeCalls.print = "0-C> -> [+voice,-]00 / #-#_V[vowel,>C]>" ∧
      read closeCalls.print = .ok closeCalls := by
  have isProper : closeCalls.IsProper := by decide
  exact ⟨isProper, by decide, read_print_of_isProper isProper⟩

end SoundChange

end Diachrony
