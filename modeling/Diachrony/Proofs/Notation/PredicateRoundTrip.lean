import Diachrony.Proofs.Notation.PrintedForm
import Mathlib.Data.List.Infix

/-!
# Printed predicates are read again

The printed form of a predicate that was read of a phrase is read as the same predicate
if and only if the predicate is plain: neither a pattern nor the class that is sought
begins with a word that the notation has another use for, and no "is" stands earlier
than the one behind that class.
-/
namespace Diachrony

open Text (after? after?_eq_some after?_append after?_eq_none after?_isNone_append partWays
  startsWith startsWith_iff startsWith_eq_false occursIn occursIn_iff quoteMark squeeze)

namespace Predicate

theorem denial?_isSome {text : Text} (isSome : text ≠ []) (noFeed : '\n' ∉ text) :
    (denial? text).isSome = true := by
  unfold denial?
  rw [singleLine?_of_noFeed isSome noFeed]
  split <;> rfl

/-- The cut is made at the first place there is. -/
theorem cutAtIs?_append {front back : Text} (isSome : front ≠ []) (noFeed : '\n' ∉ front)
    (isDenial : (denial? back).isSome = true) :
    ∃ head said, cutAtIs? (front ++ ' ' :: ("is".toList ++ ' ' :: back)) = some (head, said) ∧
      head.length ≤ front.length := by
  induction front with
  | nil => exact absurd rfl isSome
  | cons char front inductionHypothesis =>
      have notBreak : char ≠ '\n' := by
        rintro rfl
        exact noFeed List.mem_cons_self
      rw [List.cons_append, cutAtIs?, if_neg notBreak]
      cases isHere : (after? " is " (front ++ ' ' :: ("is".toList ++ ' ' :: back))).bind denial? with
      | some said => exact ⟨[char], said, rfl, by simp⟩
      | none =>
          have frontSome : front ≠ [] := by
            rintro rfl
            have found : after? " is " ([] ++ ' ' :: ("is".toList ++ ' ' :: back)) = some back := rfl
            rw [found, Option.bind_some] at isHere
            rw [isHere] at isDenial
            cases isDenial
          obtain ⟨head, said, isCut, noLonger⟩ := inductionHypothesis frontSome
            fun isMember => noFeed (List.mem_cons_of_mem _ isMember)
          refine ⟨char :: head, said, ?_, Nat.succ_le_succ noLonger⟩
          rw [isCut]
          rfl

/-- A phrase that goes on with "is" is cut there or earlier, and earlier if and only if
there is another "is" in it. -/
theorem cutAtIs?_phrase {name rest : Text} {said : Bool × Text} (isPhrase : IsPhrase name)
    (noFeed : '\n' ∉ rest) (isDenial : denial? rest = some said) :
    ∃ head found, cutAtIs? (name ++ ' ' :: ("is".toList ++ ' ' :: rest)) = some (head, found) ∧
      head.length ≤ name.length ∧
      (occursIn " is " (name ++ " is") = false → head = name ∧ found = said) ∧
      (occursIn " is " (name ++ " is") = true → head.length < name.length) := by
  have restSome : rest ≠ [] := by
    rintro rfl
    cases isDenial
  obtain ⟨head, found, isCut, noLonger⟩ := cutAtIs?_append isPhrase.isSome isPhrase.noFeed
    (isDenial ▸ rfl : (denial? rest).isSome = true)
  refine ⟨head, found, isCut, noLonger, ?_, ?_⟩
  · intro notEarlier
    obtain ⟨-, tail, isWhole, isFound⟩ := cutAtIs?_eq_some isCut
    have isHead : head = name := by
      rcases Nat.lt_or_eq_of_le noLonger with shorter | same
      · have within : head ++ " is ".toList <+: name ++ " is".toList := by
          have isFront : head ++ " is ".toList <+: name ++ ' ' :: ("is".toList ++ ' ' :: rest) := by
            rw [isWhole]
            exact ⟨tail, List.append_assoc _ _ _⟩
          refine List.prefix_of_prefix_length_le isFront ⟨' ' :: rest, List.append_assoc _ _ _⟩ ?_
          rw [List.length_append, List.length_append]
          exact Nat.add_lt_add_right shorter 3
        obtain ⟨behind, isName⟩ := within
        have isEarlier : occursIn " is " (name ++ " is") = true :=
          occursIn_iff.mpr ⟨head, behind, by rw [← isName, List.append_assoc]⟩
        rw [notEarlier] at isEarlier
        cases isEarlier
      · exact (List.append_inj isWhole same.symm).1.symm
    subst isHead
    simp only [List.append_cancel_left_eq, List.cons.injEq, true_and] at isWhole
    rw [← isWhole, isDenial, Option.some.injEq] at isFound
    exact ⟨rfl, isFound.symm⟩
  · intro isEarlier
    obtain ⟨front, back, isWhole⟩ := occursIn_iff.mp isEarlier
    have shorter : front.length < name.length := by
      have sameLength := congrArg List.length isWhole
      rw [List.length_append, List.length_append, List.length_append] at sameLength
      have lead : " is".toList.length = 3 := rfl
      have mark : " is ".toList.length = 4 := rfl
      omega
    have frontSome : front ≠ [] := by
      rintro rfl
      obtain ⟨first, others, rfl⟩ := List.exists_cons_of_ne_nil isPhrase.isSome
      have solid := isPhrase.head_solid rfl
      cases (List.cons.inj isWhole).1
      cases solid
    have isFront : front <+: name :=
      List.prefix_of_prefix_length_le ⟨_, isWhole.symm⟩ ⟨_, rfl⟩ (Nat.le_of_lt shorter)
    have isText : name ++ ' ' :: ("is".toList ++ ' ' :: rest) =
        front ++ ' ' :: ("is".toList ++ ' ' :: (back ++ ' ' :: rest)) := by
      calc name ++ ' ' :: ("is".toList ++ ' ' :: rest)
          = (name ++ " is".toList) ++ ' ' :: rest := by rw [List.append_assoc]; rfl
        _ = _ := by rw [isWhole, List.append_assoc, List.append_assoc]; rfl
    have backFeed : '\n' ∉ back ++ ' ' :: rest := by
      intro isMember
      rcases List.mem_append.mp isMember with isMember | isMember
      · have inName : '\n' ∈ name ++ " is".toList := by
          rw [isWhole]
          exact List.mem_append_right _ (List.mem_append_right _ isMember)
        rcases List.mem_append.mp inName with inName | inName
        · exact isPhrase.noFeed inName
        · exact (by decide : '\n' ∉ " is".toList) inName
      · exact noFeed ((List.mem_cons.mp isMember).resolve_left (by decide))
    obtain ⟨first, said, isFirst, noLonger⟩ := cutAtIs?_append frontSome
      (fun isMember => isPhrase.noFeed (isFront.subset isMember))
      (denial?_isSome (by simp) backFeed)
    rw [← isText, isCut, Option.some.injEq, Prod.mk.injEq] at isFirst
    rw [isFirst.1]
    exact Nat.lt_of_le_of_lt noLonger shorter

theorem squeeze_ne_nil_of_cut {text head : Text} {said : Bool × Text} (isPhrase : IsPhrase text)
    (isCut : cutAtIs? text = some (head, said)) : squeeze head ≠ [] := by
  obtain ⟨isSome, rest, rfl, -⟩ := cutAtIs?_eq_some isCut
  obtain ⟨char, head, rfl⟩ := List.exists_cons_of_ne_nil isSome
  rw [Text.squeeze_cons_of_solid (isPhrase.head_solid rfl)]
  exact List.cons_ne_nil _ _

/-- Whether an ordinal and the words behind it are read as a longer ordinal and the words
for a sought sound. -/
def isStolen (ordinal : Int) (line : Text) : Bool :=
  (ordinal == 2 || ordinal == 3) && (after? "to last " line).any fun rest => occursIn " is " rest

/-- Whether a test of a sought sound is read as it is printed. The class and the pattern
begin with no article, and the pattern does not take over the denial; the first "is" is
the one behind the class; and the words behind the ordinal begin neither a test of a
syllable nor a longer ordinal. -/
def isPlainSeek (negated : Bool) (target : SeekTarget) (pattern : SoundPattern) : Bool :=
  let line := seekLine negated target pattern
  (afterArticle? target.className).isNone && pattern.isPlainBehind negated &&
    !occursIn " is " (target.className ++ " is") &&
    !([SyllablePart.anywhere, .ending].any fun part => startsWith part.lead line) &&
    !isStolen target.ordinal line

def soughtSound? (ordinal : Ordinal) (text : Text) : Option (Except ReadingFault Predicate) := do
  let (name, negated, line) ← cutAtIs? text
  return do
    let target ← SeekTarget.read (ordinal.name ++ ' ' :: name)
    withPattern { test := .seek, negated, seek := some target } line

theorem readSeek_eq (text : Text) :
    readSeek text =
      (Ordinal.leads text).findSome? fun (ordinal, rest) => soughtSound? ordinal rest :=
  rfl

theorem soughtSound?_eq_none {ordinal : Ordinal} {text : Text}
    (noIs : occursIn " is " text = false) : soughtSound? ordinal text = none := by
  unfold soughtSound?
  cases isCut : cutAtIs? text with
  | none => rfl
  | some cut =>
      obtain ⟨head, negated, line⟩ := cut
      obtain ⟨-, rest, isText, -⟩ := cutAtIs?_eq_some isCut
      have isThere : occursIn " is " text = true := occursIn_iff.mpr ⟨head, rest, isText⟩
      rw [noIs] at isThere
      cases isThere

theorem syllablePart?_ne_seek {ordinal : Ordinal} {text : Text}
    {result : Except ReadingFault Predicate} (gave : syllablePart? ordinal text = some result)
    {predicate : Predicate} (isSeek : predicate.test = .seek) : result ≠ .ok predicate := by
  rintro rfl
  obtain ⟨part, -, gave⟩ := List.exists_of_findSome?_eq_some gave
  obtain ⟨line, -, gave⟩ := Option.bind_eq_some_iff.mp gave
  obtain ⟨pattern, -, rfl⟩ := withPattern_eq_ok (Option.some.inj gave)
  cases isSeek

/-- What is read behind an ordinal is the n-th sound with that ordinal, or with one that
the words behind it make longer. -/
theorem soughtSound?_eq_some {ordinal : Ordinal} {text : Text} {predicate : Predicate}
    (gave : soughtSound? ordinal text = some (.ok predicate)) :
    ∃ head negated line target pattern, cutAtIs? text = some (head, negated, line) ∧
      SeekTarget.read (ordinal.name ++ ' ' :: head) = .ok target ∧
      SoundPattern.read line = .ok pattern ∧
      predicate = { test := .seek, negated, seek := some target, pattern := some pattern } := by
  obtain ⟨⟨head, negated, line⟩, isCut, gave⟩ := Option.bind_eq_some_iff.mp gave
  obtain ⟨target, isTarget, gave⟩ := Except.bind_eq_ok.mp (Option.some.inj gave)
  obtain ⟨pattern, isPattern, isPredicate⟩ := withPattern_eq_ok gave
  exact ⟨head, negated, line, target, pattern, isCut, isTarget, isPattern, isPredicate⟩

section

variable {negated : Bool} {target : SeekTarget} {pattern : SoundPattern} {ordinal : Ordinal}

/-- What is read of the words behind the ordinal in the printed form of a test of a sought
sound. -/
theorem soughtSound?_seekLine (negated : Bool) (isTarget : target.IsRead)
    (isOrdinal : target.ordinal = ordinal.number) (isClass : IsPhrase target.className)
    (isPattern : pattern.IsRead) (isPhrase : IsPhrase pattern.print) :
    ∃ result, soughtSound? ordinal (seekLine negated target pattern) = some result ∧
      (result = .ok { test := .seek, negated, seek := some target, pattern := some pattern } ↔
        target.isPlain = true ∧ pattern.isPlainBehind negated = true ∧
          occursIn " is " (target.className ++ " is") = false) := by
  obtain ⟨other, rest, isDenial, sameRest, sameDenial⟩ := denial?_append isPhrase negated
  obtain ⟨head, found, isCut, noLonger, notEarlier, earlier⟩ := cutAtIs?_phrase isClass
    (isPhrase_denial isPhrase negated).noFeed isDenial
  unfold soughtSound? seekLine
  rw [isCut]
  refine ⟨_, rfl, ?_⟩
  rw [← SeekTarget.read_print_iff isTarget, SeekTarget.print_eq isTarget isOrdinal,
    ← withPattern_iff .seek (some target) isPattern sameRest sameDenial]
  constructor
  · intro gave
    obtain ⟨sought, isSought, isKnown⟩ := Except.bind_eq_ok.mp gave
    obtain ⟨known, -, same⟩ := withPattern_eq_ok isKnown
    simp only [mk.injEq, Option.some.injEq, true_and] at same
    obtain ⟨rfl, rfl, rfl⟩ := same
    have squeezedSome := squeeze_ne_nil_of_cut (isPhrase_seekLine found.1 isClass isPhrase) isCut
    have isLong := SeekTarget.length_className_le ordinal squeezedSome isSought
    cases isEarlier : occursIn " is " (target.className ++ " is") with
    | true => exact absurd (earlier isEarlier) (Nat.not_lt.mpr isLong)
    | false =>
        obtain ⟨rfl, rfl⟩ := notEarlier isEarlier
        exact ⟨isSought, isKnown, rfl⟩
  · rintro ⟨isSought, isKnown, isFirst⟩
    obtain ⟨rfl, rfl⟩ := notEarlier isFirst
    exact Except.bind_eq_ok.mpr ⟨target, isSought, isKnown⟩

/-- What makes a longer ordinal of the one in a printed form is the class, or the "is"
behind a class that says no more than that. -/
theorem after?_seekLine {rest : Text}
    (behind : after? "to last " (seekLine negated target pattern) = some rest) :
    occursIn " is " rest = true ∨ startsWith "is " rest = true := by
  have isLine := after?_eq_some.mp behind
  rcases List.append_eq_append_iff.mp isLine with ⟨between, isLead, isRest⟩ | ⟨between, -, isRest⟩
  · have atEnd : ∀ between ∈ List.tails "to last ".toList, between = [] ∨ between = [' '] ∨
        partWays between " is " = true := by
      decide
    rcases atEnd between ((List.mem_tails _ _).mpr ⟨_, isLead.symm⟩) with rfl | rfl | apart
    · exact .inl (occursIn_iff.mpr ⟨[], _, isRest.symm⟩)
    · exact .inr (startsWith_iff.mpr ⟨_, (List.cons.inj isRest).2.symm⟩)
    · have isNone := after?_eq_none apart (denial negated ++ pattern.print)
      have isSome := after?_eq_some.mpr isRest
      rw [show " is ".toList ++ (denial negated ++ pattern.print) =
        ' ' :: ("is".toList ++ ' ' :: (denial negated ++ pattern.print)) from rfl, isSome] at isNone
      cases isNone
  · exact .inl (occursIn_iff.mpr ⟨between, _, isRest⟩)

theorem isStolen_iff (isOrdinal : target.ordinal = ordinal.number) (line : Text) :
    isStolen target.ordinal line = true ↔
      ∃ longer rest, ordinal.fromEnd? = some longer ∧ after? "to last " line = some rest ∧
        occursIn " is " rest = true := by
  unfold isStolen
  rw [isOrdinal, Bool.and_eq_true, Option.any_eq_true]
  constructor
  · rintro ⟨isEarly, rest, behind, isThere⟩
    cases ordinal with
    | second => exact ⟨.secondToLast, rest, rfl, behind, isThere⟩
    | third => exact ⟨.thirdToLast, rest, rfl, behind, isThere⟩
    | first | last | secondToLast | thirdToLast => cases isEarly
  · rintro ⟨longer, rest, isFromEnd, behind, isThere⟩
    refine ⟨?_, rest, behind, isThere⟩
    cases ordinal with
    | second | third => rfl
    | first | last | secondToLast | thirdToLast => cases isFromEnd

/-- A form that makes nothing of what the readings other than the printed one leave
behind, makes of the whole what it makes of the printed reading. -/
theorem findSome?_leads {β : Type} (form : Ordinal → Text → Option β) {line : Text}
    (notLonger : ∀ longer rest, ordinal.fromEnd? = some longer →
      after? "to last " line = some rest → form longer rest = none)
    (notShorter : form ordinal line = none →
      ∀ shorter, form shorter ("to last " ++ line) = none) :
    ((Ordinal.leads (ordinal.name ++ ' ' :: line)).findSome? fun (ordinal, rest) =>
      form ordinal rest) = form ordinal line := by
  have noneBefore : ((ordinal.fromEnd?.bind fun longer =>
      (after? "to last " line).map fun rest => (longer, rest)).toList.findSome?
        fun (ordinal, rest) => form ordinal rest) = none := by
    refine List.findSome?_eq_none_iff.mpr fun lead isLead => ?_
    obtain ⟨longer, isFromEnd, isStolen⟩ := Option.bind_eq_some_iff.mp (Option.mem_toList.mp isLead)
    obtain ⟨rest, behind, rfl⟩ := Option.map_eq_some_iff.mp isStolen
    exact notLonger longer rest isFromEnd behind
  rw [Ordinal.leads_append, List.findSome?_append, noneBefore, Option.none_or, List.findSome?_cons]
  dsimp only
  cases isHere : form ordinal line with
  | some result => rfl
  | none =>
      refine List.findSome?_eq_none_iff.mpr fun lead isLead => ?_
      obtain ⟨shorter, -, rfl⟩ := Option.map_eq_some_iff.mp (Option.mem_toList.mp isLead)
      exact notShorter isHere shorter

/-- The words for a longer ordinal, followed by a sought sound, are read as such. -/
theorem read_ne_of_isStolen {text : Text} (isLine : IsPhrase text)
    (isOrdinal : target.ordinal = ordinal.number)
    (stolen : isStolen target.ordinal text = true) :
    read (ordinal.name ++ ' ' :: text) ≠
      .ok { test := .seek, negated, seek := some target, pattern := some pattern } := by
  obtain ⟨longer, rest, isFromEnd, behind, isThere⟩ := (isStolen_iff isOrdinal text).mp stolen
  rw [read_ordinal]
  cases isSyllable : readSyllable (ordinal.name ++ ' ' :: text) with
  | some result =>
      obtain ⟨⟨lead, tail⟩, -, isPart⟩ := List.exists_of_findSome?_eq_some isSyllable
      exact syllablePart?_ne_seek (show syllablePart? lead tail = some result from isPart) rfl
  | none =>
      have isRest : IsPhrase rest := by
        have isText := after?_eq_some.mp behind
        subst isText
        exact isLine.behind "to last" (by decide)
      obtain ⟨front, back, rfl⟩ := occursIn_iff.mp isThere
      have frontSome : front ≠ [] := by
        rintro rfl
        have solid := isRest.head_solid rfl
        cases solid
      have backSome : back ≠ [] := by
        rintro rfl
        have isLast : (front ++ (" is ".toList ++ [])).getLast? = some ' ' := by
          rw [List.getLast?_append]
          rfl
        have solid := isRest.last_solid isLast
        cases solid
      obtain ⟨head, said, isCut, -⟩ := cutAtIs?_append frontSome
        (fun isMember => isRest.noFeed (List.mem_append_left _ isMember))
        (denial?_isSome backSome fun isMember => isRest.noFeed
          (List.mem_append_right _ (List.mem_append_right _ isMember)))
      obtain ⟨result, isResult⟩ : ∃ result,
          soughtSound? longer (front ++ (" is ".toList ++ back)) = some result := by
        unfold soughtSound?
        exact ⟨_, congrArg (Option.bind · _) isCut⟩
      have isSeek : readSeek (ordinal.name ++ ' ' :: text) = some result := by
        rw [readSeek_eq, Ordinal.leads_append, isFromEnd, behind, Option.bind_some,
          Option.map_some, Option.toList_some, List.singleton_append, List.findSome?_cons]
        dsimp only
        rw [isResult]
      rw [isSeek, Option.none_or, Option.getD_some]
      rintro rfl
      obtain ⟨found, denied, line, sought, known, isFound, isSought, -, same⟩ :=
        soughtSound?_eq_some isResult
      have sameTarget : target = sought := Option.some.inj (congrArg Predicate.seek same)
      have noLonger : longer.fromEnd? = none := by cases ordinal <;> cases isFromEnd <;> rfl
      rw [SeekTarget.read_append longer (squeeze_ne_nil_of_cut isRest isFound), noLonger,
        Option.bind_none, Except.ok.injEq, ← sameTarget] at isSought
      have isNumber := congrArg SeekTarget.ordinal isSought
      rw [isOrdinal] at isNumber
      rw [Ordinal.number_injective isNumber] at noLonger
      rw [noLonger] at isFromEnd
      cases isFromEnd

/-- What is not read as a longer ordinal and a sought sound is not read as a longer
ordinal at all. -/
theorem eq_none_of_not_stolen (isOrdinal : target.ordinal = ordinal.number)
    (isWhole : isStolen target.ordinal (seekLine negated target pattern) = false)
    {longer : Ordinal} {rest : Text} (isFromEnd : ordinal.fromEnd? = some longer)
    (behind : after? "to last " (seekLine negated target pattern) = some rest) :
    syllablePart? longer rest = none ∧ soughtSound? longer rest = none := by
  have noIs : occursIn " is " rest = false := by
    cases isThere : occursIn " is " rest with
    | false => rfl
    | true =>
        have stolen := (isStolen_iff isOrdinal _).mpr ⟨longer, rest, isFromEnd, behind, isThere⟩
        rw [isWhole] at stolen
        cases stolen
  refine ⟨syllablePart?_eq_none fun part => ?_, soughtSound?_eq_none noIs⟩
  rcases after?_seekLine behind with isThere | starts
  · rw [noIs] at isThere
    cases isThere
  · obtain ⟨tail, rfl⟩ := startsWith_iff.mp starts
    exact startsWith_eq_false.mpr (after?_eq_none (by cases part <;> decide) tail)

/-- Where the words behind an ordinal do not make a longer one of it, what they say of a
syllable is asked of that ordinal alone. -/
theorem readSyllable_seekLine (isOrdinal : target.ordinal = ordinal.number)
    (isWhole : isStolen target.ordinal (seekLine negated target pattern) = false) :
    readSyllable (ordinal.name ++ ' ' :: seekLine negated target pattern) =
      syllablePart? ordinal (seekLine negated target pattern) := by
  refine findSome?_leads syllablePart? (fun longer rest isFromEnd behind =>
    (eq_none_of_not_stolen isOrdinal isWhole isFromEnd behind).1) fun _ shorter => ?_
  exact syllablePart?_eq_none fun part =>
    startsWith_eq_false.mpr (after?_eq_none (by cases part <;> decide) _)

/-- And so is what they say of a sought sound. -/
theorem readSeek_seekLine (isOrdinal : target.ordinal = ordinal.number)
    (isWhole : isStolen target.ordinal (seekLine negated target pattern) = false)
    {result : Except ReadingFault Predicate}
    (isResult : soughtSound? ordinal (seekLine negated target pattern) = some result) :
    readSeek (ordinal.name ++ ' ' :: seekLine negated target pattern) = some result := by
  refine (findSome?_leads soughtSound? (fun longer rest isFromEnd behind =>
    (eq_none_of_not_stolen isOrdinal isWhole isFromEnd behind).2) fun isNone => ?_).trans isResult
  rw [isResult] at isNone
  cases isNone

/-- The class of a target that is not read as a longer ordinal does not begin with what
makes one. -/
theorem isPlain_of_not_stolen
    (isWhole : isStolen target.ordinal (seekLine negated target pattern) = false) :
    target.isPlain = (afterArticle? target.className).isNone := by
  have notLonger : ((target.ordinal == 2 || target.ordinal == 3) &&
      startsWith "to last " target.className) = false := by
    rw [Bool.and_eq_false_imp]
    intro isEarly
    rw [isStolen, isEarly, Bool.true_and] at isWhole
    cases starts : startsWith "to last " target.className with
    | false => rfl
    | true =>
        obtain ⟨rest, isName⟩ := startsWith_iff.mp starts
        rw [seekLine, isName, List.append_assoc, after?_append, Option.any_some] at isWhole
        have isThere : occursIn " is " (rest ++ ' ' ::
            ("is".toList ++ ' ' :: (denial negated ++ pattern.print))) = true :=
          occursIn_iff.mpr ⟨rest, _, rfl⟩
        rw [isThere] at isWhole
        cases isWhole
  rw [SeekTarget.isPlain, notLonger, Bool.not_false, Bool.and_true]

/-- The printed form of a test of a sought sound is read as that test, if and only if it
is plain. -/
theorem read_seek_iff (isTarget : target.IsRead) (isOrdinal : target.ordinal = ordinal.number)
    (isClass : IsPhrase target.className) (isPattern : pattern.IsRead)
    (isPhrase : IsPhrase pattern.print) :
    read (ordinal.name ++ ' ' :: seekLine negated target pattern) =
        .ok { test := .seek, negated, seek := some target, pattern := some pattern } ↔
      isPlainSeek negated target pattern = true := by
  have isLine := isPhrase_seekLine negated isClass isPhrase
  unfold isPlainSeek
  dsimp only
  cases isWhole : isStolen target.ordinal (seekLine negated target pattern) with
  | true =>
      rw [Bool.not_true, Bool.and_false]
      exact iff_of_false (read_ne_of_isStolen isLine isOrdinal isWhole) Bool.false_ne_true
  | false =>
      obtain ⟨result, isResult, plain⟩ := soughtSound?_seekLine negated isTarget
        isOrdinal isClass isPattern isPhrase
      rw [read_ordinal, readSyllable_seekLine isOrdinal isWhole,
        readSeek_seekLine isOrdinal isWhole isResult]
      cases anyPart : [SyllablePart.anywhere, .ending].any fun part =>
          startsWith part.lead (seekLine negated target pattern) with
      | true =>
          obtain ⟨part, -, starts⟩ := List.any_eq_true.mp anyPart
          obtain ⟨line, isText⟩ := startsWith_iff.mp starts
          have isPart : IsPhrase line := by
            rw [isText] at isLine
            cases part with
            | anywhere => exact isLine.behind "syllable contains" (by decide)
            | ending => exact isLine.behind "syllable ends with" (by decide)
          have isRead := syllablePart?_lead ordinal part isPart.singleLine?
          rw [← isText] at isRead
          rw [isRead, Option.some_or, Option.getD_some]
          refine iff_of_false (syllablePart?_ne_seek isRead rfl) ?_
          simp
      | false =>
          have isNone : syllablePart? ordinal (seekLine negated target pattern) = none := by
            refine syllablePart?_eq_none fun part => ?_
            have noPart := List.any_eq_false.mp anyPart part (by cases part <;> decide)
            simpa using noPart
          rw [isNone, Option.none_or, Option.getD_some, plain,
            isPlain_of_not_stolen isWhole]
          simp [and_assoc]

end

def isPlain (predicate : Predicate) : Bool :=
  match predicate.test with
  | .sound _ | .wordEdge _ =>
    predicate.pattern.all fun pattern => pattern.isPlainBehind predicate.negated
  | .syllable _ => predicate.pattern.all SoundPattern.isPlain
  | .seek =>
    predicate.seek.all fun target =>
      predicate.pattern.all fun pattern => isPlainSeek predicate.negated target pattern
  | _ => true

/-- The printed form of a predicate that was read is read as that predicate, if and only
if the predicate is plain. -/
theorem read_print_iff {predicate : Predicate} (isRead : predicate.IsRead) :
    read predicate.print = .ok predicate ↔ predicate.isPlain = true := by
  cases isRead with
  | otherwise => exact iff_of_true rfl rfl
  | @sound place negated pattern isPattern isPhrase =>
      rw [print_sound]
      exact read_sound_iff place negated isPattern isPhrase
  | atEdge edge negated => exact iff_of_true (read_atEdge edge negated) rfl
  | inStressedSyllable negated =>
      rw [print_inStressedSyllable]
      exact iff_of_true (read_inStressedSyllable negated) rfl
  | @wordEdge edge negated pattern isPattern isPhrase =>
      rw [print_wordEdge]
      exact read_wordEdge_iff edge negated isPattern isPhrase
  | @syllableCount comparison number fits =>
      exact iff_of_true (read_syllableCount comparison fits) rfl
  | @wordClass negated name isPhrase noQuote affirmed =>
      rw [print_wordClass]
      exact iff_of_true (read_wordClass isPhrase noQuote affirmed) rfl
  | stressOn ordinal =>
      rw [print_stressOn]
      exact iff_of_true (read_stressOn ordinal) rfl
  | @syllable part ordinal pattern isPattern isPhrase =>
      rw [print_syllable]
      exact read_syllable_iff part ordinal isPattern isPhrase
  | @seek negated target pattern isTarget isClass isPattern isPhrase =>
      obtain ⟨ordinal, isOrdinal⟩ := isTarget.ordinal
      rw [print_seek negated isTarget isOrdinal]
      exact read_seek_iff isTarget isOrdinal isClass isPattern isPhrase

end Predicate

end Diachrony
