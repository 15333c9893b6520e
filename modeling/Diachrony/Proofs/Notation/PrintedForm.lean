import Diachrony.Proofs.Notation.Predicate

/-!
# Printed predicates

The printed form of a predicate that was read is a phrase.  Each form of the notation
tells from the words that a phrase begins with that it is not of this form, and so the
printed form of a test is read by the form of that test.
-/
namespace Diachrony

open Text (after? after?_eq_some after?_append after?_eq_none partWays startsWith
  startsWith_eq_false isLineEnd quoteMark occursIn)

namespace Predicate

theorem isPhrase_denial {line : Text} (isPhrase : IsPhrase line) (negated : Bool) :
    IsPhrase (denial negated ++ line) := by
  cases negated with
  | false => exact isPhrase
  | true =>
      have isWord : IsPhrase "not" := .word (by decide)
      exact isWord.append isPhrase

theorem isPhrase_lead (words : List Text) (isSome : words ≠ [])
    (areWords : ∀ word ∈ words, IsWord word) {line : Text} (isPhrase : IsPhrase line) :
    IsPhrase (Text.joinWith [' '] words ++ ' ' :: line) :=
  (IsPhrase.of_words words isSome areWords).append isPhrase

theorem isWord_ofNat (number : Nat) : IsWord (Text.ofNat number) := by
  have isDigit : ∀ char ∈ Text.ofNat number, 48 ≤ char.toNat ∧ char.toNat ≤ 57 := by
    intro char isMember
    have isDigit := Nat.isDigit_of_mem_toDigits (by decide) (by decide) isMember
    simp only [Char.isDigit, Bool.and_eq_true, decide_eq_true_eq, ge_iff_le,
      UInt32.le_iff_toNat_le] at isDigit
    exact isDigit
  have solid : ∀ char : Char, 48 ≤ char.toNat ∧ char.toNat ≤ 57 → Text.isBlank char = false := by
    intro char isDigit
    simp only [Text.isBlank, Bool.or_eq_false_iff, Bool.and_eq_false_iff,
      decide_eq_false_iff_not, beq_eq_false_iff_ne]
    omega
  have isNot : ∀ char other : Char, 48 ≤ char.toNat ∧ char.toNat ≤ 57 →
      ¬(48 ≤ other.toNat ∧ other.toNat ≤ 57) → char ≠ other := by
    rintro char _ isDigit notDigit rfl
    exact notDigit isDigit
  refine ⟨Nat.toDigits_ne_nil, ?_, ?_, fun char isMember =>
    Text.isLineBreak_of_solid (solid char (isDigit char isMember))⟩
  · refine holdsTogether_of_solid fun char isMember => ?_
    have isHere := isDigit char isMember
    exact ⟨solid char isHere, isNot char quoteMark isHere (by decide),
      isNot char '(' isHere (by decide), isNot char ')' isHere (by decide)⟩
  · have noNumber : ∀ reserved ∈ (["and", "or", "(", ")"] : List Text),
        ¬∀ char ∈ reserved, 48 ≤ char.toNat ∧ char.toNat ≤ 57 := by
      decide
    simp only [Condition.isWord, Bool.not_eq_true', List.contains_eq_mem, decide_eq_false_iff_not]
    exact fun isReserved => noNumber _ isReserved isDigit

theorem print_sound (place : SoundPlace) (negated : Bool) (pattern : SoundPattern) :
    ({ test := .sound place, negated, pattern := some pattern } : Predicate).print =
      place.lead ++ (denial negated ++ pattern.print) :=
  List.append_assoc _ _ _

theorem print_inStressedSyllable (negated : Bool) :
    ({ test := .inStressedSyllable, negated } : Predicate).print =
      "syllable is ".toList ++ (denial negated ++ "stressed".toList) :=
  List.append_assoc _ _ _

theorem print_wordEdge (edge : WordEdge) (negated : Bool) (pattern : SoundPattern) :
    ({ test := .wordEdge edge, negated, pattern := some pattern } : Predicate).print =
      edge.lead ++ (denial negated ++ pattern.print) :=
  List.append_assoc _ _ _

theorem print_wordClass (negated : Bool) (name : Text) :
    ({ test := .wordClass, value := some name, negated } : Predicate).print =
      "word is ".toList ++ (denial negated ++ name) :=
  List.append_assoc _ _ _

theorem print_stressOn (ordinal : Ordinal) :
    ({ test := .stressOn, ordinal := some ordinal.number } : Predicate).print =
      "stress is on ".toList ++ (ordinal.name ++ " syllable".toList) := by
  unfold print
  dsimp only
  rw [Ordinal.nameOf_number, List.append_assoc]

theorem print_syllable (part : SyllablePart) (ordinal : Ordinal) (pattern : SoundPattern) :
    ({ test := .syllable part, ordinal := some ordinal.number, pattern := some pattern } :
      Predicate).print = ordinal.name ++ ' ' :: (part.lead ++ pattern.print) := by
  unfold print
  dsimp only
  rw [Ordinal.nameOf_number, List.append_assoc]
  rfl

/-- What stands behind the ordinal in the printed form of a test of a sought sound. -/
def seekLine (negated : Bool) (target : SeekTarget) (pattern : SoundPattern) : Text :=
  target.className ++ ' ' :: ("is".toList ++ ' ' :: (denial negated ++ pattern.print))

theorem print_seek (negated : Bool) {target : SeekTarget} (isRead : target.IsRead)
    {ordinal : Ordinal} (isOrdinal : target.ordinal = ordinal.number) (pattern : SoundPattern) :
    ({ test := .seek, negated, seek := some target, pattern := some pattern } :
      Predicate).print = ordinal.name ++ ' ' :: seekLine negated target pattern := by
  unfold print seekLine
  simp only [Option.map_some, Option.getD_some, SeekTarget.print_eq isRead isOrdinal,
    List.append_assoc, List.cons_append]
  rfl

theorem isPhrase_seekLine (negated : Bool) {target : SeekTarget} {pattern : SoundPattern}
    (isClass : IsPhrase target.className) (isPhrase : IsPhrase pattern.print) :
    IsPhrase (seekLine negated target pattern) :=
  isClass.append (isPhrase_lead ["is"] (by decide) (by decide) (isPhrase_denial isPhrase negated))

theorem isPhrase_syllableCount (comparison : Comparison) (number : Nat) :
    IsPhrase (comparison.lead ++ Text.ofNat number) := by
  have isRest : IsPhrase (Text.ofNat number) := .word (isWord_ofNat number)
  cases comparison with
  | equal => exact isPhrase_lead ["number", "of", "syllables", "is"] (by decide) (by decide) isRest
  | different =>
      exact isPhrase_lead ["number", "of", "syllables", "is", "not"] (by decide) (by decide) isRest
  | atLeast =>
      exact isPhrase_lead ["number", "of", "syllables", "is", "at", "least"] (by decide)
        (by decide) isRest

theorem isPhrase_print {predicate : Predicate} (isRead : predicate.IsRead) :
    IsPhrase predicate.print := by
  cases isRead with
  | otherwise => exact .word (by decide)
  | @sound place negated pattern isPattern isPhrase =>
      have isRest := isPhrase_denial isPhrase negated
      rw [print_sound]
      cases place with
      | here => exact isPhrase_lead ["sound", "is"] (by decide) (by decide) isRest
      | next => exact isPhrase_lead ["next", "sound", "is"] (by decide) (by decide) isRest
      | previous => exact isPhrase_lead ["previous", "sound", "is"] (by decide) (by decide) isRest
  | atEdge edge negated =>
      have isEdge : IsPhrase edge.place := by
        cases edge with
        | beginning =>
            exact IsPhrase.of_words (["beginning", "of", "word"]) (by decide) (by decide)
        | ending => exact IsPhrase.of_words (["end", "of", "word"]) (by decide) (by decide)
      exact isPhrase_denial isEdge negated
  | inStressedSyllable negated =>
      have isRest : IsPhrase (denial negated ++ "stressed".toList) :=
        isPhrase_denial (.word (by decide)) negated
      rw [print_inStressedSyllable]
      exact isPhrase_lead ["syllable", "is"] (by decide) (by decide) isRest
  | @wordEdge edge negated pattern isPattern isPhrase =>
      have isRest := isPhrase_denial isPhrase negated
      rw [print_wordEdge]
      cases edge with
      | beginning => exact isPhrase_lead ["word", "begins", "with"] (by decide) (by decide) isRest
      | ending => exact isPhrase_lead ["word", "ends", "with"] (by decide) (by decide) isRest
  | @syllableCount comparison number fits => exact isPhrase_syllableCount comparison number
  | @wordClass negated name isPhrase noQuote affirmed =>
      rw [print_wordClass]
      exact isPhrase_lead ["word", "is"] (by decide) (by decide) (isPhrase_denial isPhrase negated)
  | stressOn ordinal =>
      rw [print_stressOn]
      exact isPhrase_lead ["stress", "is", "on"] (by decide) (by decide)
        (ordinal.isPhrase_name.append (.word (by decide)))
  | @syllable part ordinal pattern isPattern isPhrase =>
      rw [print_syllable]
      refine ordinal.isPhrase_name.append ?_
      cases part with
      | anywhere => exact isPhrase_lead ["syllable", "contains"] (by decide) (by decide) isPhrase
      | ending =>
          exact isPhrase_lead ["syllable", "ends", "with"] (by decide) (by decide) isPhrase
  | @seek negated target pattern isTarget isClass isPattern isPhrase =>
      obtain ⟨ordinal, isOrdinal⟩ := isTarget.ordinal
      rw [print_seek negated isTarget isOrdinal]
      exact ordinal.isPhrase_name.append (isPhrase_seekLine negated isClass isPhrase)

variable {lead : Text}

theorem read_of_ne_otherwise (apart : after? lead "otherwise" = none) (rest : Text) :
    read (lead ++ rest) = (forms.findSome? fun form => form (lead ++ rest)).getD
      (.error (.unrecognizedCondition (lead ++ rest))) := by
  unfold read
  rw [if_neg]
  intro isOtherwise
  rw [← isOtherwise, after?_append] at apart
  cases apart

theorem readSound_eq_none
    (apart : ([SoundPlace.next, .previous, .here].all fun place => partWays place.lead lead) = true)
    (rest : Text) : readSound (lead ++ rest) = none := by
  refine List.findSome?_eq_none_iff.mpr fun place isPlace => ?_
  rw [after?_eq_none (List.all_eq_true.mp apart place isPlace)]
  rfl

theorem readAtEdge_eq_none
    (apart : ([true, false].all fun negated => [WordEdge.beginning, .ending].all fun edge =>
      partWays (denial negated ++ edge.place) lead) = true)
    (rest : Text) : readAtEdge (lead ++ rest) = none := by
  refine List.findSome?_eq_none_iff.mpr fun negated isNegated => ?_
  refine List.findSome?_eq_none_iff.mpr fun edge isEdge => ?_
  have differs := List.all_eq_true.mp (List.all_eq_true.mp apart negated isNegated) edge isEdge
  rw [after?_eq_none differs]
  rfl

theorem readInStressedSyllable_eq_none
    (apart : ([true, false].all fun negated =>
      partWays ("syllable is " ++ denial negated ++ "stressed") lead) = true)
    (rest : Text) : readInStressedSyllable (lead ++ rest) = none := by
  refine List.findSome?_eq_none_iff.mpr fun negated isNegated => ?_
  rw [after?_eq_none (List.all_eq_true.mp apart negated isNegated)]
  rfl

theorem readWordEdge_eq_none
    (apart : ([WordEdge.ending, .beginning].all fun edge => partWays edge.lead lead) = true)
    (rest : Text) : readWordEdge (lead ++ rest) = none := by
  refine List.findSome?_eq_none_iff.mpr fun edge isEdge => ?_
  rw [after?_eq_none (List.all_eq_true.mp apart edge isEdge)]
  rfl

theorem readSyllableCount_eq_none
    (apart : ([Comparison.different, .atLeast, .equal].all fun comparison =>
      partWays comparison.lead lead) = true)
    (rest : Text) : readSyllableCount (lead ++ rest) = none := by
  refine List.findSome?_eq_none_iff.mpr fun comparison isComparison => ?_
  rw [after?_eq_none (List.all_eq_true.mp apart comparison isComparison)]
  rfl

theorem readWordClass_eq_none (apart : partWays "word is " lead = true) (rest : Text) :
    readWordClass (lead ++ rest) = none := by
  unfold readWordClass
  rw [after?_eq_none apart]
  rfl

theorem readStressOn_eq_none (apart : partWays "stress is on " lead = true) (rest : Text) :
    readStressOn (lead ++ rest) = none := by
  unfold readStressOn
  rw [after?_eq_none apart]
  rfl

end Predicate

/-- A pattern that, behind a denial or none, is read as it is printed. -/
def SoundPattern.isPlainBehind (negated : Bool) (pattern : SoundPattern) : Bool :=
  pattern.isPlain && (negated || !startsWith "not " pattern.print)

namespace Predicate

theorem withPattern_iff (test : Test) (seek : Option SeekTarget) {pattern : SoundPattern}
    {text : Text} {negated other : Bool} (isPattern : pattern.IsRead)
    (sameRest : other = negated → text = pattern.print)
    (sameDenial : other = negated ↔ (negated || !startsWith "not " pattern.print) = true) :
    withPattern { test, negated := other, seek } text =
        .ok { test, negated, pattern := some pattern, seek } ↔
      pattern.isPlainBehind negated = true := by
  unfold SoundPattern.isPlainBehind
  rw [Bool.and_eq_true, ← sameDenial, ← SoundPattern.read_print_iff isPattern]
  constructor
  · intro gave
    obtain ⟨found, isFound, same⟩ := withPattern_eq_ok gave
    simp only [mk.injEq, Option.some.injEq, true_and, and_true] at same
    obtain ⟨rfl, rfl⟩ := same
    exact ⟨sameRest rfl ▸ isFound, rfl⟩
  · rintro ⟨isFound, rfl⟩
    unfold withPattern
    rw [sameRest rfl, isFound]
    rfl

theorem readSound_lead (place : SoundPlace) (text : Text) :
    readSound (place.lead ++ text) = (denial? text).map fun said =>
      withPattern { test := .sound place, negated := said.1 } said.2 := by
  unfold readSound
  have others : ∀ other : SoundPlace, partWays other.lead place.lead = true →
      after? other.lead (place.lead ++ text) = none := fun other apart => after?_eq_none apart text
  cases place with
  | next =>
      rw [List.findSome?_cons, after?_append]
      cases isDenial : denial? text with
      | none => simp [isDenial, others .previous (by decide), others .here (by decide)]
      | some said => simp [isDenial]
  | previous =>
      rw [List.findSome?_cons, others .next (by decide), List.findSome?_cons, after?_append]
      cases isDenial : denial? text with
      | none => simp [isDenial, others .here (by decide)]
      | some said => simp [isDenial]
  | here =>
      rw [List.findSome?_cons, others .next (by decide), List.findSome?_cons,
        others .previous (by decide), List.findSome?_cons, after?_append]
      cases isDenial : denial? text <;> simp [isDenial]

theorem readWordEdge_lead (edge : WordEdge) (text : Text) :
    readWordEdge (edge.lead ++ text) = (denial? text).map fun said =>
      withPattern { test := .wordEdge edge, negated := said.1 } said.2 := by
  unfold readWordEdge
  have others : ∀ other : WordEdge, partWays other.lead edge.lead = true →
      after? other.lead (edge.lead ++ text) = none := fun other apart => after?_eq_none apart text
  cases edge with
  | ending =>
      rw [List.findSome?_cons, after?_append]
      cases isDenial : denial? text with
      | none => simp [isDenial, others .beginning (by decide)]
      | some said => simp [isDenial]
  | beginning =>
      rw [List.findSome?_cons, others .ending (by decide), List.findSome?_cons, after?_append]
      cases isDenial : denial? text <;> simp [isDenial]

/-- What begins like a test of a sound is read as that test. -/
theorem read_sound_lead (place : SoundPlace) {text line : Text} {negated : Bool}
    (isDenial : denial? text = some (negated, line)) :
    read (place.lead ++ text) = withPattern { test := .sound place, negated } line := by
  have notOtherwise : after? place.lead "otherwise" = none := by cases place <;> decide
  rw [read_of_ne_otherwise notOtherwise, forms, List.findSome?_cons, readSound_lead, isDenial]
  rfl

/-- What begins like a test of the edge of a word is read as that test. -/
theorem read_wordEdge_lead (edge : WordEdge) {text line : Text} {negated : Bool}
    (isDenial : denial? text = some (negated, line)) :
    read (edge.lead ++ text) = withPattern { test := .wordEdge edge, negated } line := by
  have notOtherwise : after? edge.lead "otherwise" = none := by cases edge <;> decide
  rw [read_of_ne_otherwise notOtherwise, forms, List.findSome?_cons,
    readSound_eq_none (by cases edge <;> decide), List.findSome?_cons,
    readAtEdge_eq_none (by cases edge <;> decide), List.findSome?_cons,
    readInStressedSyllable_eq_none (by cases edge <;> decide), List.findSome?_cons,
    readWordEdge_lead, isDenial]
  rfl

theorem read_sound_iff (place : SoundPlace) (negated : Bool) {pattern : SoundPattern}
    (isPattern : pattern.IsRead) (isPhrase : IsPhrase pattern.print) :
    read (place.lead ++ (denial negated ++ pattern.print)) =
        .ok { test := .sound place, negated, pattern := some pattern } ↔
      pattern.isPlainBehind negated = true := by
  obtain ⟨other, rest, isDenial, sameRest, sameDenial⟩ := denial?_append isPhrase negated
  rw [read_sound_lead place isDenial]
  exact withPattern_iff _ none isPattern sameRest sameDenial

theorem read_wordEdge_iff (edge : WordEdge) (negated : Bool) {pattern : SoundPattern}
    (isPattern : pattern.IsRead) (isPhrase : IsPhrase pattern.print) :
    read (edge.lead ++ (denial negated ++ pattern.print)) =
        .ok { test := .wordEdge edge, negated, pattern := some pattern } ↔
      pattern.isPlainBehind negated = true := by
  obtain ⟨other, rest, isDenial, sameRest, sameDenial⟩ := denial?_append isPhrase negated
  rw [read_wordEdge_lead edge isDenial]
  exact withPattern_iff _ none isPattern sameRest sameDenial

theorem read_atEdge (edge : WordEdge) (negated : Bool) :
    read (denial negated ++ edge.place) = .ok { test := .atEdge edge, negated } := by
  cases edge <;> cases negated <;> rfl

theorem read_inStressedSyllable (negated : Bool) :
    read ("syllable is ".toList ++ (denial negated ++ "stressed".toList)) =
      .ok { test := .inStressedSyllable, negated } := by
  cases negated <;> rfl

theorem read_stressOn (ordinal : Ordinal) :
    read ("stress is on ".toList ++ (ordinal.name ++ " syllable".toList)) =
      .ok { test := .stressOn, ordinal := some ordinal.number } := by
  cases ordinal <;> rfl

theorem read_wordClass {negated : Bool} {name : Text} (isPhrase : IsPhrase name)
    (noQuote : quoteMark ∉ name) (affirmed : negated = false → startsWith "not " name = false) :
    read ("word is ".toList ++ (denial negated ++ name)) =
      .ok { test := .wordClass, value := some name, negated } := by
  obtain ⟨other, rest, isDenial, sameRest, sameDenial⟩ := denial?_append isPhrase negated
  have isSame : other = negated := by
    rw [sameDenial]
    cases negated with
    | true => rfl
    | false => rw [affirmed rfl]; rfl
  rw [sameRest isSame, isSame] at isDenial
  rw [read_of_ne_otherwise (by decide), forms, List.findSome?_cons,
    readSound_eq_none (by decide), List.findSome?_cons,
    readAtEdge_eq_none (by decide), List.findSome?_cons,
    readInStressedSyllable_eq_none (by decide), List.findSome?_cons,
    readWordEdge_eq_none (by decide), List.findSome?_cons,
    readSyllableCount_eq_none (by decide), List.findSome?_cons]
  unfold readWordClass
  rw [after?_append, Option.bind_some, isDenial]
  simp [isPhrase.trim, noQuote]

/-- The test that some digits make of a comparison, or the complaint that they are too many. -/
def countOf (comparison : Comparison) (digits : Text) : Except ReadingFault Predicate :=
  match Text.toNat? digits with
  | some number => .ok { test := .syllableCount, comparison, number := some (number : Int) }
  | none => .error (.numberTooLong digits.length)

section

variable {digits : Text} (areDecimal : ∀ char ∈ digits, (Text.digitValue? char).isSome = true)

include areDecimal

theorem after?_digits {char : Char} (notDigit : Text.digitValue? char = none) (lead : Text) :
    after? (char :: lead) digits = none := by
  cases behind : after? (char :: lead) digits with
  | none => rfl
  | some rest =>
      have isMember : char ∈ digits := by
        rw [after?_eq_some.mp behind]
        exact List.mem_cons_self
      have isDigit := areDecimal char isMember
      rw [notDigit] at isDigit
      cases isDigit

variable (isSome : digits ≠ [])

include isSome

theorem readSyllableCount_lead (comparison : Comparison) :
    readSyllableCount (comparison.lead ++ digits) = some (countOf comparison digits) := by
  have isTaken := List.takeWhile_eq_self_iff.mpr areDecimal
  have isDropped := List.dropWhile_eq_nil_iff.mpr areDecimal
  have isSome : digits.isEmpty = false := by simpa [List.isEmpty_iff] using isSome
  have others : ∀ other : Comparison, partWays other.lead comparison.lead = true →
      after? other.lead (comparison.lead ++ digits) = none :=
    fun other apart => after?_eq_none apart _
  have longer : ∀ (other : Comparison) (char : Char) (more : Text),
      other.lead = Comparison.equal.lead ++ char :: more → Text.digitValue? char = none →
      after? other.lead (Comparison.equal.lead ++ digits) = none := by
    intro other char more isLead notDigit
    rw [isLead, Text.after?_append_lead, after?_append]
    exact after?_digits areDecimal notDigit more
  cases comparison with
  | different =>
      simp only [readSyllableCount, List.findSome?_cons, after?_append, Option.bind_eq_bind,
        Option.bind_some, isTaken, isDropped, isSome, countOf]
      cases Text.toNat? digits <;> rfl
  | atLeast =>
      simp only [readSyllableCount, List.findSome?_cons, others .different (by decide),
        after?_append, Option.bind_eq_bind, Option.bind_none, Option.bind_some, isTaken, isDropped,
        isSome, countOf]
      cases Text.toNat? digits <;> rfl
  | equal =>
      simp only [readSyllableCount, List.findSome?_cons,
        longer .different 'n' "ot ".toList rfl (by decide),
        longer .atLeast 'a' "t least ".toList rfl (by decide),
        after?_append, Option.bind_eq_bind, Option.bind_none, Option.bind_some, isTaken, isDropped,
        isSome, countOf]
      cases Text.toNat? digits <;> rfl

/-- What begins like a count of syllables and goes on with digits is read as one. -/
theorem read_count_lead (comparison : Comparison) :
    read (comparison.lead ++ digits) = countOf comparison digits := by
  rw [read_of_ne_otherwise (by cases comparison <;> decide), forms, List.findSome?_cons,
    readSound_eq_none (by cases comparison <;> decide), List.findSome?_cons,
    readAtEdge_eq_none (by cases comparison <;> decide), List.findSome?_cons,
    readInStressedSyllable_eq_none (by cases comparison <;> decide), List.findSome?_cons,
    readWordEdge_eq_none (by cases comparison <;> decide), List.findSome?_cons,
    readSyllableCount_lead areDecimal isSome comparison]
  rfl

end

theorem read_syllableCount (comparison : Comparison) {number : Nat}
    (fits : number < 10 ^ Text.digitLimit) :
    read (comparison.lead ++ Text.ofNat number) =
      .ok { test := .syllableCount, comparison, number := some (number : Int) } := by
  rw [read_count_lead (fun _ => Text.isDecimal_of_mem_ofNat) (isWord_ofNat number).isSome, countOf,
    Text.toNat?_ofNat fits]

/-- What begins with an ordinal is read as a test of a syllable or of a sought sound. -/
theorem read_ordinal (ordinal : Ordinal) (text : Text) :
    read (ordinal.name ++ ' ' :: text) =
      ((readSyllable (ordinal.name ++ ' ' :: text)).or
        (readSeek (ordinal.name ++ ' ' :: text))).getD
          (.error (.unrecognizedCondition (ordinal.name ++ ' ' :: text))) := by
  rw [List.append_cons ordinal.name ' ' text,
    read_of_ne_otherwise (by cases ordinal <;> decide), forms, List.findSome?_cons,
    readSound_eq_none (by cases ordinal <;> decide), List.findSome?_cons,
    readAtEdge_eq_none (by cases ordinal <;> decide), List.findSome?_cons,
    readInStressedSyllable_eq_none (by cases ordinal <;> decide), List.findSome?_cons,
    readWordEdge_eq_none (by cases ordinal <;> decide), List.findSome?_cons,
    readSyllableCount_eq_none (by cases ordinal <;> decide), List.findSome?_cons,
    readWordClass_eq_none (by cases ordinal <;> decide), List.findSome?_cons,
    readStressOn_eq_none (by cases ordinal <;> decide), List.findSome?_cons]
  cases readSyllable (ordinal.name ++ [' '] ++ text) with
  | some result => rfl
  | none =>
      rw [List.findSome?_cons]
      cases readSeek (ordinal.name ++ [' '] ++ text) <;> rfl

def syllablePart? (ordinal : Ordinal) (text : Text) : Option (Except ReadingFault Predicate) :=
  [SyllablePart.anywhere, .ending].findSome? fun part => do
    let line ← (after? part.lead text).bind Text.singleLine?
    return withPattern { test := .syllable part, ordinal := some ordinal.number } line

theorem readSyllable_eq (text : Text) :
    readSyllable text =
      (Ordinal.leads text).findSome? fun (ordinal, rest) => syllablePart? ordinal rest :=
  rfl

theorem syllablePart?_eq_none {ordinal : Ordinal} {text : Text}
    (apart : ∀ part : SyllablePart, startsWith part.lead text = false) :
    syllablePart? ordinal text = none := by
  refine List.findSome?_eq_none_iff.mpr fun part _ => ?_
  rw [startsWith_eq_false.mp (apart part)]
  rfl

theorem syllablePart?_lead (ordinal : Ordinal) (part : SyllablePart) {line : Text}
    (isLine : Text.singleLine? line = some line) :
    syllablePart? ordinal (part.lead ++ line) =
      some (withPattern { test := .syllable part, ordinal := some ordinal.number } line) := by
  unfold syllablePart?
  cases part with
  | anywhere =>
      rw [List.findSome?_cons, after?_append, Option.bind_some, isLine]
      rfl
  | ending =>
      rw [List.findSome?_cons, after?_eq_none (by decide), List.findSome?_cons, after?_append,
        Option.bind_some, isLine]
      rfl

/-- What goes on behind an ordinal like a test of a syllable is read as that test. -/
theorem read_syllable_lead (part : SyllablePart) (ordinal : Ordinal) {line : Text}
    (isLine : Text.singleLine? line = some line) :
    read (ordinal.name ++ ' ' :: (part.lead ++ line)) =
      withPattern { test := .syllable part, ordinal := some ordinal.number } line := by
  have notStolen : after? "to last " (part.lead ++ line) = none :=
    after?_eq_none (by cases part <;> decide) _
  have isSyllable : readSyllable (ordinal.name ++ ' ' :: (part.lead ++ line)) =
      some (withPattern { test := .syllable part, ordinal := some ordinal.number } line) := by
    rw [readSyllable_eq, Ordinal.leads_of_whole ordinal notStolen, List.findSome?_cons]
    dsimp only
    rw [syllablePart?_lead ordinal part isLine]
  rw [read_ordinal, isSyllable, Option.some_or, Option.getD_some]

theorem read_syllable_iff (part : SyllablePart) (ordinal : Ordinal) {pattern : SoundPattern}
    (isPattern : pattern.IsRead) (isPhrase : IsPhrase pattern.print) :
    read (ordinal.name ++ ' ' :: (part.lead ++ pattern.print)) =
        .ok { test := .syllable part, ordinal := some ordinal.number, pattern := some pattern } ↔
      pattern.isPlain = true := by
  rw [read_syllable_lead part ordinal isPhrase.singleLine?,
    ← SoundPattern.read_print_iff isPattern]
  constructor
  · intro gave
    obtain ⟨found, isFound, same⟩ := withPattern_eq_ok gave
    cases same
    exact isFound
  · intro isFound
    unfold withPattern
    rw [isFound]
    rfl

end Predicate

end Diachrony
