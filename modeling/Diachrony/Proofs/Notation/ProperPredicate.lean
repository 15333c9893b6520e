import Diachrony.Proofs.Notation.PredicateRoundTrip

/-!
# Predicates that are put together

A predicate that was put together by hand need not have been read of any phrase.  Its printed
form is read as the same predicate where its parts are proper ones: a class is a row of
words of which none has another use in the notation, and a literal has something in it and
neither quote marks nor line feeds.  The one thing that is lost is a number of syllables with
more digits than are read.
-/
namespace Diachrony

open Text (after? startsWith startsWith_iff occursIn occursIn_iff quoteMark quoted isBlank joinWith
  words words_append_blank words_joinWith words_of_solid Tight)

theorem head_words {word : Text} {char : Char} (isSome : word ≠ [])
    (solid : ∀ char ∈ word, isBlank char = false) (blank : isBlank char = true) (rest : Text) :
    (words (word ++ char :: rest)).head? = some word := by
  rw [words_append_blank blank, words_of_solid isSome solid]
  rfl

/-- A text that begins with a word and a space has that word as its first one. -/
theorem head_words_of_startsWith (word more : Text) {text : Text} (isSome : word ≠ [])
    (solid : ∀ char ∈ word, isBlank char = false)
    (starts : startsWith (word ++ ' ' :: more) text = true) : (words text).head? = some word := by
  obtain ⟨rest, rfl⟩ := startsWith_iff.mp starts
  rw [List.append_assoc, List.cons_append]
  exact head_words isSome solid (by decide) _

/-- A word of a class expression: it has no blanks, quote marks or brackets, and is no
connective. -/
structure IsClassWord (word : Text) : Prop where
  isSome : word ≠ []
  solid : ∀ char ∈ word, isBlank char = false ∧ char ≠ quoteMark ∧ char ≠ '(' ∧ char ≠ ')'
  notConnective : word ∉ (["and", "or"] : List Text)

instance (word : Text) : Decidable (IsClassWord word) :=
  decidable_of_iff (word ≠ [] ∧
      (∀ char ∈ word, isBlank char = false ∧ char ≠ quoteMark ∧ char ≠ '(' ∧ char ≠ ')') ∧
      word ∉ (["and", "or"] : List Text))
    ⟨fun ⟨isSome, solid, notConnective⟩ => ⟨isSome, solid, notConnective⟩,
      fun ⟨isSome, solid, notConnective⟩ => ⟨isSome, solid, notConnective⟩⟩

theorem IsClassWord.isWord {word : Text} (isClassWord : IsClassWord word) : IsWord word where
  isSome := isClassWord.isSome
  together := holdsTogether_of_solid isClassWord.solid
  isWord := by
    have reserved : ∀ other ∈ (["and", "or", "(", ")"] : List Text),
        other ∈ (["and", "or"] : List Text) ∨ '(' ∈ other ∨ ')' ∈ other := by
      decide
    simp only [Condition.isWord, Bool.not_eq_true', List.contains_eq_mem, decide_eq_false_iff_not]
    intro isReserved
    rcases reserved _ isReserved with isConnective | isOpening | isClosing
    · exact isClassWord.notConnective isConnective
    · exact (isClassWord.solid _ isOpening).2.2.1 rfl
    · exact (isClassWord.solid _ isClosing).2.2.2 rfl
  oneLine char isMember := Text.isLineBreak_of_solid (isClassWord.solid char isMember).1

/-- A class expression: class words with one space between neighbours.  The first one is
neither an article nor a denial. -/
structure IsClassExpression (text : Text) (names : List Text) : Prop where
  isText : text = joinWith [' '] names
  isSome : names ≠ []
  areWords : ∀ name ∈ names, IsClassWord name
  leads : ∀ name ∈ names.head?, name ∉ (["a", "an", "not"] : List Text)

instance (text : Text) (names : List Text) : Decidable (IsClassExpression text names) :=
  decidable_of_iff (text = joinWith [' '] names ∧ names ≠ [] ∧
      (∀ name ∈ names, IsClassWord name) ∧
      ∀ name ∈ names.head?, name ∉ (["a", "an", "not"] : List Text))
    ⟨fun ⟨isText, isSome, areWords, leads⟩ => ⟨isText, isSome, areWords, leads⟩,
      fun ⟨isText, isSome, areWords, leads⟩ => ⟨isText, isSome, areWords, leads⟩⟩

namespace IsClassExpression

variable {text : Text} {names : List Text} (isClass : IsClassExpression text names)

include isClass

theorem words_eq : words text = names := by
  rw [isClass.isText]
  exact words_joinWith fun name isName => ⟨(isClass.areWords name isName).isSome,
    fun char isMember => ((isClass.areWords name isName).solid char isMember).1⟩

theorem isPhrase : IsPhrase text := by
  rw [isClass.isText]
  exact IsPhrase.of_words names isClass.isSome fun name isName =>
    (isClass.areWords name isName).isWord

theorem noQuote : quoteMark ∉ text := by
  intro isMember
  rw [isClass.isText] at isMember
  rcases Text.mem_joinWith isMember with isSpace | ⟨name, isName, inName⟩
  · exact absurd isSpace (by decide)
  · exact ((isClass.areWords name isName).solid _ inName).2.1 rfl

theorem tight : Tight text := isClass.isPhrase.tight isClass.noQuote

theorem noArticle : afterArticle? text = none := by
  cases behind : afterArticle? text with
  | none => rfl
  | some rest =>
      obtain ⟨article, isArticle, char, tail, rfl, blank, -⟩ := afterArticle?_eq_some behind
      have isSolid : ∀ article ∈ (["a", "an"] : List Text),
          article ≠ [] ∧ (∀ char ∈ article, isBlank char = false) ∧
            article ∈ (["a", "an", "not"] : List Text) := by
        decide
      obtain ⟨isSome, solid, isReserved⟩ := isSolid article isArticle
      have isFirst := head_words isSome solid blank tail
      rw [isClass.words_eq] at isFirst
      exact absurd isReserved (isClass.leads article isFirst)

theorem noDenial : startsWith "not " text = false := by
  cases starts : startsWith "not " text with
  | false => rfl
  | true =>
      have isFirst := head_words_of_startsWith "not" [] (by decide) (by decide) starts
      rw [isClass.words_eq] at isFirst
      exact absurd (by decide) (isClass.leads _ isFirst)

/-- Where no name is "is", no "is" stands in front of the one behind the class. -/
theorem notEarlier (noIs : "is".toList ∉ names) : occursIn " is " (text ++ " is") = false := by
  cases isThere : occursIn " is " (text ++ " is") with
  | false => rfl
  | true =>
      obtain ⟨front, back, isWhole⟩ := occursIn_iff.mp isThere
      have space : isBlank ' ' = true := by decide
      have isWord : words "is".toList = ["is".toList] := words_of_solid (by decide) (by decide)
      have areWords : names ++ ["is".toList] = words front ++ "is".toList :: words back := by
        calc names ++ ["is".toList] = words (text ++ ' ' :: "is".toList) := by
              rw [words_append_blank space, isClass.words_eq, isWord]
          _ = words (front ++ ' ' :: ("is".toList ++ ' ' :: back)) := congrArg words isWhole
          _ = words front ++ "is".toList :: words back := by
              rw [words_append_blank space, words_append_blank space, isWord]
              rfl
      rcases List.eq_nil_or_concat (words back) with isNone | ⟨others, last, areOthers⟩
      · have inBack : 's' ∈ back := by
          have isLast : (text ++ " is".toList).getLast? = some 's' := by
            rw [List.getLast?_append]
            rfl
          rw [isWhole, List.getLast?_append, List.getLast?_append] at isLast
          cases isEnd : back.getLast? with
          | none =>
              rw [isEnd] at isLast
              cases isLast
          | some char =>
              rw [isEnd] at isLast
              cases isLast
              exact List.mem_of_getLast? isEnd
        have inWords := Text.mem_squeeze_of_solid inBack (by decide)
        rw [Text.squeeze_eq, isNone] at inWords
        cases inWords
      · rw [areOthers, List.concat_eq_append, ← List.cons_append, ← List.append_assoc] at areWords
        have areNames := List.append_inj_left' areWords rfl
        exact absurd (areNames ▸ List.mem_append_right _ List.mem_cons_self) noIs

end IsClassExpression

namespace SoundPattern

/-- A proper pattern: a literal with something in it and without quote marks and line feeds, or
a class expression. -/
inductive IsProper : SoundPattern → Prop
  | literal {content : Text} (isSome : content ≠ []) (noQuote : quoteMark ∉ content)
      (noFeed : '\n' ∉ content) : IsProper { literal := some content }
  | soundClass {name : Text} {names : List Text} (isClass : IsClassExpression name names) :
      IsProper { soundClass := some name }

variable {pattern : SoundPattern}

theorem IsProper.isRead (isProper : pattern.IsProper) : pattern.IsRead := by
  cases isProper with
  | literal isSome noQuote noFeed => exact .literal isSome noQuote
  | soundClass isClass => exact .soundClass isClass.tight isClass.noQuote

theorem IsProper.isPlain (isProper : pattern.IsProper) : pattern.isPlain = true := by
  unfold SoundPattern.isPlain
  rw [Option.isNone_iff_eq_none]
  cases isProper with
  | literal => rfl
  | soundClass isClass => exact isClass.noArticle

theorem IsProper.read_print (isProper : pattern.IsProper) : read pattern.print = .ok pattern :=
  (read_print_iff isProper.isRead).mpr isProper.isPlain

theorem IsProper.print_isSome (isProper : pattern.IsProper) : pattern.print ≠ [] := by
  cases isProper with
  | literal => exact List.cons_ne_nil _ _
  | soundClass isClass => exact isClass.tight.isSome

theorem IsProper.print_noFeed (isProper : pattern.IsProper) : '\n' ∉ pattern.print := by
  cases isProper with
  | literal isSome noQuote noFeed => simp [print, quoted, noFeed, quoteMark]
  | soundClass isClass => exact isClass.isPhrase.noFeed

theorem IsProper.print_noDenial (isProper : pattern.IsProper) :
    startsWith "not " pattern.print = false := by
  cases isProper with
  | literal => rfl
  | soundClass isClass => exact isClass.noDenial

end SoundPattern

namespace SeekTarget

/-- A proper target: any sound, or a sound of a class whose name has no "is" in it, begins
neither with "to" nor with "syllable", and is not the word for any sound. -/
inductive IsProper : SeekTarget → Prop
  | anySound (ordinal : Ordinal) : IsProper { ordinal := ordinal.number }
  | soundClass (ordinal : Ordinal) {name : Text} {names : List Text}
      (isClass : IsClassExpression name names) (noIs : "is".toList ∉ names)
      (leads : ∀ first ∈ names.head?, first ∉ (["to", "syllable"] : List Text))
      (notAny : names ≠ ["sound".toList]) :
      IsProper { ordinal := ordinal.number, soundClass := some name }

variable {target : SeekTarget}

/-- The name for any sound is a class expression as well. -/
theorem IsProper.isClassName (isProper : target.IsProper) :
    ∃ names, IsClassExpression target.className names ∧ "is".toList ∉ names ∧
      ∀ first ∈ names.head?, first ∉ (["to", "syllable"] : List Text) := by
  cases isProper with
  | anySound ordinal =>
      have isClass : IsClassExpression SeekTarget.anySound ["sound"] := by decide
      exact ⟨_, isClass, by decide, by decide⟩
  | soundClass ordinal isClass noIs leads notAny => exact ⟨_, isClass, noIs, leads⟩

theorem IsProper.isOrdinal (isProper : target.IsProper) :
    ∃ ordinal : Ordinal, target.ordinal = ordinal.number := by
  cases isProper with
  | anySound ordinal => exact ⟨ordinal, rfl⟩
  | soundClass ordinal isClass noIs leads notAny => exact ⟨ordinal, rfl⟩

theorem IsProper.isRead (isProper : target.IsProper) : target.IsRead where
  ordinal := isProper.isOrdinal
  tight := by
    obtain ⟨names, isClass, -, -⟩ := isProper.isClassName
    exact isClass.tight
  notAny := by
    cases isProper with
    | anySound ordinal => exact fun isAny => nomatch isAny
    | soundClass ordinal isClass noIs leads notAny =>
        intro isAny
        have areNames := isClass.words_eq
        rw [Option.some.inj isAny] at areNames
        exact notAny (areNames.symm.trans (words_of_solid (by decide) (by decide)))

end SeekTarget

namespace Predicate

/-- A proper predicate: it has the parts that its test compares, which are proper ones, and no
others. -/
inductive IsProper : Predicate → Prop
  | otherwise : IsProper otherwise
  | sound (place : SoundPlace) (negated : Bool) {pattern : SoundPattern}
      (isPattern : pattern.IsProper) :
      IsProper { test := .sound place, negated, pattern := some pattern }
  | atEdge (edge : WordEdge) (negated : Bool) : IsProper { test := .atEdge edge, negated }
  | inStressedSyllable (negated : Bool) : IsProper { test := .inStressedSyllable, negated }
  | wordEdge (edge : WordEdge) (negated : Bool) {pattern : SoundPattern}
      (isPattern : pattern.IsProper) :
      IsProper { test := .wordEdge edge, negated, pattern := some pattern }
  | syllableCount (comparison : Comparison) (number : Nat) :
      IsProper { test := .syllableCount, comparison, number := some (number : Int) }
  | wordClass (negated : Bool) {name : Text} {names : List Text}
      (isClass : IsClassExpression name names) :
      IsProper { test := .wordClass, negated, value := some name }
  | stressOn (ordinal : Ordinal) :
      IsProper { test := .stressOn, ordinal := some ordinal.number }
  | syllable (part : SyllablePart) (ordinal : Ordinal) {pattern : SoundPattern}
      (isPattern : pattern.IsProper) :
      IsProper
        { test := .syllable part, ordinal := some ordinal.number, pattern := some pattern }
  | seek (negated : Bool) {target : SeekTarget} {pattern : SoundPattern}
      (isTarget : target.IsProper) (isPattern : pattern.IsProper) :
      IsProper { test := .seek, negated, seek := some target, pattern := some pattern }

variable {pattern : SoundPattern}

theorem denial?_denial {line : Text} (negated : Bool) (isSome : line ≠ []) (noFeed : '\n' ∉ line)
    (affirmed : startsWith "not " line = false) :
    denial? (denial negated ++ line) = some (negated, line) := by
  have isLine := singleLine?_of_noFeed isSome noFeed
  unfold denial?
  cases negated with
  | true =>
      have isText : denial true ++ line = "not ".toList ++ line := rfl
      rw [isText, Text.after?_append, Option.bind_some, isLine]
  | false =>
      have isText : denial false ++ line = line := rfl
      rw [isText, Text.startsWith_eq_false.mp affirmed, Option.bind_none, isLine]
      rfl

/-- A proper pattern is read behind a denial and without one. -/
theorem denial?_pattern (isPattern : pattern.IsProper) (negated : Bool) :
    denial? (denial negated ++ pattern.print) = some (negated, pattern.print) :=
  denial?_denial negated isPattern.print_isSome isPattern.print_noFeed isPattern.print_noDenial

theorem withPattern_print (isPattern : pattern.IsProper) (predicate : Predicate) :
    withPattern predicate pattern.print = .ok { predicate with pattern := some pattern } := by
  unfold withPattern
  rw [isPattern.read_print]
  rfl

section

variable {target : SeekTarget} (isTarget : target.IsProper)

include isTarget

/-- The words behind the ordinal of a proper target begin neither a longer ordinal nor a test of
a syllable. -/
theorem startsWith_seekLine (word more : Text)
    (isReserved : word ∈ (["to", "syllable"] : List Text)) (negated : Bool)
    (pattern : SoundPattern) :
    startsWith (word ++ ' ' :: more) (seekLine negated target pattern) = false := by
  obtain ⟨names, isClass, -, leads⟩ := isTarget.isClassName
  have isFirst : (words (seekLine negated target pattern)).head? = names.head? := by
    rw [seekLine, words_append_blank (by decide), isClass.words_eq]
    exact List.head?_append_of_ne_nil _ isClass.isSome
  have areSolid : ∀ word ∈ (["to", "syllable"] : List Text),
      word ≠ [] ∧ ∀ char ∈ word, isBlank char = false := by
    decide
  obtain ⟨isSome, solid⟩ := areSolid word isReserved
  cases starts : startsWith (word ++ ' ' :: more) (seekLine negated target pattern) with
  | false => rfl
  | true =>
      have isHere := head_words_of_startsWith word more isSome solid starts
      rw [isFirst] at isHere
      exact absurd isReserved (leads word isHere)

theorem isStolen_seekLine (negated : Bool) (pattern : SoundPattern) :
    isStolen target.ordinal (seekLine negated target pattern) = false := by
  have notLonger : after? "to last " (seekLine negated target pattern) = none :=
    Text.startsWith_eq_false.mp
      (startsWith_seekLine isTarget "to" "last " (by decide) negated pattern)
  rw [isStolen, notLonger, Option.any_none, Bool.and_false]

theorem syllablePart?_seekLine (ordinal : Ordinal) (negated : Bool) (pattern : SoundPattern) :
    syllablePart? ordinal (seekLine negated target pattern) = none := by
  refine syllablePart?_eq_none fun part => ?_
  cases part with
  | anywhere =>
      exact startsWith_seekLine isTarget "syllable" "contains " (by decide) negated pattern
  | ending => exact startsWith_seekLine isTarget "syllable" "ends with " (by decide) negated pattern

theorem soughtSound?_proper (isPattern : pattern.IsProper) (negated : Bool) {ordinal : Ordinal}
    (isOrdinal : target.ordinal = ordinal.number) :
    soughtSound? ordinal (seekLine negated target pattern) =
      some (.ok { test := .seek, negated, seek := some target, pattern := some pattern }) := by
  obtain ⟨names, isClass, noIs, leads⟩ := isTarget.isClassName
  have isDenial := denial?_pattern isPattern negated
  have noFeed : '\n' ∉ denial negated ++ pattern.print := by
    have inDenial : '\n' ∉ denial negated := by cases negated <;> decide
    simp [inDenial, isPattern.print_noFeed]
  obtain ⟨head, found, isCut, -, isFirst, -⟩ := cutAtIs?_phrase isClass.isPhrase noFeed isDenial
  obtain ⟨rfl, rfl⟩ := isFirst (isClass.notEarlier noIs)
  have isPlain : target.isPlain = true := by
    rw [isPlain_of_not_stolen (isStolen_seekLine isTarget negated pattern), isClass.noArticle]
    rfl
  have isRead := (SeekTarget.read_print_iff isTarget.isRead).mpr isPlain
  rw [SeekTarget.print_eq isTarget.isRead isOrdinal] at isRead
  unfold soughtSound? seekLine
  rw [isCut]
  change some (SeekTarget.read _ >>= fun target => withPattern _ _) = _
  rw [isRead]
  exact congrArg some (withPattern_print isPattern _)

theorem read_seek (isPattern : pattern.IsProper) (negated : Bool) :
    read ({ test := .seek, negated, seek := some target, pattern := some pattern } :
        Predicate).print =
      .ok { test := .seek, negated, seek := some target, pattern := some pattern } := by
  obtain ⟨ordinal, isOrdinal⟩ := isTarget.isOrdinal
  have isWhole := isStolen_seekLine isTarget negated pattern
  have isSought := soughtSound?_proper isTarget isPattern negated isOrdinal
  rw [print_seek negated isTarget.isRead isOrdinal, read_ordinal,
    readSyllable_seekLine isOrdinal isWhole, syllablePart?_seekLine isTarget,
    readSeek_seekLine isOrdinal isWhole isSought]
  rfl

end

/-- A number of syllables that is read of its printed form has no more digits than are read. -/
theorem fits_of_read {comparison : Comparison} {number : Nat}
    (gave : read ({ test := .syllableCount, comparison, number := some (number : Int) } :
        Predicate).print =
      .ok { test := .syllableCount, comparison, number := some (number : Int) }) :
    number < 10 ^ Text.digitLimit := by
  have isRead := isRead_of_read (isPhrase_syllableCount comparison number) gave
  generalize isCount : ({ test := .syllableCount, comparison, number := some (number : Int) } :
    Predicate) = count at isRead
  cases isRead with
  | syllableCount other fits =>
      have same := Option.some.inj (congrArg Predicate.number isCount)
      rwa [Int.ofNat_inj.mp same]
  | _ => cases isCount

/-- A predicate that was put together of proper parts is read as it is printed, unless its number
of syllables has more digits than are read. -/
theorem read_print_iff_fits {predicate : Predicate} (isProper : predicate.IsProper) :
    read predicate.print = .ok predicate ↔
      ∀ number ∈ predicate.number, number < ((10 ^ Text.digitLimit : Nat) : Int) := by
  have noNumber (bound : Int) : ∀ number ∈ (none : Option Int), number < bound := by simp
  cases isProper with
  | otherwise => exact iff_of_true rfl (noNumber _)
  | @sound place negated pattern isPattern =>
      rw [print_sound, read_sound_lead place (denial?_pattern isPattern negated)]
      exact iff_of_true (withPattern_print isPattern _) (noNumber _)
  | atEdge edge negated => exact iff_of_true (read_atEdge edge negated) (noNumber _)
  | inStressedSyllable negated =>
      rw [print_inStressedSyllable]
      exact iff_of_true (read_inStressedSyllable negated) (noNumber _)
  | @wordEdge edge negated pattern isPattern =>
      rw [print_wordEdge, read_wordEdge_lead edge (denial?_pattern isPattern negated)]
      exact iff_of_true (withPattern_print isPattern _) (noNumber _)
  | syllableCount comparison number =>
      constructor
      · intro gave isNumber same
        cases same
        exact Int.ofNat_lt.mpr (fits_of_read gave)
      · intro fits
        exact read_syllableCount comparison (Int.ofNat_lt.mp (fits _ rfl))
  | @wordClass negated name names isClass =>
      rw [print_wordClass]
      exact iff_of_true (read_wordClass isClass.isPhrase isClass.noQuote fun _ => isClass.noDenial)
        (noNumber _)
  | stressOn ordinal =>
      rw [print_stressOn]
      exact iff_of_true (read_stressOn ordinal) (noNumber _)
  | @syllable part ordinal pattern isPattern =>
      have isLine := singleLine?_of_noFeed isPattern.print_isSome isPattern.print_noFeed
      rw [print_syllable, read_syllable_lead part ordinal isLine]
      exact iff_of_true (withPattern_print isPattern _) (noNumber _)
  | @seek negated target pattern isTarget isPattern =>
      exact iff_of_true (read_seek isTarget isPattern negated) (noNumber _)

/-- A test of a sought sound whose printed form is full of words that have another use
elsewhere. -/
def soughtAway : Predicate :=
  { test := .seek, negated := true
    seek := some { ordinal := Ordinal.secondToLast.number, soundClass := some "long not a" }
    pattern := some { literal := some " is to" } }

theorem read_print_iff_fits_soughtAway :
    soughtAway.IsProper ∧ soughtAway.print = "second to last long not a is not \x27 is to\x27" ∧
      read soughtAway.print = .ok soughtAway := by
  have isClass : IsClassExpression "long not a" ["long", "not", "a"] := by decide
  have isTarget : SeekTarget.IsProper
      { ordinal := Ordinal.secondToLast.number, soundClass := some "long not a" } :=
    .soundClass .secondToLast isClass (by decide) (by decide) (by decide)
  have isPattern : SoundPattern.IsProper { literal := some " is to" } :=
    .literal (by decide) (by decide) (by decide)
  have isProper : soughtAway.IsProper := .seek true isTarget isPattern
  exact ⟨isProper, by decide, (read_print_iff_fits isProper).mpr fun _ isNumber => nomatch isNumber⟩

/-- A test of a number of syllables that has one digit more than are read. -/
def overlong : Predicate :=
  { test := .syllableCount, number := some ((10 ^ Text.digitLimit : Nat) : Int) }

/-- The number of syllables has to be limited. -/
theorem not_read_print_overlong :
    overlong.IsProper ∧ read overlong.print ≠ .ok overlong := by
  refine ⟨.syllableCount .equal (10 ^ Text.digitLimit), fun gave => ?_⟩
  exact Nat.lt_irrefl _ (fits_of_read gave)

end Predicate

end Diachrony
