import Diachrony.Proofs.Notation.Phrase
import Diachrony.Proofs.Text.Numeral

/-!
# Predicates

What is read of a phrase as a predicate, and when its printed form is read as the same
predicate again.  Where the printed form of a predicate is not the phrase itself, it
differs from it in the articles and in the blanks, and either difference may make
another phrase of it.
-/
namespace Diachrony

open Text (after? after?_eq_some after?_append after?_append_lead after?_eq_none startsWith
  startsWith_eq_false singleLine? quoteMark isBlank isLineBreak)

theorem noFeed_of_oneLine {text : Text} (oneLine : ∀ char ∈ text, isLineBreak char = false) :
    '\n' ∉ text := by
  intro isMember
  have isWhole := oneLine _ isMember
  cases isWhole

theorem singleLine?_of_noFeed {text : Text} (isSome : text ≠ []) (noFeed : '\n' ∉ text) :
    singleLine? text = some text := by
  have notBreak : ∀ char ∈ text, (char != '\n') = true := by
    intro char isMember
    rw [bne_iff_ne]
    rintro rfl
    exact noFeed isMember
  unfold singleLine?
  rw [List.takeWhile_eq_self_iff.mpr notBreak, List.dropWhile_eq_nil_iff.mpr notBreak]
  simp [isSome]

theorem eq_of_singleLine? {text line : Text} (oneLine : ∀ char ∈ text, isLineBreak char = false)
    (isLine : singleLine? text = some line) : line = text := by
  have isSome : text ≠ [] := by
    rintro rfl
    cases isLine
  rw [singleLine?_of_noFeed isSome (noFeed_of_oneLine oneLine)] at isLine
  exact (Option.some.inj isLine).symm

theorem IsPhrase.noFeed {text : Text} (isPhrase : IsPhrase text) : '\n' ∉ text :=
  noFeed_of_oneLine isPhrase.oneLine

theorem IsPhrase.singleLine? {text : Text} (isPhrase : IsPhrase text) :
    singleLine? text = some text :=
  singleLine?_of_noFeed isPhrase.isSome isPhrase.noFeed

namespace Predicate

theorem denial?_eq_append {text line : Text} {negated : Bool}
    (oneLine : ∀ char ∈ text, isLineBreak char = false)
    (isDenial : denial? text = some (negated, line)) : text = denial negated ++ line := by
  unfold denial? at isDenial
  split at isDenial
  · rename_i found isFound
    cases isDenial
    obtain ⟨rest, behind, isLine⟩ := Option.bind_eq_some_iff.mp isFound
    have isText := after?_eq_some.mp behind
    have isRest := eq_of_singleLine? (fun char isMember =>
      oneLine char (isText ▸ List.mem_append_right _ isMember)) isLine
    rw [isRest]
    exact isText
  · obtain ⟨found, isLine, same⟩ := Option.map_eq_some_iff.mp isDenial
    cases same
    exact (eq_of_singleLine? oneLine isLine).symm

/-- A phrase is cut into the denial in front of it, if there is one, and what it says. -/
theorem denial?_eq_some {text line : Text} {negated : Bool} (isPhrase : IsPhrase text)
    (isDenial : denial? text = some (negated, line)) :
    IsPhrase line ∧ text = denial negated ++ line ∧
      (negated = false → startsWith "not " line = false) := by
  unfold denial? at isDenial
  cases behind : after? "not " text with
  | none =>
      rw [behind] at isDenial
      simp only [Option.bind_none, isPhrase.singleLine?, Option.map_some, Option.some.injEq,
        Prod.mk.injEq] at isDenial
      obtain ⟨rfl, rfl⟩ := isDenial
      exact ⟨isPhrase, rfl, fun _ => startsWith_eq_false.mpr behind⟩
  | some rest =>
      have isText := after?_eq_some.mp behind
      have isRest : IsPhrase rest := by
        subst isText
        exact isPhrase.behind "not" (by decide)
      rw [behind, Option.bind_some, isRest.singleLine?] at isDenial
      cases isDenial
      exact ⟨isRest, isText, fun affirmed => nomatch affirmed⟩

/-- A denial that is printed in front of a phrase is read as one, and nothing else is,
unless the phrase itself begins with the word for it. -/
theorem denial?_append {line : Text} (isPhrase : IsPhrase line) (negated : Bool) :
    ∃ other rest, denial? (denial negated ++ line) = some (other, rest) ∧
      (other = negated → rest = line) ∧
      (other = negated ↔ (negated || !startsWith "not " line) = true) := by
  cases negated with
  | true =>
      refine ⟨true, line, ?_, fun _ => rfl, by simp⟩
      unfold denial? denial
      rw [if_pos rfl, after?_append, Option.bind_some, isPhrase.singleLine?]
  | false =>
      have isText : denial false ++ line = line := rfl
      unfold denial?
      rw [isText]
      cases behind : after? "not " line with
      | none =>
          refine ⟨false, line, ?_, fun _ => rfl, ?_⟩
          · rw [Option.bind_none, isPhrase.singleLine?]
            rfl
          · rw [startsWith_eq_false.mpr behind]
            simp
      | some rest =>
          have isRest : IsPhrase rest := by
            rw [after?_eq_some.mp behind] at isPhrase
            exact isPhrase.behind "not" (by decide)
          have starts : startsWith "not " line = true := by
            rw [startsWith, behind]
            rfl
          refine ⟨true, rest, ?_, fun denied => ?_, ?_⟩
          · rw [Option.bind_some, isRest.singleLine?]
          · cases denied
          · rw [starts]
            simp

end Predicate

/-- A pattern that was read of a phrase is printed as one. -/
theorem SoundPattern.isPhrase_print {text : Text} {pattern : SoundPattern}
    (isPhrase : IsPhrase text) (gave : read text = .ok pattern) : IsPhrase pattern.print := by
  unfold read at gave
  rw [isPhrase.trim] at gave
  dsimp only at gave
  split at gave
  · split at gave
    · rename_i char content isUnquoted
      cases gave
      rw [(unquoted?_eq_some.mp isUnquoted).1] at isPhrase
      exact isPhrase
    · cases gave
  · split at gave
    · cases gave
    · cases gave
      exact isPhrase.dropArticle.squeeze

theorem quote_mem_dropArticle {text : Text} (isMember : quoteMark ∈ text) :
    quoteMark ∈ dropArticle text := by
  unfold dropArticle
  cases behind : afterArticle? text with
  | none => exact isMember
  | some rest =>
      obtain ⟨article, isArticle, char, tail, rfl, blank, rfl⟩ := afterArticle?_eq_some behind
      have noQuote : ∀ article ∈ (["a", "an"] : List Text), quoteMark ∉ article := by decide
      have notBlank : ∀ char, isBlank char = true → quoteMark ≠ char := by
        rintro _ blank rfl
        cases blank
      have inTail : quoteMark ∈ tail := by
        rcases List.mem_append.mp isMember with isMember | isMember
        · exact absurd isMember (noQuote article isArticle)
        · exact (List.mem_cons.mp isMember).resolve_left (notBlank char blank)
      rw [← List.takeWhile_append_dropWhile (p := isBlank) (l := tail)] at inTail
      rcases List.mem_append.mp inTail with isTaken | isLeft
      · exact absurd rfl (notBlank quoteMark (List.mem_takeWhile_imp isTaken))
      · exact isLeft

/-- What is read as a pattern has its quotations closed. -/
theorem SoundPattern.openBehind_eq {text : Text} {pattern : SoundPattern}
    (gave : read text = .ok pattern) (isOpen : Bool) : openBehind isOpen text = isOpen := by
  have notBlank : ∀ {around : Text}, (∀ char ∈ around, isBlank char = true) →
      quoteMark ∉ around := by
    intro around blank isMember
    have isQuote := blank quoteMark isMember
    cases isQuote
  obtain ⟨front, back, whole, frontBlank, backBlank⟩ := Text.trim_spec text
  rw [whole, openBehind_append, openBehind_append,
    openBehind_of_not_mem _ (notBlank frontBlank),
    openBehind_of_not_mem _ (notBlank backBlank)]
  unfold read at gave
  dsimp only at gave
  split at gave
  · split at gave
    · rename_i char content isUnquoted
      obtain ⟨isQuoted, noQuote⟩ := unquoted?_eq_some.mp isUnquoted
      rw [isQuoted, Text.quoted, List.cons_append, openBehind, if_pos rfl, openBehind_append,
        openBehind_of_not_mem _ noQuote, openBehind, if_pos rfl, openBehind, Bool.not_not]
    · cases gave
  · split at gave
    · cases gave
    · rename_i isName
      refine openBehind_of_not_mem isOpen fun isMember => isName ?_
      have inName := Text.mem_squeeze_of_solid (quote_mem_dropArticle isMember) (by decide)
      simpa using .inr inName

namespace Predicate

inductive IsRead : Predicate → Prop
  | otherwise : IsRead otherwise
  | sound (place : SoundPlace) (negated : Bool) {pattern : SoundPattern} :
      pattern.IsRead → IsPhrase pattern.print →
      IsRead { test := .sound place, negated, pattern := some pattern }
  | atEdge (edge : WordEdge) (negated : Bool) : IsRead { test := .atEdge edge, negated }
  | inStressedSyllable (negated : Bool) : IsRead { test := .inStressedSyllable, negated }
  | wordEdge (edge : WordEdge) (negated : Bool) {pattern : SoundPattern} :
      pattern.IsRead → IsPhrase pattern.print →
      IsRead { test := .wordEdge edge, negated, pattern := some pattern }
  | syllableCount (comparison : Comparison) {number : Nat} :
      number < 10 ^ Text.digitLimit →
      IsRead { test := .syllableCount, comparison, number := some (number : Int) }
  | wordClass {negated : Bool} {name : Text} :
      IsPhrase name → quoteMark ∉ name → (negated = false → startsWith "not " name = false) →
      IsRead { test := .wordClass, value := some name, negated }
  | stressOn (ordinal : Ordinal) :
      IsRead { test := .stressOn, ordinal := some ordinal.number }
  | syllable (part : SyllablePart) (ordinal : Ordinal) {pattern : SoundPattern} :
      pattern.IsRead → IsPhrase pattern.print →
      IsRead { test := .syllable part, ordinal := some ordinal.number, pattern := some pattern }
  | seek (negated : Bool) {target : SeekTarget} {pattern : SoundPattern} :
      target.IsRead → IsPhrase target.className → pattern.IsRead → IsPhrase pattern.print →
      IsRead { test := .seek, negated, seek := some target, pattern := some pattern }

theorem IsRead.named {predicate : Predicate} (isRead : predicate.IsRead) :
    ∀ number ∈ predicate.printedOrdinals, (Ordinal.nameOf? number).isSome = true := by
  have isNamed : ∀ ordinal : Ordinal,
      ∀ number ∈ [some (ordinal.number : Int)], (Ordinal.nameOf? number).isSome = true := by
    intro ordinal number isMember
    rw [List.mem_singleton.mp isMember, Ordinal.nameOf?_number]
    rfl
  cases isRead with
  | stressOn ordinal => exact isNamed ordinal
  | syllable part ordinal => exact isNamed ordinal
  | seek negated isTarget =>
      intro number isMember
      rw [List.mem_singleton.mp isMember]
      exact isTarget.named
  | _ => exact fun _ isMember => nomatch isMember

theorem IsRead.short {predicate : Predicate} (isRead : predicate.IsRead) :
    ∀ number ∈ predicate.printedNumbers, (Text.ofNat number.natAbs).length ≤ Text.digitLimit := by
  cases isRead with
  | syllableCount comparison fits =>
      intro number isMember
      rw [List.mem_singleton.mp isMember, Int.natAbs_natCast]
      exact Text.length_ofNat_le_iff.mpr fits
  | _ => exact fun _ isMember => nomatch isMember

theorem withPattern_eq_ok {predicate found : Predicate} {text : Text}
    (gave : withPattern predicate text = .ok found) :
    ∃ pattern, SoundPattern.read text = .ok pattern ∧
      found = { predicate with pattern := some pattern } := by
  obtain ⟨pattern, isPattern, same⟩ := Except.bind_eq_ok.mp gave
  cases same
  exact ⟨pattern, isPattern, rfl⟩

/-- The phrase behind words that no quotation stands in. -/
theorem isPhrase_behind {lead text rest : Text} (isPhrase : IsPhrase text)
    (behind : after? lead text = some rest) (isLead : lead.getLast? = some ' ')
    (closed : openBehind false lead.dropLast = false) : IsPhrase rest := by
  obtain ⟨front, rfl⟩ := List.getLast?_eq_some_iff.mp isLead
  rw [List.dropLast_concat] at closed
  have isText := after?_eq_some.mp behind
  rw [List.append_assoc, List.singleton_append] at isText
  rw [isText] at isPhrase
  exact isPhrase.behind front closed

theorem isRead_of_readSound {text : Text} {predicate : Predicate} (isPhrase : IsPhrase text)
    (gave : readSound text = some (.ok predicate)) : predicate.IsRead := by
  obtain ⟨place, -, gave⟩ := List.exists_of_findSome?_eq_some gave
  obtain ⟨⟨negated, line⟩, isDenial, gave⟩ := Option.bind_eq_some_iff.mp gave
  obtain ⟨rest, behind, isDenial⟩ := Option.bind_eq_some_iff.mp isDenial
  have isRest : IsPhrase rest := by
    cases place <;> exact isPhrase_behind isPhrase behind (by decide) (by decide)
  obtain ⟨isLine, -, -⟩ := denial?_eq_some isRest isDenial
  obtain ⟨pattern, isPattern, rfl⟩ := withPattern_eq_ok (Option.some.inj gave)
  exact .sound place negated (SoundPattern.isRead_of_read isPattern)
    (SoundPattern.isPhrase_print isLine isPattern)

theorem isRead_of_readAtEdge {text : Text} {predicate : Predicate}
    (gave : readAtEdge text = some (.ok predicate)) : predicate.IsRead := by
  obtain ⟨negated, -, gave⟩ := List.exists_of_findSome?_eq_some gave
  obtain ⟨edge, -, gave⟩ := List.exists_of_findSome?_eq_some gave
  obtain ⟨rest, behind, gave⟩ := Option.bind_eq_some_iff.mp gave
  split at gave
  · cases gave
    exact .atEdge edge negated
  · cases gave

theorem isRead_of_readInStressedSyllable {text : Text} {predicate : Predicate}
    (gave : readInStressedSyllable text = some (.ok predicate)) : predicate.IsRead := by
  obtain ⟨negated, -, gave⟩ := List.exists_of_findSome?_eq_some gave
  obtain ⟨rest, behind, gave⟩ := Option.bind_eq_some_iff.mp gave
  split at gave
  · cases gave
    exact .inStressedSyllable negated
  · cases gave

theorem isRead_of_readWordEdge {text : Text} {predicate : Predicate} (isPhrase : IsPhrase text)
    (gave : readWordEdge text = some (.ok predicate)) : predicate.IsRead := by
  obtain ⟨edge, -, gave⟩ := List.exists_of_findSome?_eq_some gave
  obtain ⟨⟨negated, line⟩, isDenial, gave⟩ := Option.bind_eq_some_iff.mp gave
  obtain ⟨rest, behind, isDenial⟩ := Option.bind_eq_some_iff.mp isDenial
  have isRest : IsPhrase rest := by
    cases edge <;> exact isPhrase_behind isPhrase behind (by decide) (by decide)
  obtain ⟨isLine, -, -⟩ := denial?_eq_some isRest isDenial
  obtain ⟨pattern, isPattern, rfl⟩ := withPattern_eq_ok (Option.some.inj gave)
  exact .wordEdge edge negated (SoundPattern.isRead_of_read isPattern)
    (SoundPattern.isPhrase_print isLine isPattern)

theorem isRead_of_readSyllableCount {text : Text} {predicate : Predicate}
    (gave : readSyllableCount text = some (.ok predicate)) : predicate.IsRead := by
  obtain ⟨comparison, -, gave⟩ := List.exists_of_findSome?_eq_some gave
  obtain ⟨rest, behind, gave⟩ := Option.bind_eq_some_iff.mp gave
  dsimp only at gave
  split at gave
  · cases gave
  · split at gave
    · rename_i number isNumber
      cases gave
      exact .syllableCount comparison (Text.toNat?_eq_some isNumber)
    · cases gave

theorem isRead_of_readWordClass {text : Text} {predicate : Predicate} (isPhrase : IsPhrase text)
    (gave : readWordClass text = some (.ok predicate)) : predicate.IsRead := by
  obtain ⟨⟨negated, line⟩, isDenial, gave⟩ := Option.bind_eq_some_iff.mp gave
  obtain ⟨rest, behind, isDenial⟩ := Option.bind_eq_some_iff.mp isDenial
  have isRest := isPhrase_behind isPhrase behind (by decide) (by decide)
  obtain ⟨isLine, -, affirmed⟩ := denial?_eq_some isRest isDenial
  dsimp only at gave
  rw [isLine.trim] at gave
  split at gave
  · cases gave
  · rename_i noQuote
    cases gave
    exact .wordClass isLine (by simpa using noQuote) affirmed

theorem isRead_of_readStressOn {text : Text} {predicate : Predicate}
    (gave : readStressOn text = some (.ok predicate)) : predicate.IsRead := by
  obtain ⟨rest, behind, gave⟩ := Option.bind_eq_some_iff.mp gave
  obtain ⟨ordinal, -, gave⟩ := List.exists_of_findSome?_eq_some gave
  obtain ⟨tail, behind, gave⟩ := Option.bind_eq_some_iff.mp gave
  split at gave
  · cases gave
    exact .stressOn ordinal
  · split at gave <;> cases gave

theorem isPhrase_of_leads {text rest : Text} {ordinal : Ordinal} (isPhrase : IsPhrase text)
    (isLead : (ordinal, rest) ∈ Ordinal.leads text) : IsPhrase rest := by
  obtain ⟨lead, -, isLead⟩ := List.mem_filterMap.mp isLead
  obtain ⟨behind, isBehind, same⟩ := Option.map_eq_some_iff.mp isLead
  obtain ⟨rfl, rfl⟩ := Prod.mk.inj same
  cases lead <;> exact isPhrase_behind isPhrase isBehind (by decide) (by decide)

theorem isRead_of_readSyllable {text : Text} {predicate : Predicate} (isPhrase : IsPhrase text)
    (gave : readSyllable text = some (.ok predicate)) : predicate.IsRead := by
  obtain ⟨⟨ordinal, rest⟩, isLead, gave⟩ := List.exists_of_findSome?_eq_some gave
  have isRest := isPhrase_of_leads isPhrase isLead
  obtain ⟨part, -, gave⟩ := List.exists_of_findSome?_eq_some gave
  obtain ⟨line, isLine, gave⟩ := Option.bind_eq_some_iff.mp gave
  obtain ⟨tail, behind, isLine⟩ := Option.bind_eq_some_iff.mp isLine
  have isTail : IsPhrase tail := by
    cases part <;> exact isPhrase_behind isRest behind (by decide) (by decide)
  rw [isTail.singleLine?, Option.some.injEq] at isLine
  subst isLine
  obtain ⟨pattern, isPattern, rfl⟩ := withPattern_eq_ok (Option.some.inj gave)
  exact .syllable part ordinal (SoundPattern.isRead_of_read isPattern)
    (SoundPattern.isPhrase_print isTail isPattern)

theorem cutAtIs?_eq_some {text head line : Text} {negated : Bool}
    (isCut : cutAtIs? text = some (head, negated, line)) :
    head ≠ [] ∧ ∃ rest, text = head ++ ' ' :: ("is".toList ++ ' ' :: rest) ∧
      denial? rest = some (negated, line) := by
  induction text generalizing head with
  | nil => cases isCut
  | cons char text inductionHypothesis =>
      simp only [cutAtIs?] at isCut
      split at isCut
      · cases isCut
      · split at isCut
        · rename_i foundNegated foundLine isFound
          cases isCut
          obtain ⟨rest, behind, isDenial⟩ := Option.bind_eq_some_iff.mp isFound
          exact ⟨List.cons_ne_nil _ _, rest, by rw [after?_eq_some.mp behind]; rfl, isDenial⟩
        · obtain ⟨⟨front, found⟩, isFound, same⟩ := Option.map_eq_some_iff.mp isCut
          obtain ⟨rfl, rfl⟩ := Prod.mk.inj same
          obtain ⟨-, rest, rfl, isDenial⟩ := inductionHypothesis isFound
          exact ⟨List.cons_ne_nil _ _, rest, rfl, isDenial⟩

end Predicate

theorem Ordinal.isPhrase_name (ordinal : Ordinal) : IsPhrase ordinal.name := by
  cases ordinal with
  | first | second | third | last => exact .word (by decide)
  | secondToLast =>
      exact IsPhrase.of_words (["second", "to", "last"]) (by decide) (by decide)
  | thirdToLast =>
      exact IsPhrase.of_words (["third", "to", "last"]) (by decide) (by decide)

/-- The class that was read of a phrase makes a phrase. -/
theorem SeekTarget.isPhrase_className {text : Text} {target : SeekTarget}
    (isPhrase : IsPhrase text) (gave : read text = .ok target) : IsPhrase target.className := by
  unfold read at gave
  dsimp only at gave
  split at gave
  · cases gave
  · rename_i ordinal name isFound
    cases gave
    have isName : IsPhrase name :=
      Predicate.isPhrase_of_leads isPhrase.squeeze (List.mem_of_find?_eq_some isFound)
    unfold className
    dsimp only
    split
    · exact .word (by decide)
    · exact isName.dropArticle

namespace Predicate

theorem isRead_of_readSeek {text : Text} {predicate : Predicate} (isPhrase : IsPhrase text)
    (gave : readSeek text = some (.ok predicate)) : predicate.IsRead := by
  obtain ⟨⟨ordinal, rest⟩, isLead, gave⟩ := List.exists_of_findSome?_eq_some gave
  have isRest := isPhrase_of_leads isPhrase isLead
  obtain ⟨⟨name, negated, line⟩, isCut, gave⟩ := Option.bind_eq_some_iff.mp gave
  obtain ⟨target, isTarget, gave⟩ := Except.bind_eq_ok.mp (Option.some.inj gave)
  obtain ⟨pattern, isPattern, rfl⟩ := withPattern_eq_ok gave
  obtain ⟨-, tail, rfl, isDenial⟩ := cutAtIs?_eq_some isCut
  have oneLine : ∀ char ∈ tail, isLineBreak char = false := fun char isMember =>
    isRest.oneLine char (by simp [isMember])
  have isTail := denial?_eq_append oneLine isDenial
  have closed : openBehind false name = false := by
    have whole := isRest.isClosed
    rw [openBehind_append, openBehind, if_neg (by decide), openBehind_append, openBehind,
      if_neg (by decide), isTail, openBehind_append, SoundPattern.openBehind_eq isPattern] at whole
    cases isOpen : openBehind false name with
    | false => rfl
    | true =>
        rw [isOpen] at whole
        cases negated <;> cases whole
  have isName := isRest.before closed
  obtain ⟨isLine, -, -⟩ := denial?_eq_some ((isRest.behind name closed).behind "is" (by decide)) isDenial
  exact .seek negated (SeekTarget.isRead_of_read isTarget)
    (SeekTarget.isPhrase_className (ordinal.isPhrase_name.append isName) isTarget)
    (SoundPattern.isRead_of_read isPattern) (SoundPattern.isPhrase_print isLine isPattern)

/-- What is read of a phrase is a predicate as it is read of a phrase. -/
theorem isRead_of_read {text : Text} {predicate : Predicate} (isPhrase : IsPhrase text)
    (gave : read text = .ok predicate) : predicate.IsRead := by
  unfold read at gave
  split at gave
  · cases gave
    exact .otherwise
  · cases isFound : forms.findSome? fun form => form text with
    | none =>
        rw [isFound] at gave
        cases gave
    | some result =>
        rw [isFound, Option.getD_some] at gave
        subst gave
        obtain ⟨form, isForm, gave⟩ := List.exists_of_findSome?_eq_some isFound
        simp only [forms, List.mem_cons, List.not_mem_nil, or_false] at isForm
        rcases isForm with rfl | rfl | rfl | rfl | rfl | rfl | rfl | rfl | rfl
        · exact isRead_of_readSound isPhrase gave
        · exact isRead_of_readAtEdge gave
        · exact isRead_of_readInStressedSyllable gave
        · exact isRead_of_readWordEdge isPhrase gave
        · exact isRead_of_readSyllableCount gave
        · exact isRead_of_readWordClass isPhrase gave
        · exact isRead_of_readStressOn gave
        · exact isRead_of_readSyllable isPhrase gave
        · exact isRead_of_readSeek isPhrase gave

end Predicate

end Diachrony
