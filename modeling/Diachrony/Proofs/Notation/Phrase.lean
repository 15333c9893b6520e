import Diachrony.Condition.Reader
import Diachrony.Proofs.Except
import Diachrony.Proofs.Notation.Pattern

/-!
# Phrases

The words between two brackets or connectives of a condition make a phrase: they are
run together with one space between neighbours and read as one predicate.  A word may
hold blanks where it is quoted, so a phrase may be cut at a blank only where no
quotation is open.
-/
namespace Diachrony

open Text (quoteMark isBlank isLineBreak joinWith joinWith_cons joinWith_append squeeze
  squeeze_cons_of_blank squeeze_cons_of_solid squeeze_append_blank gap Tight)

def openBehind : Bool → Text → Bool
  | isOpen, [] => isOpen
  | isOpen, char :: text => openBehind (if char = quoteMark then !isOpen else isOpen) text

theorem openBehind_append (isOpen : Bool) (left right : Text) :
    openBehind isOpen (left ++ right) = openBehind (openBehind isOpen left) right := by
  induction left generalizing isOpen with
  | nil => rfl
  | cons char left inductionHypothesis => exact inductionHypothesis _

theorem openBehind_of_not_mem {text : Text} (isOpen : Bool) (noQuote : quoteMark ∉ text) :
    openBehind isOpen text = isOpen := by
  induction text with
  | nil => rfl
  | cons char text inductionHypothesis =>
      rw [List.mem_cons, not_or] at noQuote
      rw [openBehind, if_neg (Ne.symm noQuote.1), inductionHypothesis noQuote.2]

/-- Whether a text has neither a blank nor a bracket outside of quotations and all its
quotations are closed. -/
def holdsTogether : Bool → Text → Bool
  | isOpen, [] => !isOpen
  | isOpen, char :: text =>
    if char = quoteMark then holdsTogether (!isOpen) text
    else (isOpen || !(isBlank char || char = '(' || char = ')')) && holdsTogether isOpen text

theorem holdsTogether_of_solid {text : Text}
    (solid : ∀ char ∈ text, isBlank char = false ∧ char ≠ quoteMark ∧ char ≠ '(' ∧ char ≠ ')') :
    holdsTogether false text = true := by
  induction text with
  | nil => rfl
  | cons char text inductionHypothesis =>
      obtain ⟨notBlank, notQuote, notOpening, notClosing⟩ := solid char List.mem_cons_self
      have isLater := inductionHypothesis fun other isMember =>
        solid other (List.mem_cons_of_mem _ isMember)
      simp [holdsTogether, notBlank, notQuote, notOpening, notClosing, isLater]

theorem openBehind_of_holdsTogether {isOpen : Bool} {text : Text}
    (together : holdsTogether isOpen text = true) : openBehind isOpen text = false := by
  induction text generalizing isOpen with
  | nil => simpa [holdsTogether, openBehind] using together
  | cons char text inductionHypothesis =>
      simp only [holdsTogether] at together
      rw [openBehind]
      split at together
      · rename_i isQuote
        rw [if_pos isQuote]
        exact inductionHypothesis together
      · rename_i notQuote
        rw [if_neg notQuote]
        exact inductionHypothesis (Bool.and_eq_true _ _ ▸ together).2

/-- No blank stands where no quotation is open. -/
theorem open_at_blank {isOpen : Bool} {head rest : Text} {char : Char}
    (blank : isBlank char = true) (together : holdsTogether isOpen (head ++ char :: rest) = true) :
    openBehind isOpen head = true := by
  induction head generalizing isOpen with
  | nil =>
      have notQuote : char ≠ quoteMark := by
        rintro rfl
        cases blank
      simp only [List.nil_append, holdsTogether, if_neg notQuote, blank, Bool.true_or,
        Bool.not_true, Bool.or_false, Bool.and_eq_true] at together
      exact together.1
  | cons first head inductionHypothesis =>
      simp only [List.cons_append, holdsTogether] at together
      rw [openBehind]
      split at together
      · rename_i isQuote
        rw [if_pos isQuote]
        exact inductionHypothesis together
      · rename_i notQuote
        rw [if_neg notQuote]
        exact inductionHypothesis (Bool.and_eq_true _ _ ▸ together).2

theorem solid_of_holdsTogether {text : Text} (together : holdsTogether false text = true)
    (noQuote : quoteMark ∉ text) {char : Char} (isMember : char ∈ text) :
    isBlank char = false := by
  by_cases blank : isBlank char = true
  · obtain ⟨head, rest, rfl⟩ := List.append_of_mem isMember
    have isOpen := open_at_blank blank together
    rw [openBehind_of_not_mem false fun isQuote =>
      noQuote (List.mem_append_left _ isQuote)] at isOpen
    cases isOpen
  · simpa using blank

/-- Squeezing changes blanks inside quotations only. -/
theorem holdsTogether_squeeze {isOpen : Bool} {text : Text}
    (together : holdsTogether isOpen text = true) :
    holdsTogether isOpen (squeeze text) = true := by
  induction text generalizing isOpen with
  | nil => exact together
  | cons char text inductionHypothesis =>
      by_cases blank : isBlank char = true
      · have notQuote : char ≠ quoteMark := by
          rintro rfl
          cases blank
        rw [holdsTogether, if_neg notQuote, Bool.and_eq_true] at together
        rw [squeeze_cons_of_blank blank]
        exact inductionHypothesis together.2
      · rw [squeeze_cons_of_solid (by simpa using blank)]
        have behind : ∀ isOpen, holdsTogether isOpen text = true →
            holdsTogether isOpen (gap text) = true := by
          intro isOpen together
          unfold gap
          split
          · rename_i behindBlank
            rw [Bool.and_eq_true] at behindBlank
            obtain ⟨next, isNext, nextBlank⟩ := (Option.any_eq_true _ _).mp behindBlank.1
            obtain ⟨rest, rfl⟩ := List.head?_eq_some_iff.mp isNext
            have openBefore : openBehind isOpen [] = true := open_at_blank nextBlank together
            rw [openBehind] at openBefore
            subst openBefore
            exact inductionHypothesis together
          · exact inductionHypothesis together
        simp only [holdsTogether] at together ⊢
        split at together
        · rename_i isQuote
          rw [if_pos isQuote]
          exact behind _ together
        · rename_i notQuote
          rw [if_neg notQuote]
          rw [Bool.and_eq_true] at together ⊢
          exact ⟨together.1, behind _ together.2⟩

/-- A word of a phrase: one token, which is neither a connective nor a bracket. -/
structure IsWord (token : Text) : Prop where
  isSome : token ≠ []
  together : holdsTogether false token = true
  isWord : Condition.isWord token = true
  oneLine : ∀ char ∈ token, isLineBreak char = false

instance (token : Text) : Decidable (IsWord token) :=
  decidable_of_iff (token ≠ [] ∧ holdsTogether false token = true ∧
      Condition.isWord token = true ∧ ∀ char ∈ token, isLineBreak char = false)
    ⟨fun ⟨isSome, together, isWord, oneLine⟩ => ⟨isSome, together, isWord, oneLine⟩,
      fun ⟨isSome, together, isWord, oneLine⟩ => ⟨isSome, together, isWord, oneLine⟩⟩

/-- A phrase: a word, or one with a space between it and a phrase. -/
inductive IsPhrase : Text → Prop
  | word {word : Text} : IsWord word → IsPhrase word
  | more {word rest : Text} : IsWord word → IsPhrase rest → IsPhrase (word ++ ' ' :: rest)

theorem IsPhrase.of_words (words : List Text) (isSome : words ≠ [])
    (areWords : ∀ word ∈ words, IsWord word) : IsPhrase (joinWith [' '] words) := by
  induction words with
  | nil => exact absurd rfl isSome
  | cons first words inductionHypothesis =>
      have isFirst := areWords first List.mem_cons_self
      cases words with
      | nil => exact .word isFirst
      | cons next words =>
          rw [joinWith_cons _ _ (List.cons_ne_nil _ _), List.append_assoc,
            List.singleton_append]
          exact .more isFirst (inductionHypothesis (List.cons_ne_nil _ _) fun word isMember =>
            areWords word (List.mem_cons_of_mem _ isMember))

theorem IsPhrase.append {left right : Text} (leftPhrase : IsPhrase left)
    (rightPhrase : IsPhrase right) : IsPhrase (left ++ ' ' :: right) := by
  induction leftPhrase with
  | word isWord => exact .more isWord rightPhrase
  | more isWord isRest inductionHypothesis =>
      rw [List.append_assoc, List.cons_append]
      exact .more isWord inductionHypothesis

theorem IsPhrase.isSome {text : Text} (isPhrase : IsPhrase text) : text ≠ [] := by
  cases isPhrase with
  | word isWord => exact isWord.isSome
  | more isWord isRest => simp

theorem IsPhrase.isClosed {text : Text} (isPhrase : IsPhrase text) :
    openBehind false text = false := by
  induction isPhrase with
  | word isWord => exact openBehind_of_holdsTogether isWord.together
  | more isWord isRest inductionHypothesis =>
      rw [openBehind_append, openBehind_of_holdsTogether isWord.together]
      exact inductionHypothesis

theorem IsPhrase.oneLine {text : Text} (isPhrase : IsPhrase text) :
    ∀ char ∈ text, isLineBreak char = false := by
  induction isPhrase with
  | word isWord => exact isWord.oneLine
  | more isWord isRest inductionHypothesis =>
      intro char isMember
      rcases List.mem_append.mp isMember with isMember | isMember
      · exact isWord.oneLine char isMember
      · rcases List.mem_cons.mp isMember with rfl | isMember
        · decide
        · exact inductionHypothesis char isMember

theorem IsWord.head_solid {char : Char} {rest : Text} (isWord : IsWord (char :: rest)) :
    isBlank char = false := by
  by_cases blank : isBlank char = true
  · have isOpen : openBehind false [] = true := open_at_blank blank isWord.together
    cases isOpen
  · simpa using blank

theorem IsPhrase.head_solid {text : Text} (isPhrase : IsPhrase text) {char : Char}
    (isFirst : text.head? = some char) : isBlank char = false := by
  cases isPhrase with
  | word isWord =>
      obtain ⟨rest, rfl⟩ := List.head?_eq_some_iff.mp isFirst
      exact isWord.head_solid
  | more isWord isRest =>
      obtain ⟨first, word, rfl⟩ := List.exists_cons_of_ne_nil isWord.isSome
      cases isFirst
      exact isWord.head_solid

theorem IsWord.last_solid {char : Char} {front : Text} (isWord : IsWord (front ++ [char])) :
    isBlank char = false := by
  by_cases blank : isBlank char = true
  · have isOpen := open_at_blank blank isWord.together
    have closed := openBehind_of_holdsTogether isWord.together
    have notQuote : char ≠ quoteMark := by
      rintro rfl
      cases blank
    rw [openBehind_append, isOpen, openBehind, if_neg notQuote] at closed
    cases closed
  · simpa using blank

theorem IsPhrase.last_solid {text : Text} (isPhrase : IsPhrase text) {char : Char}
    (isLast : text.getLast? = some char) : isBlank char = false := by
  induction isPhrase with
  | word isWord =>
      obtain ⟨front, rfl⟩ := List.getLast?_eq_some_iff.mp isLast
      exact isWord.last_solid
  | more isWord isRest inductionHypothesis =>
      refine inductionHypothesis ?_
      rw [List.getLast?_append, List.getLast?_cons, List.getLast?_eq_some_getLast isRest.isSome,
        Option.getD_some, Option.some_or] at isLast
      rw [List.getLast?_eq_some_getLast isRest.isSome, isLast]

theorem IsPhrase.trim {text : Text} (isPhrase : IsPhrase text) : Text.trim text = text :=
  Text.trim_of_solid (fun _ => isPhrase.head_solid) fun _ => isPhrase.last_solid

/-- Outside of quotations, a blank of a phrase is a space between two phrases. -/
theorem IsPhrase.cut {text head rest : Text} {char : Char} (isPhrase : IsPhrase text)
    (blank : isBlank char = true) (isText : text = head ++ char :: rest)
    (closed : openBehind false head = false) : char = ' ' ∧ IsPhrase head ∧ IsPhrase rest := by
  induction isPhrase generalizing head with
  | word isWord =>
      subst isText
      rw [open_at_blank blank isWord.together] at closed
      cases closed
  | @more word others isWord isOthers inductionHypothesis =>
      rcases List.append_eq_append_iff.mp isText with
        ⟨between, isHead, behind⟩ | ⟨between, isWordText, behind⟩
      · cases between with
        | nil =>
            obtain ⟨isSpace, isRest⟩ := List.cons.inj behind
            rw [List.append_nil] at isHead
            exact ⟨isSpace.symm, isHead ▸ .word isWord, isRest ▸ isOthers⟩
        | cons space between =>
            obtain ⟨isSpace, isOthersText⟩ := List.cons.inj behind
            subst isSpace isHead
            rw [openBehind_append, openBehind_of_holdsTogether isWord.together] at closed
            obtain ⟨isSpace, isBetween, isRest⟩ := inductionHypothesis isOthersText closed
            exact ⟨isSpace, .more isWord isBetween, isRest⟩
      · cases between with
        | nil =>
            obtain ⟨isSpace, isRest⟩ := List.cons.inj behind
            rw [List.append_nil] at isWordText
            exact ⟨isSpace, isWordText ▸ .word isWord, isRest ▸ isOthers⟩
        | cons first between =>
            obtain ⟨rfl, isRest⟩ := List.cons.inj behind
            have isOpen := open_at_blank blank (isWordText ▸ isWord.together)
            rw [closed] at isOpen
            cases isOpen

/-- The part of a phrase behind some words in it and a space is a phrase. -/
theorem IsPhrase.behind (lead : Text) {rest : Text} (isPhrase : IsPhrase (lead ++ ' ' :: rest))
    (closed : openBehind false lead = false) : IsPhrase rest :=
  (isPhrase.cut (by decide) rfl closed).2.2

theorem IsPhrase.before {lead rest : Text} (isPhrase : IsPhrase (lead ++ ' ' :: rest))
    (closed : openBehind false lead = false) : IsPhrase lead :=
  (isPhrase.cut (by decide) rfl closed).2.1

/-- A phrase without quotations is tight. -/
theorem IsPhrase.tight {text : Text} (isPhrase : IsPhrase text) (noQuote : quoteMark ∉ text) :
    Tight text := by
  induction isPhrase with
  | word isWord =>
      exact Text.tight_of_solid isWord.isSome fun char isMember =>
        solid_of_holdsTogether isWord.together noQuote isMember
  | more isWord isRest inductionHypothesis =>
      rw [List.mem_append, List.mem_cons, not_or, not_or] at noQuote
      refine Tight.append ?_ (inductionHypothesis noQuote.2.2)
      exact Text.tight_of_solid isWord.isSome fun char isMember =>
        solid_of_holdsTogether isWord.together noQuote.1 isMember

theorem IsWord.squeeze {word : Text} (isWord : IsWord word) : IsWord (squeeze word) where
  isSome := by
    obtain ⟨char, rest, rfl⟩ := List.exists_cons_of_ne_nil isWord.isSome
    rw [squeeze_cons_of_solid isWord.head_solid]
    exact List.cons_ne_nil _ _
  together := holdsTogether_squeeze isWord.together
  isWord := by
    by_cases hasQuote : quoteMark ∈ word
    · have isMember := Text.mem_squeeze_of_solid hasQuote (by decide)
      simp only [Condition.isWord, Bool.not_eq_true', List.contains_eq_mem, decide_eq_false_iff_not]
      intro isReserved
      have noQuote : ∀ reserved ∈ (["and", "or", "(", ")"] : List Text), quoteMark ∉ reserved := by
        decide
      exact noQuote _ isReserved isMember
    · rw [((IsPhrase.word isWord).tight hasQuote).squeezed]
      exact isWord.isWord
  oneLine := by
    intro char isMember
    rcases Text.mem_squeeze isMember with rfl | ⟨isMember, -⟩
    · decide
    · exact isWord.oneLine char isMember

theorem IsPhrase.squeeze {text : Text} (isPhrase : IsPhrase text) :
    IsPhrase (squeeze text) := by
  induction isPhrase with
  | word isWord => exact .word isWord.squeeze
  | more isWord isRest inductionHypothesis =>
      rw [squeeze_append_blank isWord.squeeze.isSome inductionHypothesis.isSome]
      exact .more isWord.squeeze inductionHypothesis

theorem IsPhrase.dropArticle {text : Text} (isPhrase : IsPhrase text) :
    IsPhrase (dropArticle text) := by
  unfold Diachrony.dropArticle
  cases behind : afterArticle? text with
  | none => exact isPhrase
  | some rest =>
      obtain ⟨article, isArticle, char, tail, isText, blank, rfl⟩ := afterArticle?_eq_some behind
      have closed : ∀ article ∈ (["a", "an"] : List Text), openBehind false article = false := by
        decide
      obtain ⟨-, -, isTail⟩ := isPhrase.cut blank isText (closed article isArticle)
      rw [Option.getD_some]
      cases tail with
      | nil => exact isTail
      | cons first tail =>
          rw [List.dropWhile_cons_of_neg (by simpa using isTail.head_solid rfl)]
          exact isTail

namespace Condition

theorem tokensBehind_append {isOpen : Bool} {text : Text}
    (together : holdsTogether isOpen text = true) (token rest : Text) :
    tokensBehind isOpen token (text ++ rest) = tokensBehind false (token ++ text) rest := by
  induction text generalizing isOpen token with
  | nil =>
      have closed : isOpen = false := by simpa [holdsTogether] using together
      rw [closed, List.nil_append, List.append_nil]
  | cons char text inductionHypothesis =>
      simp only [holdsTogether] at together
      simp only [List.cons_append, tokensBehind]
      split at together
      · rename_i isQuote
        rw [if_pos isQuote, inductionHypothesis together, List.append_assoc,
          List.singleton_append]
      · rename_i notQuote
        rw [Bool.and_eq_true] at together
        rw [if_neg notQuote]
        cases isOpen with
        | true => simp [inductionHypothesis together.2]
        | false =>
            have inside : (isBlank char || char = '(' || char = ')') = false := by
              simpa using together.1
            simp only [Bool.or_eq_false_iff, decide_eq_false_iff_not] at inside
            simp [inside, inductionHypothesis together.2]

def EndsWord (text : Text) : Prop :=
  ∀ char, text.head? = some char → isBlank char = true ∨ char = '(' ∨ char = ')'

theorem endsWord_nil : EndsWord [] := by
  intro char isFirst
  cases isFirst

theorem endsWord_cons {char : Char} (isEnd : isBlank char = true ∨ char = '(' ∨ char = ')')
    (text : Text) : EndsWord (char :: text) := by
  intro first isFirst
  cases isFirst
  exact isEnd

theorem tokensBehind_eq {text : Text} (ends : EndsWord text) (token : Text) :
    tokensBehind false token text = (tokens text).map (closeToken token) := by
  unfold tokens
  cases text with
  | nil => rfl
  | cons char text =>
      have notQuote : char ≠ quoteMark := by
        rintro rfl
        rcases ends _ rfl with blank | isBracket | isBracket <;>
          first | cases blank | cases isBracket
      simp only [tokensBehind, if_neg notQuote, Bool.false_eq_true, if_false]
      by_cases isBracket : (decide (char = '(') || decide (char = ')')) = true
      · simp only [isBracket, if_true]
        cases tokensBehind false [] text <;> rfl
      · have blank : isBlank char = true := by
          refine (ends _ rfl).resolve_right fun isEnd => isBracket ?_
          simpa using isEnd
        simp only [isBracket, blank, if_true]
        cases tokensBehind false [] text <;> rfl

theorem tokens_cons_of_blank {char : Char} (blank : isBlank char = true) (text : Text) :
    tokens (char :: text) = tokens text := by
  have notQuote : char ≠ quoteMark := by
    rintro rfl
    cases blank
  have notBracket : ¬(char = '(' ∨ char = ')') := by
    rintro (rfl | rfl) <;> cases blank
  unfold tokens
  simp only [tokensBehind, if_neg notQuote, Bool.false_eq_true, if_false]
  rw [if_neg (by simpa using notBracket), if_pos blank]
  cases tokensBehind false [] text <;> rfl

theorem tokens_cons_of_bracket {char : Char} (isBracket : char = '(' ∨ char = ')')
    (text : Text) : tokens (char :: text) = (tokens text).map ([char] :: ·) := by
  have notQuote : char ≠ quoteMark := by
    rcases isBracket with rfl | rfl <;> decide
  unfold tokens
  simp only [tokensBehind, if_neg notQuote, Bool.false_eq_true, if_false]
  rw [if_pos (by simpa using isBracket)]
  cases tokensBehind false [] text <;> rfl

theorem tokens_word {word : Text} (isSome : word ≠ [])
    (together : holdsTogether false word = true) {rest : Text} (ends : EndsWord rest) :
    tokens (word ++ rest) = (tokens rest).map (word :: ·) := by
  have closing : closeToken word = (word :: ·) := by
    funext tokens
    rw [closeToken, if_neg (by simpa [List.isEmpty_iff] using isSome)]
  rw [tokens, tokensBehind_append together, List.nil_append, tokensBehind_eq ends, closing]

/-- The tokens of a text that does not run into what stands behind it. -/
def Tokenizes (text : Text) (found : List Text) : Prop :=
  ∀ rest, EndsWord rest → tokens (text ++ rest) = (tokens rest).map (found ++ ·)

theorem Tokenizes.of_word {word : Text} (isSome : word ≠ [])
    (together : holdsTogether false word = true) : Tokenizes word [word] :=
  fun _ ends => tokens_word isSome together ends

theorem Tokenizes.append {left right : Text} {before behind : List Text}
    (leftTokens : Tokenizes left before) (rightTokens : Tokenizes right behind) :
    Tokenizes (left ++ ' ' :: right) (before ++ behind) := by
  intro rest ends
  rw [List.append_assoc, List.cons_append,
    leftTokens _ (endsWord_cons (.inl (by decide)) _), tokens_cons_of_blank (by decide),
    rightTokens rest ends]
  cases tokens rest with
  | error fault => rfl
  | ok found => simp [Except.map]

theorem Tokenizes.bracket {text : Text} {found : List Text} (areTokens : Tokenizes text found) :
    Tokenizes ('(' :: text ++ [')']) ("(".toList :: (found ++ [")".toList])) := by
  intro rest ends
  rw [List.cons_append, List.cons_append, tokens_cons_of_bracket (.inl rfl), List.append_assoc,
    List.singleton_append, areTokens _ (endsWord_cons (.inr (.inr rfl)) _),
    tokens_cons_of_bracket (.inr rfl)]
  cases tokens rest with
  | error fault => rfl
  | ok found => simp [Except.map]

theorem mem_closeToken {token other : Text} {rest : List Text}
    (isMember : other ∈ closeToken token rest) : other ∈ rest ∨ other = token ∧ other ≠ [] := by
  unfold closeToken at isMember
  split at isMember
  · exact .inl isMember
  · rename_i isSome
    rcases List.mem_cons.mp isMember with rfl | isMember
    · exact .inr ⟨rfl, by simpa [List.isEmpty_iff] using isSome⟩
    · exact .inl isMember

/-- A token is a bracket, or it holds together and stands in the text. -/
theorem mem_tokensBehind {isOpen : Bool} {token text : Text} {tokens : List Text}
    (areTokens : tokensBehind isOpen token text = .ok tokens)
    (goesOn : ∀ tail, holdsTogether isOpen tail = holdsTogether false (token ++ tail)) :
    ∀ other ∈ tokens, other = "(".toList ∨ other = ")".toList ∨
      other ≠ [] ∧ holdsTogether false other = true ∧ ∀ char ∈ other, char ∈ token ++ text := by
  induction text generalizing isOpen token tokens with
  | nil =>
      simp only [tokensBehind] at areTokens
      split at areTokens
      · cases areTokens
      · rename_i closed
        cases areTokens
        intro other isMember
        rcases mem_closeToken isMember with isMember | ⟨rfl, isSome⟩
        · cases isMember
        · have together := goesOn []
          rw [List.append_nil, holdsTogether] at together
          refine .inr (.inr ⟨isSome, ?_, by simp⟩)
          rw [← together]
          simpa using closed
  | cons char text inductionHypothesis =>
      have goesOnWith : ∀ {later : Bool} {others : List Text},
          tokensBehind later (token ++ [char]) text = .ok others →
          (∀ tail, holdsTogether later tail = holdsTogether isOpen (char :: tail)) →
          ∀ other ∈ others, other = "(".toList ∨ other = ")".toList ∨
            other ≠ [] ∧ holdsTogether false other = true ∧
              ∀ first ∈ other, first ∈ token ++ char :: text := by
        intro later others areTokens step other isMember
        have found := inductionHypothesis areTokens (fun tail => by
          rw [step, goesOn, List.append_assoc, List.singleton_append]) other isMember
        rwa [List.append_assoc, List.singleton_append] at found
      have closes : ∀ {rest others : List Text}, isOpen = false →
          tokensBehind false [] text = .ok rest →
          (∀ other ∈ others, other ∈ rest ∨ other = "(".toList ∨ other = ")".toList) →
          ∀ other ∈ closeToken token others, other = "(".toList ∨ other = ")".toList ∨
            other ≠ [] ∧ holdsTogether false other = true ∧
              ∀ first ∈ other, first ∈ token ++ char :: text := by
        intro rest others closed areTokens areOthers other isMember
        rcases mem_closeToken isMember with isMember | ⟨rfl, isSome⟩
        · rcases areOthers other isMember with isMember | isBracket | isBracket
          · rcases inductionHypothesis areTokens (fun _ => rfl) other isMember with
              isBracket | isBracket | ⟨isSome, together, within⟩
            · exact .inl isBracket
            · exact .inr (.inl isBracket)
            · refine .inr (.inr ⟨isSome, together, fun first isFirst => ?_⟩)
              exact List.mem_append_right _ (List.mem_cons_of_mem _ (within first isFirst))
          · exact .inl isBracket
          · exact .inr (.inl isBracket)
        · have together := goesOn []
          rw [closed, List.append_nil] at together
          exact .inr (.inr ⟨isSome, together.symm, fun first isFirst =>
            List.mem_append_left _ isFirst⟩)
      simp only [tokensBehind] at areTokens
      split at areTokens
      · rename_i isQuote
        exact goesOnWith areTokens fun tail => by rw [holdsTogether, if_pos isQuote]
      · rename_i notQuote
        split at areTokens
        · rename_i isOpen
          exact goesOnWith areTokens fun tail => by simp [holdsTogether, notQuote, isOpen]
        · rename_i notOpen
          have closed : isOpen = false := by simpa using notOpen
          split at areTokens
          · rename_i isBracket
            obtain ⟨rest, behind, same⟩ := Except.bind_eq_ok.mp areTokens
            cases same
            refine closes closed behind fun other isMember => ?_
            rcases List.mem_cons.mp isMember with rfl | isMember
            · simp only [Bool.or_eq_true, decide_eq_true_eq] at isBracket
              rcases isBracket with rfl | rfl
              · exact .inr (.inl rfl)
              · exact .inr (.inr rfl)
            · exact .inl isMember
          · rename_i notBracket
            split at areTokens
            · obtain ⟨rest, behind, same⟩ := Except.bind_eq_ok.mp areTokens
              cases same
              exact closes closed behind fun other isMember => .inl isMember
            · rename_i solid
              refine goesOnWith areTokens fun tail => ?_
              simp only [Bool.or_eq_true, decide_eq_true_eq, not_or] at notBracket
              simp [holdsTogether, notQuote, notBracket, solid, closed]

theorem mem_tokens {text : Text} {tokens : List Text} (areTokens : Condition.tokens text = .ok tokens)
    {token : Text} (isMember : token ∈ tokens) :
    token = "(".toList ∨ token = ")".toList ∨
      token ≠ [] ∧ holdsTogether false token = true ∧ ∀ char ∈ token, char ∈ text :=
  mem_tokensBehind areTokens (fun _ => rfl) token isMember

/-- The tokens of a line that are no brackets and no connectives are words. -/
theorem isWord_of_mem_tokens {text : Text} {tokens : List Text}
    (oneLine : ∀ char ∈ text, isLineBreak char = false)
    (areTokens : Condition.tokens text = .ok tokens) {token : Text} (isMember : token ∈ tokens)
    (notReserved : isWord token = true) : IsWord token := by
  rcases mem_tokens areTokens isMember with rfl | rfl | ⟨isSome, together, within⟩
  · cases notReserved
  · cases notReserved
  · exact ⟨isSome, together, notReserved, fun char isChar => oneLine char (within char isChar)⟩

end Condition

end Diachrony
