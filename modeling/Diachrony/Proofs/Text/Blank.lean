import Diachrony.Proofs.Text.Basic
import Diachrony.Text.Blank
import Mathlib.Data.List.DropRight

/-!
# Blanks

Squeezing a text leaves its words and sets one space between neighbours.  A text that
squeezing leaves as it is, a tight one, is one whose words stand so already; its parts
in front of a space and behind it are tight as well, and tight parts may be put
together again with a space between them.
-/
namespace Diachrony.Text

theorem words_cons_of_blank {char : Char} (blank : isBlank char = true) (text : Text) :
    words (char :: text) = words text := by
  simp [words, pieces, blank]

theorem words_append_blank {char : Char} (blank : isBlank char = true) (left right : Text) :
    words (left ++ char :: right) = words left ++ words right := by
  have cut : pieces isBlank (left ++ char :: right) =
      pieces isBlank left ++ pieces isBlank right := by
    induction left with
    | nil => simp [pieces, blank]
    | cons first left inductionHypothesis =>
        simp only [List.cons_append, pieces, inductionHypothesis]
        split
        · rfl
        · cases arePieces : pieces isBlank left with
          | nil => exact absurd arePieces (pieces_ne_nil _ _)
          | cons piece rest => rfl
  simp only [words, cut, List.filter_append]

theorem words_of_solid {text : Text} (isSome : text ≠ [])
    (solid : ∀ char ∈ text, isBlank char = false) : words text = [text] := by
  have whole : pieces isBlank text = [text] := by
    clear isSome
    induction text with
    | nil => rfl
    | cons char text inductionHypothesis =>
        have rest := inductionHypothesis fun other isMember =>
          solid other (List.mem_cons_of_mem _ isMember)
        simp [pieces, solid char List.mem_cons_self, rest]
  simpa [words, whole] using isSome

def IsSolid (text : Text) : Prop := text ≠ [] ∧ ∀ char ∈ text, isBlank char = false

instance (text : Text) : Decidable (IsSolid text) := inferInstanceAs (Decidable (_ ∧ _))

theorem solid_of_mem_words {text word : Text} (isWord : word ∈ words text) : IsSolid word := by
  obtain ⟨isPiece, isSome⟩ := List.mem_filter.mp isWord
  exact ⟨by simpa using isSome, fun char isMember => (of_mem_pieces isPiece char isMember).1⟩

/-- Words that are joined by what is not blank make one word. -/
theorem solid_joinWith {separator : Text} (isSolid : ∀ char ∈ separator, isBlank char = false)
    {items : List Text} (areSome : items ≠ []) (areSolid : ∀ item ∈ items, IsSolid item) :
    IsSolid (joinWith separator items) := by
  constructor
  · obtain ⟨item, items, rfl⟩ := List.exists_cons_of_ne_nil areSome
    have itemSome := (areSolid item List.mem_cons_self).1
    have sameHead := head?_joinWith separator itemSome items
    intro isNone
    rw [isNone, List.head?_nil, eq_comm, List.head?_eq_none_iff] at sameHead
    exact itemSome sameHead
  · intro char isMember
    rcases mem_joinWith isMember with inSeparator | ⟨item, isItem, isMember⟩
    · exact isSolid char inSeparator
    · exact (areSolid item isItem).2 char isMember

/-- Words that were joined by spaces are the words of what they make. -/
theorem words_joinWith {texts : List Text} (areSolid : ∀ text ∈ texts, IsSolid text) :
    words (joinWith [' '] texts) = texts := by
  induction texts with
  | nil => rfl
  | cons text texts inductionHypothesis =>
      obtain ⟨isSome, solid⟩ := areSolid text List.mem_cons_self
      cases texts with
      | nil => exact words_of_solid isSome solid
      | cons next texts =>
          have rest := inductionHypothesis fun other isMember =>
            areSolid other (List.mem_cons_of_mem _ isMember)
          rw [joinWith_cons _ _ (List.cons_ne_nil _ _), List.append_assoc,
            List.singleton_append, words_append_blank (by decide), rest,
            words_of_solid isSome solid, List.singleton_append]

/-- The words of texts that were joined by spaces are those of each of them. -/
theorem words_joinWith_eq_flatMap (texts : List Text) :
    words (joinWith [' '] texts) = texts.flatMap words := by
  induction texts with
  | nil => rfl
  | cons text texts inductionHypothesis =>
      cases texts with
      | nil => simp [joinWith]
      | cons next texts =>
          rw [joinWith_cons _ _ (List.cons_ne_nil _ _), List.append_assoc,
            List.singleton_append, words_append_blank (by decide), inductionHypothesis]
          simp only [List.flatMap_cons]

theorem squeeze_eq (text : Text) : squeeze text = joinWith [' '] (words text) := rfl

theorem squeeze_joinWith {texts : List Text} (areSolid : ∀ text ∈ texts, IsSolid text) :
    squeeze (joinWith [' '] texts) = joinWith [' '] texts := by
  rw [squeeze_eq, words_joinWith areSolid]

theorem squeeze_squeeze (text : Text) : squeeze (squeeze text) = squeeze text :=
  squeeze_joinWith fun _ => solid_of_mem_words

@[simp] theorem squeeze_nil : squeeze [] = [] := rfl

theorem squeeze_cons_of_blank {char : Char} (blank : isBlank char = true) (text : Text) :
    squeeze (char :: text) = squeeze text := by
  unfold squeeze
  rw [words_cons_of_blank blank]

/-- What squeezing leaves behind a character that is not blank. -/
def gap (text : Text) : Text :=
  if text.head?.any isBlank && !(squeeze text).isEmpty then ' ' :: squeeze text
  else squeeze text

theorem words_eq_nil_of_squeeze {text : Text} (isNone : squeeze text = []) : words text = [] := by
  have same : words (squeeze text) = words text := words_joinWith fun _ => solid_of_mem_words
  rw [← same, isNone]
  rfl

theorem squeeze_cons_of_solid {char : Char} (solid : isBlank char = false) (text : Text) :
    squeeze (char :: text) = char :: gap text := by
  cases text with
  | nil => simp [squeeze, words, pieces, solid, joinWith, gap]
  | cons next text =>
      unfold gap
      by_cases blank : isBlank next = true
      · have behind := words_append_blank blank [char] text
        rw [words_of_solid (List.cons_ne_nil _ _) (by simpa using solid)] at behind
        rw [squeeze_cons_of_blank blank]
        rw [← List.singleton_append, squeeze_eq, behind]
        cases areWords : words text with
        | nil => simp [joinWith, squeeze_eq, areWords]
        | cons word rest =>
            have isSome : squeeze text ≠ [] := by
              intro isNone
              rw [words_eq_nil_of_squeeze isNone] at areWords
              cases areWords
            rw [squeeze_eq, areWords] at isSome
            simp [blank, isSome, joinWith, squeeze_eq, areWords]
      · have notBlank : isBlank next = false := by simpa using blank
        cases arePieces : pieces isBlank text with
        | nil => exact absurd arePieces (pieces_ne_nil _ _)
        | cons piece rest =>
            simp only [squeeze, words, pieces, solid, notBlank, arePieces, Bool.false_eq_true,
              if_false, List.head?_cons, Option.any_some, Bool.false_and,
              List.filter_cons, List.isEmpty_cons, Bool.not_false, if_true]
            cases (rest.filter fun piece => !piece.isEmpty) <;> rfl

theorem length_squeeze (text : Text) :
    (squeeze text).length ≤ text.length ∧
      (text.head?.any isBlank = true → (squeeze text).length < text.length) := by
  induction text with
  | nil => simp
  | cons char text inductionHypothesis =>
      obtain ⟨noLonger, shorter⟩ := inductionHypothesis
      by_cases blank : isBlank char = true
      · rw [squeeze_cons_of_blank blank, List.length_cons]
        exact ⟨by omega, fun _ => by omega⟩
      · have solid : isBlank char = false := by simpa using blank
        rw [squeeze_cons_of_solid solid, List.length_cons, List.length_cons]
        refine ⟨?_, by simp [solid]⟩
        unfold gap
        split
        · rename_i behindBlank
          have shorter := shorter (Bool.and_eq_true _ _ ▸ behindBlank).1
          rw [List.length_cons]
          omega
        · omega

theorem mem_squeeze {char : Char} {text : Text} (isMember : char ∈ squeeze text) :
    char = ' ' ∨ char ∈ text ∧ isBlank char = false := by
  induction text with
  | nil => cases isMember
  | cons first text inductionHypothesis =>
      by_cases blank : isBlank first = true
      · rw [squeeze_cons_of_blank blank] at isMember
        rcases inductionHypothesis isMember with isSpace | ⟨isMember, solid⟩
        · exact .inl isSpace
        · exact .inr ⟨List.mem_cons_of_mem _ isMember, solid⟩
      · have solid : isBlank first = false := by simpa using blank
        rw [squeeze_cons_of_solid solid] at isMember
        rcases List.mem_cons.mp isMember with rfl | isMember
        · exact .inr ⟨List.mem_cons_self, solid⟩
        · have inSqueeze : char = ' ' ∨ char ∈ squeeze text := by
            unfold gap at isMember
            split at isMember
            · exact List.mem_cons.mp isMember
            · exact .inr isMember
          rcases inSqueeze with isSpace | isMember
          · exact .inl isSpace
          · rcases inductionHypothesis isMember with isSpace | ⟨isMember, solid⟩
            · exact .inl isSpace
            · exact .inr ⟨List.mem_cons_of_mem _ isMember, solid⟩

theorem mem_squeeze_of_solid {char : Char} {text : Text} (isMember : char ∈ text)
    (solid : isBlank char = false) : char ∈ squeeze text := by
  induction text with
  | nil => cases isMember
  | cons first text inductionHypothesis =>
      by_cases blank : isBlank first = true
      · rw [squeeze_cons_of_blank blank]
        rcases List.mem_cons.mp isMember with rfl | isMember
        · rw [blank] at solid
          cases solid
        · exact inductionHypothesis isMember
      · rw [squeeze_cons_of_solid (by simpa using blank)]
        rcases List.mem_cons.mp isMember with rfl | isMember
        · exact List.mem_cons_self
        · refine List.mem_cons_of_mem _ ?_
          unfold gap
          split
          · exact List.mem_cons_of_mem _ (inductionHypothesis isMember)
          · exact inductionHypothesis isMember

/-- A text is tight if squeezing leaves it as it is and there is something of it. -/
structure Tight (text : Text) : Prop where
  squeezed : squeeze text = text
  isSome : text ≠ []

theorem tight_squeeze {text : Text} (isSome : squeeze text ≠ []) : Tight (squeeze text) :=
  ⟨squeeze_squeeze text, isSome⟩

theorem squeeze_append_blank {left right : Text} (leftSome : squeeze left ≠ [])
    (rightSome : squeeze right ≠ []) :
    squeeze (left ++ ' ' :: right) = squeeze left ++ ' ' :: squeeze right := by
  have leftWords : words left ≠ [] := fun isNone => leftSome (by rw [squeeze_eq, isNone]; rfl)
  have rightWords : words right ≠ [] := fun isNone => rightSome (by rw [squeeze_eq, isNone]; rfl)
  rw [squeeze_eq, words_append_blank (by decide), joinWith_append _ leftWords rightWords,
    ← squeeze_eq, ← squeeze_eq, List.append_assoc, List.singleton_append]

theorem Tight.append {left right : Text} (leftTight : Tight left) (rightTight : Tight right) :
    Tight (left ++ ' ' :: right) := by
  have leftSome := leftTight.squeezed.symm ▸ leftTight.isSome
  have rightSome := rightTight.squeezed.symm ▸ rightTight.isSome
  refine ⟨?_, by simp⟩
  rw [squeeze_append_blank leftSome rightSome, leftTight.squeezed, rightTight.squeezed]

/-- The parts of a tight text in front of a space and behind it are tight. -/
theorem Tight.of_append {left right : Text} (tight : Tight (left ++ ' ' :: right)) :
    Tight left ∧ Tight right := by
  have total := congrArg List.length tight.squeezed
  have leftLength := (length_squeeze left).1
  have rightLength := (length_squeeze right).1
  have behind : words (left ++ ' ' :: right) = words left ++ words right :=
    words_append_blank (by decide) left right
  by_cases leftSome : squeeze left = []
  · have noWords := words_eq_nil_of_squeeze leftSome
    rw [squeeze_eq, behind, noWords, List.nil_append, ← squeeze_eq, List.length_append,
      List.length_cons] at total
    omega
  · by_cases rightSome : squeeze right = []
    · have noWords := words_eq_nil_of_squeeze rightSome
      rw [squeeze_eq, behind, noWords, List.append_nil, ← squeeze_eq, List.length_append,
        List.length_cons] at total
      omega
    · have squeezed := tight.squeezed
      rw [squeeze_append_blank leftSome rightSome] at squeezed total
      simp only [List.length_append, List.length_cons] at total
      obtain ⟨sameLeft, sameRight⟩ := List.append_inj squeezed (by omega)
      rw [List.cons.injEq] at sameRight
      exact ⟨⟨sameLeft, sameLeft ▸ leftSome⟩, ⟨sameRight.2, sameRight.2 ▸ rightSome⟩⟩

theorem Tight.solid_or_space {text : Text} (tight : Tight text) (char : Char)
    (isMember : char ∈ text) : char = ' ' ∨ isBlank char = false := by
  rw [← tight.squeezed] at isMember
  exact (mem_squeeze isMember).imp_right And.right

theorem tight_of_solid {text : Text} (isSome : text ≠ [])
    (solid : ∀ char ∈ text, isBlank char = false) : Tight text := by
  refine ⟨?_, isSome⟩
  rw [squeeze_eq, words_of_solid isSome solid]
  rfl

theorem Tight.head_solid {char : Char} {text : Text} (tight : Tight (char :: text)) :
    isBlank char = false := by
  by_cases blank : isBlank char = true
  · have shorter := (length_squeeze (char :: text)).2 (by simpa using blank)
    rw [tight.squeezed] at shorter
    omega
  · simpa using blank

theorem Tight.last_solid {char : Char} {text : Text} (tight : Tight (text ++ [char])) :
    isBlank char = false := by
  rcases tight.solid_or_space char (by simp) with isSpace | solid
  · subst isSpace
    exact absurd rfl tight.of_append.2.isSome
  · exact solid

theorem trim_eq (text : Text) :
    trim text = List.rdropWhile isBlank (text.dropWhile isBlank) := rfl

theorem trim_cons_of_solid {char : Char} (solid : isBlank char = false) (text : Text) :
    trim (char :: text) = char :: trimEnd text := by
  rw [trim_eq, List.dropWhile_cons_of_neg (by simpa using solid)]
  unfold trimEnd stripEnd List.rdropWhile
  rw [List.reverse_cons, List.dropWhile_append]
  split
  · rename_i isNone
    simp [List.isEmpty_iff.mp isNone, solid]
  · simp

theorem trim_cons_of_blank {char : Char} (blank : isBlank char = true) (text : Text) :
    trim (char :: text) = trim text := by
  rw [trim_eq, List.dropWhile_cons_of_pos blank, ← trim_eq]

theorem trimEnd_of_solid {text : Text}
    (last : ∀ char, text.getLast? = some char → isBlank char = false) : trimEnd text = text := by
  refine List.rdropWhile_eq_self_iff.mpr fun isSome => ?_
  rw [last _ (List.getLast?_eq_some_getLast isSome)]
  exact Bool.false_ne_true

/-- A text with nothing blank at either end stays as it is. -/
theorem trim_of_solid {text : Text}
    (first : ∀ char, text.head? = some char → isBlank char = false)
    (last : ∀ char, text.getLast? = some char → isBlank char = false) : trim text = text := by
  cases text with
  | nil => rfl
  | cons char text =>
      have kept := trimEnd_of_solid last
      have solid := first char rfl
      rw [trim_eq, List.dropWhile_cons_of_neg (by simpa using solid)]
      exact kept

theorem Tight.trim {text : Text} (tight : Tight text) : Text.trim text = text := by
  refine trim_of_solid (fun char isFirst => ?_) fun char isLast => ?_
  · cases text with
    | nil => cases isFirst
    | cons first text =>
        cases isFirst
        exact tight.head_solid
  · obtain ⟨front, rfl⟩ := List.getLast?_eq_some_iff.mp isLast
    exact tight.last_solid

theorem head_trim_solid {char : Char} {text : Text} (isFirst : (trim text).head? = some char) :
    isBlank char = false := by
  obtain ⟨rest, isTrimmed⟩ := List.head?_eq_some_iff.mp isFirst
  obtain ⟨back, whole⟩ := List.rdropWhile_prefix isBlank (text.dropWhile isBlank)
  rw [← trim_eq, isTrimmed] at whole
  have solid := List.head?_dropWhile_not isBlank text
  rw [← whole] at solid
  simpa using solid

theorem last_trim_solid {char : Char} {text : Text} (isLast : (trim text).getLast? = some char) :
    isBlank char = false := by
  have isSome : List.rdropWhile isBlank (text.dropWhile isBlank) ≠ [] := by
    intro isNone
    rw [trim_eq, isNone] at isLast
    cases isLast
  have solid := List.rdropWhile_last_not isBlank _ isSome
  rw [trim_eq, List.getLast?_eq_some_getLast isSome, Option.some.injEq] at isLast
  simpa [isLast] using solid

theorem trim_trim (text : Text) : trim (trim text) = trim text :=
  trim_of_solid (fun _ => head_trim_solid) fun _ => last_trim_solid

theorem trim_append_of_blank {front : Text} (blank : ∀ char ∈ front, isBlank char = true)
    (text : Text) : trim (front ++ text) = trim text := by
  rw [trim_eq, List.dropWhile_append_of_pos blank, ← trim_eq]

/-- What trimming takes off is blank. -/
theorem trim_spec (text : Text) :
    ∃ front back, text = front ++ (trim text ++ back) ∧
      (∀ char ∈ front, isBlank char = true) ∧ ∀ char ∈ back, isBlank char = true := by
  refine ⟨text.takeWhile isBlank, List.rtakeWhile isBlank (text.dropWhile isBlank), ?_,
    fun char => List.mem_takeWhile_imp, fun char => List.mem_rtakeWhile_imp⟩
  rw [trim_eq, List.rdropWhile_append_rtakeWhile, List.takeWhile_append_dropWhile]

theorem mem_of_mem_trim {text : Text} {char : Char} (isMember : char ∈ trim text) :
    char ∈ text := by
  obtain ⟨front, back, whole, -, -⟩ := trim_spec text
  rw [whole]
  exact List.mem_append_right front (List.mem_append_left back isMember)

theorem rdropWhile_append_of_blank {back : Text} (blank : ∀ char ∈ back, isBlank char = true)
    (text : Text) : List.rdropWhile isBlank (text ++ back) = List.rdropWhile isBlank text := by
  unfold List.rdropWhile
  rw [List.reverse_append, List.dropWhile_append_of_pos fun char isMember =>
    blank char (List.mem_reverse.mp isMember)]

theorem trim_append_blank {back : Text} (blank : ∀ char ∈ back, isBlank char = true)
    (text : Text) : trim (text ++ back) = trim text := by
  rw [trim_eq, trim_eq, List.dropWhile_append]
  split
  · rename_i isNone
    rw [List.isEmpty_iff.mp isNone, List.dropWhile_eq_nil_iff.mpr blank]
  · rw [rdropWhile_append_of_blank blank]

theorem trim_trimEnd (text : Text) : trim (trimEnd text) = trim text := by
  have whole : trimEnd text ++ List.rtakeWhile isBlank text = text :=
    List.rdropWhile_append_rtakeWhile
  have blank : ∀ char ∈ List.rtakeWhile isBlank text, isBlank char = true :=
    fun _ => List.mem_rtakeWhile_imp
  have trimmed := trim_append_blank blank (trimEnd text)
  rw [← trimmed]
  exact congrArg trim whole

theorem isLineBreak_of_solid {char : Char} (solid : isBlank char = false) :
    isLineBreak char = false := by
  simp only [isBlank, isLineBreak, Bool.or_eq_false_iff, Bool.and_eq_false_iff,
    decide_eq_false_iff_not, beq_eq_false_iff_ne] at solid ⊢
  omega

/-- A tight text is one line. -/
theorem Tight.isLineBreak {text : Text} (tight : Tight text) {char : Char}
    (isMember : char ∈ text) : Text.isLineBreak char = false := by
  rcases tight.solid_or_space _ isMember with rfl | solid
  · decide
  · exact isLineBreak_of_solid solid

theorem lines_append {line : Text} (whole : ∀ char ∈ line, isLineBreak char = false)
    (text : Text) : lines (line ++ '\n' :: text) = line :: lines text := by
  induction line with
  | nil => rfl
  | cons char line inductionHypothesis =>
      have notBreak := whole char List.mem_cons_self
      have rest := inductionHypothesis fun other isMember =>
        whole other (List.mem_cons_of_mem _ isMember)
      rw [List.cons_append, lines]
      · simp [notBreak, rest]
      · rintro _ rfl
        cases notBreak

theorem numberedLines_snd (text : Text) : (numberedLines text).map Prod.snd = lines text := by
  unfold numberedLines
  rw [List.map_map]
  exact List.zipIdx_map_fst 0 _

/-- No line has a break in it. -/
theorem whole_of_mem_lines {text line : Text} (isLine : line ∈ lines text) :
    ∀ char ∈ line, isLineBreak char = false := by
  induction text using lines.induct generalizing line with
  | case1 => cases isLine
  | case2 text inductionHypothesis =>
      rw [lines] at isLine
      rcases List.mem_cons.mp isLine with rfl | isLine
      · exact fun _ isMember => nomatch isMember
      · exact inductionHypothesis isLine
  | case3 char text notReturn isBreak inductionHypothesis =>
      rw [lines, if_pos isBreak] at isLine
      · rcases List.mem_cons.mp isLine with rfl | isLine
        · exact fun _ isMember => nomatch isMember
        · exact inductionHypothesis isLine
      · exact notReturn
  | case4 char text notReturn notBreak areLines inductionHypothesis =>
      rw [lines, if_neg notBreak, areLines] at isLine
      · cases List.mem_singleton.mp isLine
        simpa using notBreak
      · exact notReturn
  | case5 char text notReturn notBreak first rest areLines inductionHypothesis =>
      rw [lines, if_neg notBreak, areLines] at isLine
      · rw [areLines] at inductionHypothesis
        rcases List.mem_cons.mp isLine with rfl | isLine
        · intro other isMember
          rcases List.mem_cons.mp isMember with rfl | isMember
          · simpa using notBreak
          · exact inductionHypothesis List.mem_cons_self other isMember
        · exact inductionHypothesis (List.mem_cons_of_mem _ isLine)
      · exact notReturn

theorem lines_of_whole {line : Text} (isSome : line ≠ [])
    (whole : ∀ char ∈ line, isLineBreak char = false) : lines line = [line] := by
  induction line with
  | nil => exact absurd rfl isSome
  | cons char line inductionHypothesis =>
      have notBreak := whole char List.mem_cons_self
      rw [lines]
      · cases line with
        | nil => simp [notBreak, lines]
        | cons next line =>
            have rest := inductionHypothesis (List.cons_ne_nil _ _) fun other isMember =>
              whole other (List.mem_cons_of_mem _ isMember)
            simp [notBreak, rest]
      · rintro _ rfl
        cases notBreak

/-- Lines that were joined by line feeds are the lines of what they make, unless the last
one is empty. -/
theorem lines_joinWith {texts : List Text}
    (areWhole : ∀ text ∈ texts, ∀ char ∈ text, isLineBreak char = false)
    (lastSome : texts.getLast? ≠ some []) : lines (joinWith ['\n'] texts) = texts := by
  induction texts with
  | nil => rfl
  | cons text texts inductionHypothesis =>
      have whole := areWhole text List.mem_cons_self
      cases texts with
      | nil =>
          refine lines_of_whole ?_ whole
          rintro rfl
          exact lastSome rfl
      | cons next texts =>
          rw [joinWith_cons _ _ (List.cons_ne_nil _ _), List.append_assoc,
            List.singleton_append, lines_append whole,
            inductionHypothesis (fun other isMember =>
              areWhole other (List.mem_cons_of_mem _ isMember)) ?_]
          rwa [List.getLast?_cons_cons] at lastSome

end Diachrony.Text
