import Diachrony.Text.Basic

/-!
# Taking texts apart

What `after?`, `before?` and `cut?` take a text apart into is what `++` puts together
again, and `cut?` cuts at the first place where there is something to cut.  Texts are in
order when each one precedes those behind it, and a set of texts is in order.
-/
namespace Diachrony.Text

/-- What is said of all characters of a text is decided by looking at these, and not at all
characters there are. -/
instance (priority := 2000) (text : Text) (holds : Char → Prop) [DecidablePred holds] :
    Decidable (∀ char ∈ text, holds char) :=
  List.decidableBAll holds text

theorem after?_eq_some {lead text rest : Text} :
    after? lead text = some rest ↔ text = lead ++ rest := by
  induction lead generalizing text with
  | nil =>
      simp only [after?, Option.some.injEq, List.nil_append]
  | cons mark lead inductionHypothesis =>
      cases text with
      | nil => simp [after?]
      | cons char text =>
          simp only [after?, List.cons_append, List.cons.injEq]
          by_cases isMark : mark = char
          · rw [if_pos isMark, inductionHypothesis]
            exact ⟨fun rest => ⟨isMark.symm, rest⟩, And.right⟩
          · rw [if_neg isMark]
            constructor
            · intro gave
              cases gave
            · rintro ⟨isMark', -⟩
              exact absurd isMark'.symm isMark

@[simp] theorem after?_append (lead rest : Text) : after? lead (lead ++ rest) = some rest :=
  after?_eq_some.mpr rfl

/-- A beginning of two parts is taken off one after the other. -/
theorem after?_append_lead (first second text : Text) :
    after? (first ++ second) text = (after? first text).bind (after? second) := by
  induction first generalizing text with
  | nil => rfl
  | cons mark first inductionHypothesis =>
      cases text with
      | nil => rfl
      | cons char text =>
          simp only [List.cons_append, after?]
          split
          · exact inductionHypothesis text
          · rfl

/-- Whether two texts differ at some place that both of them have. -/
def partWays : Text → Text → Bool
  | first :: left, second :: right => first ≠ second || partWays left right
  | _, _ => false

/-- What begins otherwise does not begin so. -/
theorem after?_eq_none {lead other : Text} (apart : partWays lead other = true) (rest : Text) :
    after? lead (other ++ rest) = none := by
  induction lead generalizing other with
  | nil => cases apart
  | cons mark lead inductionHypothesis =>
      cases other with
      | nil => cases apart
      | cons char other =>
          simp only [List.cons_append, after?]
          by_cases isMark : mark = char
          · rw [if_pos isMark]
            simp only [partWays, isMark, ne_eq, not_true_eq_false, decide_false,
              Bool.false_or] at apart
            exact inductionHypothesis apart
          · rw [if_neg isMark]

theorem startsWith_iff {lead text : Text} :
    startsWith lead text = true ↔ ∃ rest, text = lead ++ rest := by
  unfold startsWith
  rw [Option.isSome_iff_exists]
  simp only [after?_eq_some]

theorem startsWith_eq_false {lead text : Text} :
    startsWith lead text = false ↔ after? lead text = none := by
  unfold startsWith
  rw [Option.isSome_eq_false_iff, Option.isNone_iff_eq_none]

theorem before?_eq_some {ending text rest : Text} :
    before? ending text = some rest ↔ text = rest ++ ending := by
  unfold before?
  simp only [Option.map_eq_some_iff, after?_eq_some]
  constructor
  · rintro ⟨reversed, isText, rfl⟩
    have same := congrArg List.reverse isText
    simpa using same
  · rintro rfl
    exact ⟨rest.reverse, by simp, by simp⟩

@[simp] theorem before?_append (rest ending : Text) :
    before? ending (rest ++ ending) = some rest :=
  before?_eq_some.mpr rfl

theorem endsWith_singleton {char : Char} {text : Text} :
    endsWith [char] text = true ↔ text.getLast? = some char := by
  unfold endsWith
  rw [Option.isSome_iff_exists, List.getLast?_eq_some_iff]
  simp only [before?_eq_some]

theorem cut?_eq_some {mark text head rest : Text} (isCut : cut? mark text = some (head, rest)) :
    text = head ++ (mark ++ rest) := by
  induction text generalizing head with
  | nil =>
      simp only [cut?] at isCut
      split at isCut
      · rename_i isEmpty
        cases isCut
        rw [isEmpty]
        rfl
      · cases isCut
  | cons char text inductionHypothesis =>
      simp only [cut?] at isCut
      cases isMark : after? mark (char :: text) with
      | some behind =>
          rw [isMark] at isCut
          obtain ⟨rfl, rfl⟩ := Prod.mk.inj (Option.some.inj isCut)
          rw [List.nil_append]
          exact after?_eq_some.mp isMark
      | none =>
          rw [isMark] at isCut
          dsimp only at isCut
          obtain ⟨⟨front, behind⟩, wasCut, same⟩ := Option.map_eq_some_iff.mp isCut
          obtain ⟨rfl, rfl⟩ := Prod.mk.inj same
          rw [inductionHypothesis wasCut]
          rfl

theorem occursIn_iff {mark text : Text} :
    occursIn mark text = true ↔ ∃ head rest, text = head ++ (mark ++ rest) := by
  unfold occursIn
  rw [Option.isSome_iff_exists]
  constructor
  · rintro ⟨⟨head, rest⟩, isCut⟩
    exact ⟨head, rest, cut?_eq_some isCut⟩
  · rintro ⟨head, rest, rfl⟩
    induction head with
    | nil =>
        rw [List.nil_append]
        cases isText : mark ++ rest with
        | nil =>
            rw [List.append_eq_nil_iff.mp isText |>.1]
            exact ⟨_, rfl⟩
        | cons char text =>
            refine ⟨([], rest), ?_⟩
            simp only [cut?]
            rw [← isText, after?_append]
    | cons char head inductionHypothesis =>
        obtain ⟨⟨front, behind⟩, isCut⟩ := inductionHypothesis
        simp only [List.cons_append, cut?]
        cases after? mark (char :: (head ++ (mark ++ rest))) with
        | some behind => exact ⟨_, rfl⟩
        | none =>
            rw [isCut]
            exact ⟨_, rfl⟩

theorem occursIn_eq_false {mark text : Text} :
    occursIn mark text = false ↔ cut? mark text = none := by
  unfold occursIn
  rw [Option.isSome_eq_false_iff, Option.isNone_iff_eq_none]

/-- A beginning that is no longer than a text is looked for in that text alone. -/
theorem after?_isNone_append {lead text : Text} (isNone : after? lead text = none)
    (fits : lead.length ≤ text.length) (rest : Text) : after? lead (text ++ rest) = none := by
  induction lead generalizing text with
  | nil => cases isNone
  | cons mark lead inductionHypothesis =>
      cases text with
      | nil => cases fits
      | cons char text =>
          simp only [after?, List.cons_append] at isNone ⊢
          split
          · rename_i isMark
            rw [if_pos isMark] at isNone
            exact inductionHypothesis isNone (Nat.le_of_succ_le_succ fits)
          · rfl

/-- A text is cut at a mark if the mark does not begin anywhere before. -/
theorem cut?_append {mark head : Text} (isMark : mark ≠ [])
    (isFirst : occursIn mark (head ++ mark.dropLast) = false) (rest : Text) :
    cut? mark (head ++ (mark ++ rest)) = some (head, rest) := by
  induction head with
  | nil =>
      obtain ⟨char, others, rfl⟩ := List.exists_cons_of_ne_nil isMark
      have found := after?_append (char :: others) rest
      rw [List.nil_append]
      simp only [List.cons_append, cut?] at found ⊢
      rw [found]
  | cons char head inductionHypothesis =>
      rw [occursIn_eq_false] at isFirst
      simp only [List.cons_append, cut?] at isFirst ⊢
      cases isHere : after? mark (char :: (head ++ mark.dropLast)) with
      | some behind =>
          rw [isHere] at isFirst
          cases isFirst
      | none =>
          rw [isHere] at isFirst
          dsimp only at isFirst
          have goesOn := Option.map_eq_none_iff.mp isFirst
          have isHere' := after?_isNone_append isHere (by
            simp only [List.length_cons, List.length_append, List.length_dropLast]
            omega) ([mark.getLast isMark] ++ rest)
          rw [List.cons_append, List.append_assoc, ← List.append_assoc mark.dropLast,
            List.dropLast_concat_getLast] at isHere'
          rw [isHere', inductionHypothesis (occursIn_eq_false.mpr goesOn)]
          rfl

/-- What is cut out of a text is cut out of it whatever stands behind the text. -/
theorem cut?_append_right {mark text head rest : Text} (isCut : cut? mark text = some (head, rest))
    (right : Text) : cut? mark (text ++ right) = some (head, rest ++ right) := by
  induction text generalizing head with
  | nil =>
      simp only [cut?] at isCut
      split at isCut
      · rename_i isEmpty
        cases isCut
        subst isEmpty
        cases right <;> rfl
      · cases isCut
  | cons char text inductionHypothesis =>
      have isText := cut?_eq_some isCut
      simp only [cut?, List.cons_append] at isCut ⊢
      cases isMark : after? mark (char :: text) with
      | some behind =>
          rw [isMark] at isCut
          cases isCut
          have isMark := after?_eq_some.mp isMark
          rw [← List.cons_append, isMark, List.append_assoc, after?_append]
      | none =>
          have fits : mark.length ≤ (char :: text).length := by
            rw [isText, List.length_append, List.length_append]
            omega
          rw [isMark] at isCut
          dsimp only at isCut
          obtain ⟨⟨front, behind⟩, wasCut, same⟩ := Option.map_eq_some_iff.mp isCut
          obtain ⟨rfl, rfl⟩ := Prod.mk.inj same
          rw [← List.cons_append, after?_isNone_append isMark fits right]
          dsimp only
          rw [inductionHypothesis wasCut]
          rfl

theorem occursIn_singleton {char : Char} {text : Text} :
    occursIn [char] text = true ↔ char ∈ text := by
  rw [occursIn_iff]
  constructor
  · rintro ⟨head, rest, rfl⟩
    simp
  · intro isMember
    obtain ⟨head, rest, rfl⟩ := List.append_of_mem isMember
    exact ⟨head, rest, rfl⟩

/-- A text is cut at the first occurrence of a character. -/
theorem cut?_char {char : Char} {head : Text} (isFirst : char ∉ head) (rest : Text) :
    cut? [char] (head ++ char :: rest) = some (head, rest) := by
  refine cut?_append (List.cons_ne_nil char []) ?_ rest
  rw [← Bool.not_eq_true, occursIn_singleton]
  simpa using isFirst

theorem cut?_char_eq_none {char : Char} {text : Text} :
    cut? [char] text = none ↔ char ∉ text := by
  rw [← occursIn_eq_false, ← Bool.not_eq_true, occursIn_singleton]

theorem not_mem_of_cut?_char {char : Char} {text head rest : Text}
    (isCut : cut? [char] text = some (head, rest)) : char ∉ head := by
  induction text generalizing head with
  | nil => cases isCut
  | cons first text inductionHypothesis =>
      simp only [cut?, after?] at isCut
      by_cases isFirst : char = first
      · rw [if_pos isFirst] at isCut
        cases isCut
        exact List.not_mem_nil
      · rw [if_neg isFirst] at isCut
        dsimp only at isCut
        obtain ⟨⟨front, behind⟩, wasCut, same⟩ := Option.map_eq_some_iff.mp isCut
        obtain ⟨rfl, rfl⟩ := Prod.mk.inj same
        rw [List.mem_cons, not_or]
        exact ⟨isFirst, inductionHypothesis wasCut⟩

theorem joinWith_cons (separator item : Text) {items : List Text} (areSome : items ≠ []) :
    joinWith separator (item :: items) = item ++ separator ++ joinWith separator items := by
  cases items with
  | nil => exact absurd rfl areSome
  | cons next items => rfl

theorem joinWith_append (separator : Text) {left right : List Text} (leftSome : left ≠ [])
    (rightSome : right ≠ []) :
    joinWith separator (left ++ right) =
      joinWith separator left ++ separator ++ joinWith separator right := by
  induction left with
  | nil => exact absurd rfl leftSome
  | cons item left inductionHypothesis =>
      cases left with
      | nil => exact joinWith_cons separator item rightSome
      | cons next left =>
          rw [List.cons_append, joinWith_cons separator item (by simp),
            inductionHypothesis (by simp), joinWith_cons separator item (by simp)]
          simp only [List.append_assoc]

theorem head?_joinWith (separator : Text) {item : Text} (isSome : item ≠ [])
    (items : List Text) : (joinWith separator (item :: items)).head? = item.head? := by
  cases items with
  | nil => rfl
  | cons next items =>
      obtain ⟨char, rest, rfl⟩ := List.exists_cons_of_ne_nil isSome
      rw [joinWith_cons separator _ (List.cons_ne_nil _ _), List.append_assoc]
      rfl

theorem getLast?_joinWith (separator : Text) {items : List Text} {item : Text}
    (isLast : items.getLast? = some item) (isSome : item ≠ []) :
    (joinWith separator items).getLast? = item.getLast? := by
  obtain ⟨front, rfl⟩ := List.getLast?_eq_some_iff.mp isLast
  by_cases isNone : front = []
  · rw [isNone]
    rfl
  · rw [joinWith_append separator isNone (List.cons_ne_nil _ _), List.getLast?_append,
      show joinWith separator [item] = item from rfl, List.getLast?_eq_some_getLast isSome]
    rfl

theorem mem_joinWith {separator : Text} {items : List Text} {char : Char}
    (isMember : char ∈ joinWith separator items) :
    char ∈ separator ∨ ∃ item ∈ items, char ∈ item := by
  induction items with
  | nil => cases isMember
  | cons item items inductionHypothesis =>
      cases items with
      | nil => exact .inr ⟨item, List.mem_cons_self, isMember⟩
      | cons next items =>
          rw [joinWith_cons separator item (by simp), List.mem_append, List.mem_append] at isMember
          rcases isMember with (inItem | inSeparator) | isLater
          · exact .inr ⟨item, List.mem_cons_self, inItem⟩
          · exact .inl inSeparator
          · rcases inductionHypothesis isLater with inSeparator | ⟨other, isOther, inOther⟩
            · exact .inl inSeparator
            · exact .inr ⟨other, List.mem_cons_of_mem _ isOther, inOther⟩

theorem pieces_ne_nil (inClass : Char → Bool) (text : Text) : pieces inClass text ≠ [] := by
  cases text with
  | nil => exact List.cons_ne_nil _ _
  | cons char text =>
      simp only [pieces]
      split
      · exact List.cons_ne_nil _ _
      · split <;> exact List.cons_ne_nil _ _

/-- A piece has no character of the class that a text is cut at, and no other characters
than the text. -/
theorem of_mem_pieces {inClass : Char → Bool} {text piece : Text}
    (isPiece : piece ∈ pieces inClass text) :
    ∀ char ∈ piece, inClass char = false ∧ char ∈ text := by
  induction text generalizing piece with
  | nil =>
      cases List.mem_singleton.mp isPiece
      exact fun _ isMember => nomatch isMember
  | cons first text inductionHypothesis =>
      intro char isMember
      simp only [pieces] at isPiece
      split at isPiece
      · rcases List.mem_cons.mp isPiece with rfl | isLater
        · cases isMember
        · exact (inductionHypothesis isLater char isMember).imp_right (List.mem_cons_of_mem _)
      · rename_i notInClass
        cases arePieces : pieces inClass text with
        | nil => exact absurd arePieces (pieces_ne_nil _ _)
        | cons next rest =>
            rw [arePieces] at isPiece inductionHypothesis
            rcases List.mem_cons.mp isPiece with rfl | isLater
            · rcases List.mem_cons.mp isMember with rfl | isMember
              · exact ⟨by simpa using notInClass, List.mem_cons_self⟩
              · exact (inductionHypothesis List.mem_cons_self char isMember).imp_right
                  (List.mem_cons_of_mem _)
            · exact (inductionHypothesis (List.mem_cons_of_mem _ isLater) char isMember).imp_right
                (List.mem_cons_of_mem _)

theorem joinWith_splitAt (separator : Char) (text : Text) :
    joinWith [separator] (splitAt separator text) = text := by
  unfold splitAt
  induction text with
  | nil => rfl
  | cons char text inductionHypothesis =>
      simp only [pieces]
      split
      · rename_i isSeparator
        rw [joinWith_cons _ _ (pieces_ne_nil _ _), inductionHypothesis]
        simpa using (beq_iff_eq.mp isSeparator).symm
      · cases arePieces : pieces (fun char => char == separator) text with
        | nil => exact absurd arePieces (pieces_ne_nil _ _)
        | cons piece rest =>
            rw [arePieces] at inductionHypothesis
            cases rest with
            | nil => simpa [joinWith] using inductionHypothesis
            | cons next rest => simpa [joinWith] using inductionHypothesis

theorem splitAt_append {separator : Char} {item : Text} (isWhole : separator ∉ item)
    (text : Text) :
    splitAt separator (item ++ separator :: text) = item :: splitAt separator text := by
  unfold splitAt
  induction item with
  | nil => simp [pieces]
  | cons char item inductionHypothesis =>
      rw [List.mem_cons, not_or] at isWhole
      obtain ⟨notHere, notLater⟩ := isWhole
      simp only [List.cons_append, pieces, inductionHypothesis notLater]
      rw [if_neg (by simpa using Ne.symm notHere)]

theorem splitAt_of_not_mem {separator : Char} {item : Text} (isWhole : separator ∉ item) :
    splitAt separator item = [item] := by
  unfold splitAt
  induction item with
  | nil => rfl
  | cons char item inductionHypothesis =>
      rw [List.mem_cons, not_or] at isWhole
      obtain ⟨notHere, notLater⟩ := isWhole
      simp only [pieces, inductionHypothesis notLater]
      rw [if_neg (by simpa using Ne.symm notHere)]

/-- What was joined by a separator comes apart again, if no item has the separator in it. -/
theorem splitAt_joinWith {separator : Char} {items : List Text} (areSome : items ≠ [])
    (areWhole : ∀ item ∈ items, separator ∉ item) :
    splitAt separator (joinWith [separator] items) = items := by
  induction items with
  | nil => exact absurd rfl areSome
  | cons item items inductionHypothesis =>
      have isWhole := areWhole item List.mem_cons_self
      cases items with
      | nil => exact splitAt_of_not_mem isWhole
      | cons next items =>
          rw [joinWith_cons _ _ (List.cons_ne_nil _ _), List.append_assoc,
            List.singleton_append, splitAt_append isWhole,
            inductionHypothesis (List.cons_ne_nil _ _) fun other isMember =>
              areWhole other (List.mem_cons_of_mem _ isMember)]

end Diachrony.Text
