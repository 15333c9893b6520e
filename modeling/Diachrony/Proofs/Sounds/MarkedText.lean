import Diachrony.MarkedText

/-!
# Stress among morpheme marks

A stretch of plain text is found again in the text with its marks: what stands in front of it is
what stood in front of it, and it holds the same characters.  It begins and ends with one of
them, so that marks around it stay outside and marks inside it make it longer.
-/
namespace Diachrony.MarkedText

variable {isMark : Char → Bool} {text front back : Text} {char : Char} {count : Nat}

def unmarked (isMark : Char → Bool) (text : Text) : Text :=
  text.filter fun char => !isMark char

theorem unmarked_append (front back : Text) :
    unmarked isMark (front ++ back) = unmarked isMark front ++ unmarked isMark back :=
  List.filter_append front back

theorem unmarked_cons_of_mark (isMarked : isMark char = true) :
    unmarked isMark (char :: text) = unmarked isMark text := by
  simp [unmarked, isMarked]

theorem unmarked_cons (notMark : isMark char = false) :
    unmarked isMark (char :: text) = char :: unmarked isMark text := by
  simp [unmarked, notMark]

/-- If there are more unmarked characters than some number, one has that many in front of it. -/
theorem exists_split (isBehind : count < (unmarked isMark text).length) :
    ∃ front char back, text = front ++ char :: back ∧ isMark char = false ∧
      (unmarked isMark front).length = count := by
  induction text generalizing count with
  | nil => simp [unmarked] at isBehind
  | cons first text inductionHypothesis =>
      cases isMarked : isMark first with
      | true =>
          rw [unmarked_cons_of_mark isMarked] at isBehind
          obtain ⟨front, char, back, isSplit, notMark, isCount⟩ := inductionHypothesis isBehind
          refine ⟨first :: front, char, back, by simp [isSplit], notMark, ?_⟩
          rwa [unmarked_cons_of_mark isMarked]
      | false =>
          rw [unmarked_cons isMarked, List.length_cons] at isBehind
          cases count with
          | zero => exact ⟨[], first, text, rfl, isMarked, rfl⟩
          | succ count =>
              obtain ⟨front, char, back, isSplit, notMark, isCount⟩ :=
                inductionHypothesis (Nat.lt_of_succ_lt_succ isBehind)
              refine ⟨first :: front, char, back, by simp [isSplit], notMark, ?_⟩
              rw [unmarked_cons isMarked, List.length_cons, isCount]

/-- The offset behind a number of unmarked characters is that of the next one, whatever marks
stand before it. -/
theorem offsetAfter_append (notMark : isMark char = false)
    (isCount : (unmarked isMark front).length = count) :
    offsetAfter isMark count (front ++ char :: back) = front.length := by
  induction front generalizing count with
  | nil =>
      subst isCount
      simp [unmarked, offsetAfter, notMark]
  | cons first front inductionHypothesis =>
      cases isMarked : isMark first with
      | true =>
          rw [unmarked_cons_of_mark isMarked] at isCount
          rw [List.length_cons, ← inductionHypothesis isCount]
          cases count <;> simp [offsetAfter, isMarked, Nat.add_comm 1]
      | false =>
          rw [unmarked_cons isMarked, List.length_cons] at isCount
          rw [List.length_cons, ← isCount, ← inductionHypothesis rfl]
          simp [offsetAfter, isMarked, Nat.add_comm 1]

/-- The shortest beginning with a number of unmarked characters ends with the last of them. -/
theorem lengthCovering_append (notMark : isMark char = false)
    (isCount : (unmarked isMark front).length = count) :
    lengthCovering isMark (count + 1) (front ++ char :: back) = front.length + 1 := by
  induction front generalizing count with
  | nil =>
      subst isCount
      simp [unmarked, lengthCovering, notMark]
  | cons first front inductionHypothesis =>
      cases isMarked : isMark first with
      | true =>
          rw [unmarked_cons_of_mark isMarked] at isCount
          rw [List.length_cons, ← inductionHypothesis isCount]
          simp [lengthCovering, isMarked, Nat.add_comm 1]
      | false =>
          rw [unmarked_cons isMarked, List.length_cons] at isCount
          rw [List.length_cons, ← inductionHypothesis rfl, isCount]
          simp [lengthCovering, isMarked, Nat.add_comm 1]

/-- A stretch of plain text, moved to the text with its marks, has the same characters in front
of it and in it, and no mark at its ends. -/
theorem reindex_keeps_stretch (isMark : Char → Bool) (text : Text) (offset length : Nat)
    (isFilled : 1 ≤ length) (fits : offset + length ≤ (unmarked isMark text).length) :
    let stretch := reindex isMark offset length text
    unmarked isMark (text.take stretch.offset) = (unmarked isMark text).take offset ∧
      unmarked isMark ((text.drop stretch.offset).take stretch.length) =
        ((unmarked isMark text).drop offset).take length ∧
      (∃ first, text[stretch.offset]? = some first ∧ isMark first = false) ∧
      ∃ last, text[stretch.offset + stretch.length - 1]? = some last ∧ isMark last = false := by
  have isBefore : offset < (unmarked isMark text).length := by omega
  obtain ⟨front, first, back, rfl, isFirst, isCount⟩ := exists_split isBefore
  obtain ⟨further, rfl⟩ := Nat.exists_eq_add_of_le' isFilled
  rw [unmarked_append, List.length_append, isCount] at fits
  have isWithin : further < (unmarked isMark (first :: back)).length := by omega
  obtain ⟨inside, last, behind, isInside, isLast, isCountInside⟩ := exists_split isWithin
  have isStretch : reindex isMark offset ↑(further + 1) (front ++ first :: back) =
      ⟨front.length, inside.length + 1⟩ := by
    unfold reindex
    simp only [Int.toNat_natCast]
    rw [offsetAfter_append isFirst isCount, List.drop_left, isInside,
      lengthCovering_append isLast isCountInside]
  have isBehind : unmarked isMark (first :: back) =
      unmarked isMark inside ++ last :: unmarked isMark behind := by
    rw [isInside, unmarked_append, unmarked_cons isLast]
  rw [isStretch]
  refine ⟨?_, ?_, ⟨first, by simp, isFirst⟩, ⟨last, ?_, isLast⟩⟩
  · rw [List.take_left, unmarked_append, List.take_left' isCount]
  · rw [List.drop_left, unmarked_append, List.drop_left' isCount, isBehind, isInside,
      List.take_length_add_append, ← isCountInside, List.take_length_add_append, unmarked_append]
    simp [unmarked, isLast]
  · have isEnd : front.length + (inside.length + 1) - 1 = front.length + inside.length := by omega
    rw [isEnd, isInside]
    simp

/-- Marks in front of a stretch, inside it and behind it. -/
theorem reindex_keeps_stretch_everywhere :
    let text : Text := "-a--b-cd-e--"
    1 ≤ 3 ∧ 1 + 3 ≤ (unmarked (· == '-') text).length ∧
      reindex (· == '-') (1 : Nat) (3 : Nat) text = ⟨4, 4⟩ ∧
      unmarked (· == '-') (text.take 4) = ['a'] ∧
      unmarked (· == '-') ((text.drop 4).take 4) = ['b', 'c', 'd'] := by
  have isFilled : 1 ≤ 3 := by decide
  have fits : 1 + 3 ≤ (unmarked (· == '-') "-a--b-cd-e--").length := by decide
  have isStretch : reindex (· == '-') (1 : Nat) (3 : Nat) "-a--b-cd-e--" = ⟨4, 4⟩ := by decide
  obtain ⟨isFront, isInside, -, -⟩ :=
    reindex_keeps_stretch (· == '-') "-a--b-cd-e--" 1 3 isFilled fits
  rw [isStretch] at isFront isInside
  exact ⟨isFilled, fits, isStretch, isFront.trans (by decide), isInside.trans (by decide)⟩

end Diachrony.MarkedText
