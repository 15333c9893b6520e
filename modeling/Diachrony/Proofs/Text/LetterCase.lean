import Diachrony.Proofs.Text.Basic
import Diachrony.Text.LetterCase
import Mathlib.Data.List.TakeWhile

/-!
# Letter case at the end of a text

The end of a lowered text need not be the lowered end of the text.  Two characters stand between
the two: the capital I with a dot is two characters in lower case, so that lengths differ, and a
capital sigma is lowered by what stands around it, so that it may be final in a text and not
final when the end of that text stands alone.
-/
namespace Diachrony.Text

variable {char : Char} {before seen stem text taken ending : Text}

/-- The capital I with a dot, the one character that is two characters in lower case. -/
def dottedI : Char := Char.ofNat 0x130

theorem length_lowerChar (char : Char) :
    (lowerChar char).length = if char = dottedI then 2 else 1 := by
  by_cases isDotted : char = dottedI
  · rw [if_pos isDotted, isDotted]
    decide
  · have notDotted : char.toNat ≠ 0x130 := by
      intro same
      rw [← Char.ofNat_toNat char, same] at isDotted
      exact isDotted rfl
    unfold lowerChar
    rw [if_neg isDotted]
    by_cases isBasic : char.toNat < 0x80
    · rw [if_pos isBasic]
      rfl
    · rw [if_neg isBasic, if_neg notDotted]
      dsimp only
      split
      · rfl
      · rfl

theorem length_lowerBehind (before text : Text) :
    (lowerBehind before text).length = text.length + text.count dottedI := by
  induction text generalizing before with
  | nil => rfl
  | cons char text inductionHypothesis =>
      rw [lowerBehind, List.length_append, inductionHypothesis, List.length_cons, List.count_cons]
      by_cases isSigma : char = capitalSigma
      · have notDotted : (char == dottedI) = false := by
          rw [isSigma]
          decide
        rw [if_pos isSigma, notDotted, if_neg Bool.false_ne_true, List.length_singleton]
        omega
      · rw [if_neg isSigma, length_lowerChar]
        by_cases isDotted : char = dottedI
        · rw [if_pos isDotted, if_pos (beq_iff_eq.mpr isDotted)]
          omega
        · rw [if_neg isDotted, if_neg (by simpa using isDotted)]
          omega

/-- The length of a text in lower case. -/
theorem length_lower (text : Text) : (lower text).length = text.length + text.count dottedI :=
  length_lowerBehind [] text

theorem length_lower_of_not_mem (notDotted : dottedI ∉ text) :
    (lower text).length = text.length := by
  rw [length_lower, List.count_eq_zero_of_not_mem notDotted, Nat.add_zero]

theorem facesCased_append_of_ignorable (areIgnorable : ∀ char ∈ seen, isCaseIgnorable char = true)
    (before : Text) : facesCased (seen ++ before) = facesCased before := by
  have noneLeft : seen.dropWhile isCaseIgnorable = [] :=
    List.dropWhile_eq_nil_iff.mpr areIgnorable
  unfold facesCased
  rw [List.dropWhile_append, noneLeft, List.isEmpty_nil, if_pos rfl]

theorem facesCased_append_of_mem (isMember : char ∈ seen) (isSeen : isCaseIgnorable char = false)
    (before : Text) : facesCased (seen ++ before) = facesCased seen := by
  have someLeft : seen.dropWhile isCaseIgnorable ≠ [] := by
    intro noneLeft
    have areIgnorable := List.dropWhile_eq_nil_iff.mp noneLeft char isMember
    rw [isSeen] at areIgnorable
    cases areIgnorable
  unfold facesCased
  rw [List.dropWhile_append, if_neg (by simpa using someLeft)]
  cases isLeft : seen.dropWhile isCaseIgnorable with
  | nil => exact absurd isLeft someLeft
  | cons first rest => rfl

/-- Behind a character that letter case does not look through, what stands before that character
is of no account. -/
theorem lowerBehind_append_of_mem (isMember : char ∈ seen)
    (isSeen : isCaseIgnorable char = false) (before text : Text) :
    lowerBehind (seen ++ before) text = lowerBehind seen text := by
  induction text generalizing seen with
  | nil => rfl
  | cons next text inductionHypothesis =>
      have further := inductionHypothesis (List.mem_cons_of_mem next isMember)
      rw [List.cons_append] at further
      rw [lowerBehind, lowerBehind, further, lowerSigma, lowerSigma,
        facesCased_append_of_mem isMember isSeen]

/-- A capital sigma, which is the first letter of a text and the last one of its word, has its
final form only because of what stands before the text. -/
def FinalBehind (before text : Text) : Prop :=
  facesCased before = true ∧ ∃ lead rest, text = lead ++ capitalSigma :: rest ∧
    (∀ char ∈ lead, isCaseIgnorable char = true) ∧ facesCased rest = false

theorem not_ignorable_sigma : isCaseIgnorable capitalSigma = false := by
  decide +kernel

theorem finalBehind_sigma :
    FinalBehind before (capitalSigma :: text) ↔
      facesCased before = true ∧ facesCased text = false := by
  refine and_congr_right fun _ => ⟨?_, fun isLast => ⟨[], text, rfl, by simp, isLast⟩⟩
  rintro ⟨lead, rest, isText, areIgnorable, isLast⟩
  cases lead with
  | nil =>
      rw [List.nil_append] at isText
      rwa [(List.cons.inj isText).2]
  | cons first lead =>
      have isIgnorable := areIgnorable first List.mem_cons_self
      rw [← (List.cons.inj isText).1, not_ignorable_sigma] at isIgnorable
      cases isIgnorable

theorem finalBehind_cons (notSigma : char ≠ capitalSigma) :
    FinalBehind before (char :: text) ↔ isCaseIgnorable char = true ∧ FinalBehind before text := by
  constructor
  · rintro ⟨isBehind, lead, rest, isText, areIgnorable, isLast⟩
    cases lead with
    | nil => exact absurd (List.cons.inj isText).1 notSigma
    | cons first lead =>
        obtain ⟨rfl, rfl⟩ := List.cons.inj isText
        obtain ⟨isIgnorable, areOthers⟩ := List.forall_mem_cons.mp areIgnorable
        exact ⟨isIgnorable, isBehind, lead, rest, rfl, areOthers, isLast⟩
  · rintro ⟨isIgnorable, isBehind, lead, rest, rfl, areIgnorable, isLast⟩
    exact ⟨isBehind, char :: lead, rest, rfl, List.forall_mem_cons.mpr ⟨isIgnorable, areIgnorable⟩,
      isLast⟩

/-- What stands before a text matters for a capital sigma only that is its first letter.  The
induction carries the characters that letter case has looked through so far. -/
theorem lowerBehind_append_iff (seen before text : Text)
    (areIgnorable : ∀ char ∈ seen, isCaseIgnorable char = true) :
    lowerBehind (seen ++ before) text = lowerBehind seen text ↔ ¬FinalBehind before text := by
  induction text generalizing seen with
  | nil =>
      refine iff_of_true rfl ?_
      rintro ⟨-, lead, rest, isText, -⟩
      simp at isText
  | cons char text inductionHypothesis =>
      rw [lowerBehind, lowerBehind]
      by_cases isSigma : char = capitalSigma
      · have others : lowerBehind (capitalSigma :: seen ++ before) text = _ :=
          lowerBehind_append_of_mem List.mem_cons_self not_ignorable_sigma before text
        have alone : facesCased seen = false := by
          have whole := facesCased_append_of_ignorable areIgnorable []
          rw [List.append_nil] at whole
          rw [whole]
          rfl
        rw [List.cons_append] at others
        rw [isSigma, if_pos rfl, others, List.append_left_inj, lowerSigma, lowerSigma, alone,
          facesCased_append_of_ignorable areIgnorable, finalBehind_sigma]
        cases facesCased before <;> cases facesCased text <;> decide
      · rw [if_neg isSigma, if_neg isSigma, List.append_right_inj, finalBehind_cons isSigma,
          ← List.cons_append]
        by_cases isIgnorable : isCaseIgnorable char = true
        · rw [inductionHypothesis (char :: seen)
            (List.forall_mem_cons.mpr ⟨isIgnorable, areIgnorable⟩)]
          simp [isIgnorable]
        · have isSeen : isCaseIgnorable char = false := by simpa using isIgnorable
          exact iff_of_true (lowerBehind_append_of_mem List.mem_cons_self isSeen before text)
            fun isFinal => isIgnorable isFinal.1

/-- A lowered text ends with its end, lowered behind what stands before it. -/
theorem lowerBehind_append (before stem text : Text) :
    ∃ lowered, lowerBehind before (stem ++ text) =
      lowered ++ lowerBehind (stem.reverse ++ before) text := by
  induction stem generalizing before with
  | nil => exact ⟨[], rfl⟩
  | cons char stem inductionHypothesis =>
      obtain ⟨lowered, isLowered⟩ := inductionHypothesis (char :: before)
      rw [List.cons_append, lowerBehind, isLowered, List.reverse_cons, List.append_assoc,
        List.singleton_append, ← List.append_assoc]
      exact ⟨_, rfl⟩

/-- The end of a text whose lowered form ends as some ending does is itself that ending in lower
case, if and only if it is as long in lower case and no capital sigma in it is final only because
of what stands before it. -/
theorem lower_eq_iff_of_endsWith (ends : endsWith (lower ending) (lower (stem ++ taken)) = true) :
    lower taken = lower ending ↔
      (lower taken).length = (lower ending).length ∧ ¬FinalBehind stem.reverse taken := by
  obtain ⟨front, isFront⟩ := Option.isSome_iff_exists.mp ends
  obtain ⟨lowered, isLowered⟩ := lowerBehind_append [] stem taken
  have isWhole : lowered ++ lowerBehind stem.reverse taken = front ++ lower ending := by
    rw [← before?_eq_some.mp isFront, lower, isLowered, List.append_nil]
  have sameLength : (lowerBehind stem.reverse taken).length = (lower taken).length := by
    rw [length_lowerBehind, length_lower]
  have isFinal : lowerBehind stem.reverse taken = lower taken ↔
      ¬FinalBehind stem.reverse taken :=
    lowerBehind_append_iff [] stem.reverse taken (List.forall_mem_nil _)
  have isEnding (isLong : (lower taken).length = (lower ending).length) :
      lowerBehind stem.reverse taken = lower ending :=
    (List.append_inj' isWhole (sameLength.trans isLong)).2
  constructor
  · intro same
    have isLong := congrArg List.length same
    exact ⟨isLong, isFinal.mp ((isEnding isLong).trans same.symm)⟩
  · rintro ⟨isLong, notFinal⟩
    exact (isFinal.mpr notFinal).symm.trans (isEnding isLong)

end Diachrony.Text
