import Diachrony.Text.Numeral
import Mathlib.Algebra.Group.Nat.Defs

/-!
# Decimal digits

The digits of a number are read as that number, and a number that was read has no more
digits than are read again.
-/
namespace Diachrony.Text

theorem digitValue?_digitChar {digit : Nat} (isDigit : digit < 10) :
    digitValue? digit.digitChar = some digit := by
  have checked : ∀ digit < 10, digitValue? digit.digitChar = some digit := by
    decide
  exact checked digit isDigit

theorem digitValue?_le {char : Char} {digit : Nat} (isDigit : digitValue? char = some digit) :
    digit ≤ 9 := by
  unfold digitValue? at isDigit
  obtain ⟨range, -, rfl⟩ := Option.map_eq_some_iff.mp isDigit
  omega

def withDigit (number : Nat) (char : Char) : Option Nat := do
  return 10 * number + (← digitValue? char)

theorem foldlM_toDigits (number : Nat) :
    (Nat.toDigits 10 number).foldlM withDigit 0 = some number := by
  induction number using Nat.strongRecOn with
  | _ number inductionHypothesis =>
      rw [Nat.toDigits_eq_if (by decide)]
      split
      · rename_i isDigit
        simp [withDigit, digitValue?_digitChar isDigit]
      · rename_i isLonger
        have isDigit : number % 10 < 10 := Nat.mod_lt _ (by decide)
        rw [List.foldlM_append, inductionHypothesis (number / 10) (by omega)]
        simp only [Option.bind_eq_bind, Option.bind_some, List.foldlM_cons, List.foldlM_nil,
          withDigit, digitValue?_digitChar isDigit, Option.pure_def, Option.some.injEq]
        omega

theorem lt_of_foldlM {text : Text} {start number : Nat}
    (isRead : text.foldlM withDigit start = some number) :
    number < (start + 1) * 10 ^ text.length := by
  induction text generalizing start with
  | nil =>
      cases isRead
      simp
  | cons char text inductionHypothesis =>
      rw [List.foldlM_cons] at isRead
      obtain ⟨next, isNext, isRead⟩ := Option.bind_eq_some_iff.mp isRead
      obtain ⟨digit, isDigit, same⟩ := Option.bind_eq_some_iff.mp isNext
      cases same
      have small := digitValue?_le isDigit
      calc number < (10 * start + digit + 1) * 10 ^ text.length := inductionHypothesis isRead
        _ ≤ (10 * (start + 1)) * 10 ^ text.length := Nat.mul_le_mul_right _ (by omega)
        _ = (start + 1) * 10 ^ (char :: text).length := by
          rw [List.length_cons, Nat.pow_succ]
          ac_rfl

theorem toNat?_eq_some {text : Text} {number : Nat} (isRead : toNat? text = some number) :
    number < 10 ^ digitLimit := by
  unfold toNat? at isRead
  split at isRead
  · cases isRead
  · rename_i fits
    simp only [Bool.or_eq_true, decide_eq_true_eq, not_or, Nat.not_lt] at fits
    have below : number < (0 + 1) * 10 ^ text.length := lt_of_foldlM isRead
    rw [Nat.zero_add, Nat.one_mul] at below
    exact Nat.lt_of_lt_of_le below (Nat.pow_le_pow_right (by decide) fits.2)

theorem length_ofNat_le_iff {number : Nat} :
    (ofNat number).length ≤ digitLimit ↔ number < 10 ^ digitLimit :=
  Nat.length_toDigits_le_iff (by decide) (by decide)

theorem toNat?_ofNat {number : Nat} (fits : number < 10 ^ digitLimit) :
    toNat? (ofNat number) = some number := by
  have notLong : (ofNat number).length ≤ digitLimit := length_ofNat_le_iff.mpr fits
  unfold toNat?
  rw [if_neg]
  · exact foldlM_toDigits number
  · simp only [Bool.or_eq_true, List.isEmpty_iff, decide_eq_true_eq, not_or, Nat.not_lt]
    exact ⟨Nat.toDigits_ne_nil, notLong⟩

theorem isSome_foldlM {text : Text} (areDecimal : ∀ char ∈ text, (digitValue? char).isSome = true)
    (start : Nat) : (text.foldlM withDigit start).isSome = true := by
  induction text generalizing start with
  | nil => rfl
  | cons char text inductionHypothesis =>
      obtain ⟨isDecimal, areDecimal⟩ := List.forall_mem_cons.mp areDecimal
      obtain ⟨digit, isDigit⟩ := Option.isSome_iff_exists.mp isDecimal
      simpa [List.foldlM_cons, withDigit, isDigit] using inductionHypothesis areDecimal _

/-- Decimal digits are read as a number unless they are too many. -/
theorem toNat?_eq_none_iff {text : Text} (isSome : text ≠ [])
    (areDecimal : ∀ char ∈ text, (digitValue? char).isSome = true) :
    toNat? text = none ↔ digitLimit < text.length := by
  unfold toNat?
  by_cases isLong : digitLimit < text.length
  · simp [isLong]
  · have isTaken : ¬(text.isEmpty || decide (digitLimit < text.length)) = true := by
      simpa [isSome] using isLong
    have isRead : (text.foldlM withDigit 0).isSome = true := isSome_foldlM areDecimal 0
    rw [if_neg isTaken]
    constructor
    · intro isNone
      rw [show text.foldlM withDigit 0 = none from isNone] at isRead
      cases isRead
    · exact fun isLonger => absurd isLonger isLong

theorem isDecimal_of_mem_ofNat {number : Nat} {char : Char} (isMember : char ∈ ofNat number) :
    (digitValue? char).isSome = true := by
  unfold ofNat at isMember
  induction number using Nat.strongRecOn with
  | _ number inductionHypothesis =>
      rw [Nat.toDigits_eq_if (by decide)] at isMember
      split at isMember
      · rename_i isDigit
        rw [List.mem_singleton.mp isMember, digitValue?_digitChar isDigit]
        rfl
      · rename_i isLonger
        rcases List.mem_append.mp isMember with isMember | isMember
        · exact inductionHypothesis (number / 10) (by omega) isMember
        · rw [List.mem_singleton.mp isMember, digitValue?_digitChar (Nat.mod_lt _ (by decide))]
          rfl

end Diachrony.Text
