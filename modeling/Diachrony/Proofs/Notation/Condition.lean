import Diachrony.Proofs.Notation.ConditionRoundTrip
import Diachrony.Proofs.Notation.PredicateRoundTrip

/-!
# Conditions

What is read of a line is a tree in normal form, whose predicates are as they are read of
phrases.  So a condition is read as it is printed if and only if its predicates are.
-/
namespace Diachrony

open Text (joinWith isBlank isLineBreak)

namespace Condition

/-- A condition as it is read of a line: its predicates are as they are read of phrases,
and it is nested no deeper than "and" and "or" need. -/
inductive IsRead : Condition → Prop
  | holds {predicate : Predicate} : predicate.IsRead → IsRead (holds predicate)
  | all {members : List Condition} : 2 ≤ members.length →
      (∀ member ∈ members, IsRead member) → (∀ member ∈ members, member.factors = [member]) →
      IsRead (all members)
  | any {members : List Condition} : 2 ≤ members.length →
      (∀ member ∈ members, IsRead member) →
      (∀ member ∈ members, member.alternatives = [member]) → IsRead (any members)

theorem IsRead.normal {condition : Condition} (isRead : condition.IsRead) : condition.IsNormal := by
  induction isRead with
  | @holds predicate isPredicate => exact .holds predicate
  | all areMany areRead areFactors inductionHypothesis =>
      exact .all areMany inductionHypothesis fun member isMember =>
        factors_eq_self_iff.mp (areFactors member isMember)
  | any areMany areRead areAlternatives inductionHypothesis =>
      exact .any areMany inductionHypothesis fun member isMember =>
        alternatives_eq_self_iff.mp (areAlternatives member isMember)

/-- A tree in normal form is as it is read, if its predicates are. -/
theorem IsNormalWith.isRead {condition : Condition}
    (isNormal : condition.IsNormalWith Predicate.IsRead) : condition.IsRead := by
  obtain ⟨normal, areRead⟩ := isNormal
  induction normal with
  | holds predicate => exact .holds (areRead predicate (by simp [predicates]))
  | all areMany areNormal apart inductionHypothesis =>
      refine .all areMany (fun member isMember => inductionHypothesis member isMember
        fun predicate isPredicate => ?_) fun member isMember =>
          factors_eq_self_iff.mpr (apart member isMember)
      exact areRead predicate (mem_memberPredicates.mpr ⟨member, isMember, isPredicate⟩)
  | any areMany areNormal apart inductionHypothesis =>
      refine .any areMany (fun member isMember => inductionHypothesis member isMember
        fun predicate isPredicate => ?_) fun member isMember =>
          alternatives_eq_self_iff.mpr (apart member isMember)
      exact areRead predicate (mem_memberPredicates.mpr ⟨member, isMember, isPredicate⟩)

/-- What is read of a line is a condition as it is read. -/
theorem isRead_of_read {text : Text} (oneLine : ∀ char ∈ text, Text.isLineBreak char = false)
    {condition : Condition} (gave : read text = .ok condition) : condition.IsRead := by
  refine (isNormalWith_of_read (fun found areTokens => ?_) .otherwise gave).isRead
  intro words isSome areWords predicate isPredicate
  refine Predicate.isRead_of_read (.of_words words isSome fun word isMember => ?_) isPredicate
  obtain ⟨isToken, isWord⟩ := areWords word isMember
  exact isWord_of_mem_tokens oneLine areTokens isToken isWord

end Condition

/-- A text that may head a branch: it stays as it is when it is trimmed, and what it
begins with is not the mark of another kind of line. -/
structure IsHeading (text : Text) : Prop where
  first : ∃ char, text.head? = some char ∧ isBlank char = false ∧ char ≠ '#' ∧ char ≠ '-'
  last : ∀ char, text.getLast? = some char → isBlank char = false
  oneLine : ∀ char ∈ text, isLineBreak char = false

namespace IsHeading

variable {text right : Text}

theorem append (isHeading : IsHeading text) (isBehind : IsHeading right) {between : Text}
    (oneLine : ∀ char ∈ between, isLineBreak char = false) :
    IsHeading (text ++ between ++ right) where
  first := by
    obtain ⟨char, isFirst, plain⟩ := isHeading.first
    obtain ⟨rest, rfl⟩ := List.head?_eq_some_iff.mp isFirst
    exact ⟨char, rfl, plain⟩
  last := by
    obtain ⟨char, isFirst, -⟩ := isBehind.first
    intro last isLast
    refine isBehind.last last ?_
    obtain ⟨rest, rfl⟩ := List.head?_eq_some_iff.mp isFirst
    rwa [List.getLast?_append_cons] at isLast
  oneLine := by
    intro char isMember
    rcases List.mem_append.mp isMember with isMember | isMember
    · rcases List.mem_append.mp isMember with isMember | isMember
      · exact isHeading.oneLine char isMember
      · exact oneLine char isMember
    · exact isBehind.oneLine char isMember

theorem bracket (isHeading : IsHeading text) : IsHeading ('(' :: text ++ [')']) where
  first := ⟨'(', rfl, by decide, by decide, by decide⟩
  last := by
    intro char isLast
    rw [List.getLast?_append] at isLast
    cases isLast
    decide
  oneLine := by
    intro char isMember
    rcases List.mem_append.mp isMember with isMember | isMember
    · rcases List.mem_cons.mp isMember with rfl | isMember
      · decide
      · exact isHeading.oneLine char isMember
    · cases List.mem_singleton.mp isMember
      decide

theorem join (separator : Text) (oneLine : ∀ char ∈ separator, isLineBreak char = false)
    {texts : List Text} (areSome : texts ≠ []) (areHeadings : ∀ text ∈ texts, IsHeading text) :
    IsHeading (joinWith separator texts) := by
  induction texts with
  | nil => exact absurd rfl areSome
  | cons text texts inductionHypothesis =>
      have isHeading := areHeadings text List.mem_cons_self
      cases texts with
      | nil => exact isHeading
      | cons next texts =>
          rw [Text.joinWith_cons _ _ (List.cons_ne_nil _ _)]
          exact isHeading.append (inductionHypothesis (List.cons_ne_nil _ _)
            fun other isMember => areHeadings other (List.mem_cons_of_mem _ isMember)) oneLine

theorem isSome (isHeading : IsHeading text) : text ≠ [] := by
  rintro rfl
  obtain ⟨char, isFirst, -⟩ := isHeading.first
  cases isFirst

theorem trim_colon (isHeading : IsHeading text) : Text.trim (text ++ [':']) = text ++ [':'] := by
  obtain ⟨char, isFirst, solid, -⟩ := isHeading.first
  obtain ⟨rest, rfl⟩ := List.head?_eq_some_iff.mp isFirst
  apply Text.trim_of_solid
  · intro other isOther
    cases isOther
    exact solid
  · intro other isOther
    rw [List.getLast?_concat] at isOther
    cases isOther
    decide

end IsHeading

theorem Predicate.isHeading_print {predicate : Predicate} (isRead : predicate.IsRead) :
    IsHeading predicate.print := by
  have isPhrase := isPhrase_print isRead
  have first : ∃ char, predicate.print.head? = some char ∧ char ≠ '#' ∧ char ≠ '-' := by
    cases isRead with
    | otherwise => exact ⟨_, rfl, by decide, by decide⟩
    | sound place => cases place <;> exact ⟨_, rfl, by decide, by decide⟩
    | atEdge edge negated =>
        cases edge <;> cases negated <;> exact ⟨_, rfl, by decide, by decide⟩
    | inStressedSyllable => exact ⟨_, rfl, by decide, by decide⟩
    | wordEdge edge => cases edge <;> exact ⟨_, rfl, by decide, by decide⟩
    | syllableCount comparison => cases comparison <;> exact ⟨_, rfl, by decide, by decide⟩
    | wordClass => exact ⟨_, rfl, by decide, by decide⟩
    | stressOn ordinal => exact ⟨_, rfl, by decide, by decide⟩
    | syllable part ordinal =>
        rw [print_syllable]
        cases ordinal <;> exact ⟨_, rfl, by decide, by decide⟩
    | @seek negated target pattern isTarget =>
        obtain ⟨ordinal, isOrdinal⟩ := isTarget.ordinal
        rw [print_seek negated isTarget isOrdinal]
        cases ordinal <;> exact ⟨_, rfl, by decide, by decide⟩
  obtain ⟨char, isFirst, plain⟩ := first
  exact ⟨⟨char, isFirst, isPhrase.head_solid isFirst, plain⟩, fun _ => isPhrase.last_solid,
    isPhrase.oneLine⟩

namespace Condition

theorem isHeading_print {condition : Condition} (isRead : condition.IsRead) :
    IsHeading condition.print ∧ IsHeading (printFactor condition) := by
  induction isRead with
  | @holds predicate isPredicate =>
      have isHeading := Predicate.isHeading_print isPredicate
      have isPrinted : printFactor (holds predicate) = predicate.print := by
        simp only [printFactor, print]
      rw [isPrinted, print]
      exact ⟨isHeading, isHeading⟩
  | @all members areMany areRead areFactors inductionHypothesis =>
      have areSome : members.map printFactor ≠ [] := by
        refine List.ne_nil_of_length_pos ?_
        rw [List.length_map]
        omega
      have isHeading : IsHeading (all members).print := by
        rw [print, printFactors_eq]
        refine IsHeading.join " and " (by decide) areSome fun text isText => ?_
        obtain ⟨member, isMember, rfl⟩ := List.mem_map.mp isText
        exact (inductionHypothesis member isMember).2
      exact ⟨isHeading, by simpa only [printFactor] using isHeading⟩
  | @any members areMany areRead areAlternatives inductionHypothesis =>
      have areSome : members.map print ≠ [] := by
        refine List.ne_nil_of_length_pos ?_
        rw [List.length_map]
        omega
      have isHeading : IsHeading (any members).print := by
        rw [print, printAlternatives_eq]
        refine IsHeading.join " or " (by decide) areSome fun text isText => ?_
        obtain ⟨member, isMember, rfl⟩ := List.mem_map.mp isText
        exact (inductionHypothesis member isMember).1
      exact ⟨isHeading, isHeading.bracket⟩

/-- Whether a condition is read as it is printed: all its predicates are. -/
def isPlain (condition : Condition) : Bool := condition.predicates.all Predicate.isPlain

theorem isRead_of_mem_predicates {condition : Condition} (isRead : condition.IsRead) :
    ∀ predicate ∈ condition.predicates, predicate.IsRead := by
  induction isRead with
  | holds isPredicate =>
      intro predicate isMember
      rw [predicates, List.mem_singleton] at isMember
      exact isMember ▸ isPredicate
  | all areMany areRead areFactors inductionHypothesis =>
      intro predicate isMember
      rw [predicates, mem_memberPredicates] at isMember
      obtain ⟨member, isMember, isPredicate⟩ := isMember
      exact inductionHypothesis member isMember predicate isPredicate
  | any areMany areRead areAlternatives inductionHypothesis =>
      intro predicate isMember
      rw [predicates, mem_memberPredicates] at isMember
      obtain ⟨member, isMember, isPredicate⟩ := isMember
      exact inductionHypothesis member isMember predicate isPredicate

/-- The printed form of a condition that was read is read as that condition, if and only
if its predicates are plain. -/
theorem read_print_iff {condition : Condition} (isRead : condition.IsRead) :
    read condition.print = .ok condition ↔ condition.isPlain = true := by
  have areRead := isRead_of_mem_predicates isRead
  rw [read_print isRead.normal fun predicate isMember =>
    (Predicate.isPhrase_print (areRead predicate isMember)).isWording,
    reread_eq_ok_iff, isPlain, List.all_eq_true]
  exact forall₂_congr fun predicate isMember => Predicate.read_print_iff (areRead predicate isMember)

end Condition

end Diachrony
