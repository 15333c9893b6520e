import Diachrony.Text.Basic

/-!
The order in which the members of a set are listed.

A set keeps no order: what it is listed in depends on where its members happened to be put,
and a set that is made of its own list need not be listed in the same order again.
-/
namespace Diachrony

namespace Text

theorem precedes_total (left right : Text) : (precedes left right || precedes right left) = true := by
  induction left generalizing right with
  | nil => rfl
  | cons first left inductionHypothesis =>
      cases right with
      | nil => rfl
      | cons second right =>
          rw [precedes, precedes]
          by_cases same : first = second
          · rw [if_pos same, if_pos same.symm]
            exact inductionHypothesis right
          · rw [if_neg same, if_neg (Ne.symm same), Bool.or_eq_true, decide_eq_true_iff,
              decide_eq_true_iff]
            by_cases isBelow : first < second
            · exact .inl isBelow
            · by_cases isAbove : second < first
              · exact .inr isAbove
              · exact absurd (Char.le_antisymm (Char.not_lt.mp isAbove) (Char.not_lt.mp isBelow)) same

theorem precedes_trans (first second third : Text) (isFirst : precedes first second = true)
    (isSecond : precedes second third = true) : precedes first third = true := by
  induction first generalizing second third with
  | nil => rfl
  | cons char first inductionHypothesis =>
      cases second with
      | nil => cases isFirst
      | cons next second =>
          cases third with
          | nil => cases isSecond
          | cons last third =>
              rw [precedes] at isFirst isSecond ⊢
              by_cases same : char = next
              · subst same
                rw [if_pos rfl] at isFirst
                by_cases isLast : char = last
                · rw [if_pos isLast] at isSecond ⊢
                  exact inductionHypothesis second third isFirst isSecond
                · rw [if_neg isLast] at isSecond ⊢
                  exact isSecond
              · rw [if_neg same] at isFirst
                by_cases isLast : next = last
                · subst isLast
                  rw [if_neg same]
                  exact isFirst
                · rw [if_neg isLast] at isSecond
                  have isBelow := Char.lt_trans (of_decide_eq_true isFirst)
                    (of_decide_eq_true isSecond)
                  rw [if_neg (Char.ne_of_lt isBelow)]
                  exact decide_eq_true isBelow

theorem precedes_antisymm {left right : Text} (isBelow : precedes left right = true)
    (isAbove : precedes right left = true) : left = right := by
  induction left generalizing right with
  | nil =>
      cases right with
      | nil => rfl
      | cons => cases isAbove
  | cons first left inductionHypothesis =>
      cases right with
      | nil => cases isBelow
      | cons second right =>
          rw [precedes] at isBelow isAbove
          by_cases same : first = second
          · subst same
            rw [if_pos rfl] at isBelow isAbove
            rw [inductionHypothesis isBelow isAbove]
          · rw [if_neg same] at isBelow
            rw [if_neg (Ne.symm same)] at isAbove
            exact absurd (of_decide_eq_true isAbove) (Char.lt_asymm (of_decide_eq_true isBelow))

theorem dropRepeats_sublist (texts : List Text) : (dropRepeats texts).Sublist texts := by
  fun_induction dropRepeats texts with
  | case1 => exact List.Sublist.refl _
  | case2 text => exact List.Sublist.refl _
  | case3 text texts inductionHypothesis => exact inductionHypothesis.cons text
  | case4 text next texts differs inductionHypothesis => exact inductionHypothesis.cons_cons text

theorem mem_dropRepeats {text : Text} {texts : List Text} :
    text ∈ dropRepeats texts ↔ text ∈ texts := by
  induction texts with
  | nil => exact Iff.rfl
  | cons first texts inductionHypothesis =>
      cases texts with
      | nil => exact Iff.rfl
      | cons next texts =>
          rw [dropRepeats]
          split
          · rename_i same
            rw [inductionHypothesis, same]
            simp
          · rw [List.mem_cons, inductionHypothesis, ← List.mem_cons]

/-- The set of some texts has the members that the texts have. -/
theorem mem_sortedSet {text : Text} {texts : List Text} :
    text ∈ sortedSet texts ↔ text ∈ texts := by
  rw [sortedSet, mem_dropRepeats, List.mem_mergeSort]

/-- In a list in order, equal texts are neighbours, so that none is left twice. -/
theorem nodup_dropRepeats {texts : List Text}
    (isSorted : texts.Pairwise fun left right => precedes left right = true) :
    (dropRepeats texts).Nodup := by
  fun_induction dropRepeats texts with
  | case1 => exact .nil
  | case2 text => exact List.pairwise_singleton _ text
  | case3 text texts inductionHypothesis =>
    exact inductionHypothesis (List.pairwise_cons.mp isSorted).2
  | case4 text next texts differs inductionHypothesis =>
      obtain ⟨isBelow, areSorted⟩ := List.pairwise_cons.mp isSorted
      refine List.nodup_cons.mpr ⟨fun isMember => differs ?_, inductionHypothesis areSorted⟩
      rcases List.mem_cons.mp (mem_dropRepeats.mp isMember) with same | isMember
      · exact same
      · exact precedes_antisymm (isBelow next List.mem_cons_self)
          (List.rel_of_pairwise_cons areSorted isMember)

theorem nodup_sortedSet (texts : List Text) : (sortedSet texts).Nodup :=
  nodup_dropRepeats (List.pairwise_mergeSort precedes_trans precedes_total texts)

theorem pairwise_sortedSet (texts : List Text) :
    (sortedSet texts).Pairwise fun left right => precedes left right = true :=
  (List.pairwise_mergeSort precedes_trans precedes_total texts).sublist (dropRepeats_sublist _)

/-- A set in order is told by its members. -/
theorem sortedSet_eq_of_mem_iff {left right : List Text}
    (sameMembers : ∀ text, text ∈ left ↔ text ∈ right) : sortedSet left = sortedSet right := by
  have isPerm : (sortedSet left).Perm (sortedSet right) := by
    refine (List.perm_ext_iff_of_nodup (nodup_sortedSet left) (nodup_sortedSet right)).mpr ?_
    intro text
    rw [mem_sortedSet, mem_sortedSet]
    exact sameMembers text
  exact isPerm.eq_of_pairwise (fun _ _ _ _ => precedes_antisymm) (pairwise_sortedSet left)
    (pairwise_sortedSet right)

end Text

/-- An order in which the members of sets of texts are listed. It may depend on the order in
which they were given. -/
@[ext] structure SetOrder where
  listed : List Text → List Text
  mem_listed : ∀ texts text, text ∈ listed texts ↔ text ∈ texts
  nodup_listed : ∀ texts, (listed texts).Nodup

namespace SetOrder

/-- The order of the texts themselves. -/
def sorted : SetOrder where
  listed := Text.sortedSet
  mem_listed := fun _ _ => Text.mem_sortedSet
  nodup_listed := Text.nodup_sortedSet

def after (second first : SetOrder) : SetOrder where
  listed := fun texts => second.listed (first.listed texts)
  mem_listed := fun _ _ => (second.mem_listed _ _).trans (first.mem_listed _ _)
  nodup_listed := fun _ => second.nodup_listed _

/-- However the members were listed before, they come in the order of the texts. -/
theorem sorted_after (order : SetOrder) : sorted.after order = sorted :=
  SetOrder.ext (funext fun texts => Text.sortedSet_eq_of_mem_iff (order.mem_listed texts))

end SetOrder

end Diachrony
