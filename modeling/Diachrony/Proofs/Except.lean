import Diachrony.Error
import Mathlib.Data.List.Forall2

/-!
# Results that are values

What gives a value at the end has given one at each step.
-/
namespace Diachrony

/-- Where each of some items gives a value, all of them give these values. -/
theorem mapM_eq_pure {m : Type → Type} [Monad m] [LawfulMonad m] {α β : Type} {give : α → m β}
    {items : List α} {values : List β}
    (areGiven : List.Forall₂ (fun item value => give item = pure value) items values) :
    items.mapM give = pure values := by
  induction areGiven with
  | nil => exact List.mapM_nil
  | cons isGiven _ inductionHypothesis =>
      rw [List.mapM_cons, isGiven, inductionHypothesis, pure_bind, pure_bind]

namespace Except

variable {ε α β : Type}

theorem bind_eq_ok {result : Except ε α} {next : α → Except ε β} {value : β} :
    (result >>= next) = .ok value ↔ ∃ first, result = .ok first ∧ next first = .ok value := by
  cases result with
  | error failure =>
      constructor
      · intro gave
        cases gave
      · rintro ⟨first, gave, -⟩
        cases gave
  | ok first =>
      constructor
      · intro gave
        exact ⟨first, rfl, gave⟩
      · rintro ⟨first, ⟨rfl⟩, gave⟩
        exact gave

/-- What fails at the end has failed at one of the steps. -/
theorem bind_eq_error {result : Except ε α} {next : α → Except ε β} {failure : ε} :
    (result >>= next) = .error failure ↔
      result = .error failure ∨ ∃ first, result = .ok first ∧ next first = .error failure := by
  cases result with
  | error other =>
      refine ⟨fun isError => .inl (by cases isError; rfl), ?_⟩
      rintro (isError | ⟨first, gave, -⟩)
      · cases isError
        rfl
      · cases gave
  | ok first =>
      refine ⟨fun isError => .inr ⟨first, rfl, isError⟩, ?_⟩
      rintro (isError | ⟨first, gave, isError⟩)
      · cases isError
      · cases gave
        exact isError

/-- What comes behind a check is reached if the check is passed. -/
theorem check_eq_ok {check : Except ε Unit} {rest : Except ε β} {value : β} :
    (check >>= fun _ => rest) = .ok value ↔ check = .ok () ∧ rest = .ok value := by
  rw [bind_eq_ok]
  exact ⟨fun ⟨⟨⟩, isOk, gave⟩ => ⟨isOk, gave⟩, fun ⟨isOk, gave⟩ => ⟨(), isOk, gave⟩⟩

/-- Checks of several things are passed if each of them is. -/
theorem forM_eq_ok {check : α → Except ε Unit} {items : List α} :
    items.forM check = .ok () ↔ ∀ item ∈ items, check item = .ok () := by
  induction items with
  | nil => exact iff_of_true rfl fun _ isMember => nomatch isMember
  | cons item items inductionHypothesis =>
      rw [show (item :: items).forM check = (check item >>= fun _ => items.forM check) from rfl,
        check_eq_ok, inductionHypothesis, List.forall_mem_cons]

/-- What can be seen of a value has been seen of one. -/
theorem exists_of_toOption_map {view : α → β} {result : Except ε α} {seen : β}
    (isSeen : result.toOption.map view = some seen) :
    ∃ value, result = .ok value ∧ view value = seen := by
  cases result with
  | error failure => cases isSeen
  | ok value => exact ⟨value, rfl, Option.some.inj isSeen⟩

theorem toOption_eq_some {result : Except ε α} {value : α} :
    result.toOption = some value ↔ result = .ok value := by
  cases result with
  | error failure => exact iff_of_false (fun gave => nomatch gave) fun gave => nomatch gave
  | ok first => exact ⟨fun gave => congrArg Except.ok (Option.some.inj gave), fun gave =>
      congrArg some (Except.ok.inj gave)⟩

theorem mapError_eq_ok {failure : Type} {change : ε → failure} {result : Except ε α} {value : α} :
    result.mapError change = .ok value ↔ result = .ok value := by
  cases result with
  | error fault => exact iff_of_false (fun gave => nomatch gave) fun gave => nomatch gave
  | ok first =>
      constructor
      · rintro ⟨rfl⟩
        rfl
      · rintro ⟨rfl⟩
        rfl

theorem map_eq_ok {result : Except ε α} {change : α → β} {value : β} :
    result.map change = .ok value ↔ ∃ first, result = .ok first ∧ change first = value := by
  cases result with
  | error failure =>
      constructor
      · intro gave
        cases gave
      · rintro ⟨first, gave, -⟩
        cases gave
  | ok first =>
      constructor
      · intro gave
        exact ⟨first, rfl, Except.ok.inj gave⟩
      · rintro ⟨first, ⟨rfl⟩, rfl⟩
        rfl

/-- Where each item gives what a function makes of it, all of them do. -/
theorem mapM_ok {read : α → Except ε β} {make : α → β} {items : List α}
    (areRead : ∀ item ∈ items, read item = .ok (make item)) :
    items.mapM read = .ok (items.map make) := by
  induction items with
  | nil => rfl
  | cons item items inductionHypothesis =>
      obtain ⟨isRead, areRead⟩ := List.forall_mem_cons.mp areRead
      rw [List.mapM_cons, isRead, inductionHypothesis areRead]
      rfl

/-- Where each item gives what a function makes of it, or nothing, all of them do. -/
theorem mapM_eq_ok_map {read : α → Except ε β} {make : α → β} {fits : β → Bool}
    (isOk : ∀ item value, read item = .ok value ↔ value = make item ∧ fits value = true)
    {items : List α} {values : List β} :
    items.mapM read = .ok values ↔ values = items.map make ∧ values.all fits = true := by
  induction items generalizing values with
  | nil =>
      rw [List.mapM_nil, List.map_nil]
      constructor
      · rintro ⟨rfl⟩
        exact ⟨rfl, rfl⟩
      · rintro ⟨rfl, -⟩
        rfl
  | cons item items inductionHypothesis =>
      rw [List.mapM_cons, bind_eq_ok, List.map_cons]
      simp only [bind_eq_ok, isOk, inductionHypothesis]
      constructor
      · rintro ⟨value, ⟨rfl, isFit⟩, others, ⟨rfl, areFit⟩, ⟨rfl⟩⟩
        exact ⟨rfl, by rw [List.all_cons, isFit, areFit]; rfl⟩
      · rintro ⟨rfl, areFit⟩
        rw [List.all_cons, Bool.and_eq_true] at areFit
        exact ⟨_, ⟨rfl, areFit.1⟩, _, ⟨rfl, areFit.2⟩, rfl⟩

theorem exists_error_of_mapM {read : α → Except ε β} {items : List α} {failure : ε}
    (failed : items.mapM read = .error failure) : ∃ item ∈ items, read item = .error failure := by
  induction items with
  | nil => cases failed
  | cons item items inductionHypothesis =>
      rw [List.mapM_cons] at failed
      cases isRead : read item with
      | error fault =>
          rw [isRead] at failed
          cases failed
          exact ⟨item, List.mem_cons_self, isRead⟩
      | ok value =>
          rw [isRead] at failed
          cases areRead : items.mapM read with
          | error fault =>
              change (items.mapM read >>= _) = _ at failed
              rw [areRead] at failed
              cases failed
              obtain ⟨other, isMember, isError⟩ := inductionHypothesis areRead
              exact ⟨other, List.mem_cons_of_mem _ isMember, isError⟩
          | ok values =>
              change (items.mapM read >>= _) = _ at failed
              rw [areRead] at failed
              cases failed

theorem exists_of_mem_of_mapM {read : α → Except ε β} {items : List α} {values : List β}
    (gave : items.mapM read = .ok values) {value : β} (isMember : value ∈ values) :
    ∃ item ∈ items, read item = .ok value := by
  induction items generalizing values with
  | nil =>
      cases gave
      cases isMember
  | cons first items inductionHypothesis =>
      rw [List.mapM_cons] at gave
      obtain ⟨given, isGiven, gave⟩ := bind_eq_ok.mp gave
      obtain ⟨others, areOthers, same⟩ := bind_eq_ok.mp gave
      cases same
      rcases List.mem_cons.mp isMember with rfl | isMember
      · exact ⟨first, List.mem_cons_self, isGiven⟩
      · obtain ⟨item, isItem, isRead⟩ := inductionHypothesis areOthers isMember
        exact ⟨item, List.mem_cons_of_mem _ isItem, isRead⟩

/-- What is read of one of some items stands where the item does. -/
theorem mem_zip_of_mapM {read : α → Except ε β} {items : List α} {values : List β}
    (gave : items.mapM read = .ok values) {item : α} {value : β} (isMember : item ∈ items)
    (isRead : read item = .ok value) : (item, value) ∈ items.zip values := by
  induction items generalizing values with
  | nil => cases isMember
  | cons first items inductionHypothesis =>
      rw [List.mapM_cons] at gave
      obtain ⟨given, isGiven, gave⟩ := bind_eq_ok.mp gave
      obtain ⟨others, areOthers, same⟩ := bind_eq_ok.mp gave
      cases same
      rcases List.mem_cons.mp isMember with rfl | isMember
      · rw [isGiven] at isRead
        cases isRead
        exact List.mem_cons_self
      · exact List.mem_cons_of_mem _ (inductionHypothesis areOthers isMember)

theorem forall₂_of_mapM {read : α → Except ε β} {items : List α} {values : List β}
    (gave : items.mapM read = .ok values) :
    List.Forall₂ (fun item value => read item = .ok value) items values := by
  induction items generalizing values with
  | nil =>
      cases gave
      exact .nil
  | cons item items inductionHypothesis =>
      rw [List.mapM_cons] at gave
      obtain ⟨value, isRead, gave⟩ := bind_eq_ok.mp gave
      obtain ⟨others, areRead, same⟩ := bind_eq_ok.mp gave
      cases same
      exact .cons isRead (inductionHypothesis areRead)

theorem mapM_eq_ok_iff {read : α → Except ε β} {items : List α} {values : List β} :
    items.mapM read = .ok values ↔
      List.Forall₂ (fun item value => read item = .ok value) items values :=
  ⟨forall₂_of_mapM, mapM_eq_pure⟩

/-- Where what is read of an item is what a function makes of it, all that is read is. -/
theorem eq_map_of_mapM {read : α → Except ε β} {make : α → β} {items : List α} {values : List β}
    (gave : items.mapM read = .ok values)
    (isMade : ∀ item value, read item = .ok value → value = make item) :
    values = items.map make := by
  have areRead := forall₂_of_mapM gave
  clear gave
  induction areRead with
  | nil => rfl
  | cons isRead _ inductionHypothesis =>
      rw [List.map_cons, isMade _ _ isRead, inductionHypothesis]

end Except

namespace Error

/-- An error that was taken as a result was one, and so was a value. -/
theorem settle_eq_ok {α : Type} {result settled : Except Error α} (gave : settle result = .ok settled) :
    result = settled := by
  unfold settle at gave
  cases result with
  | ok value =>
      cases gave
      rfl
  | error failure =>
      dsimp only at gave
      split at gave
      · cases gave
        rfl
      · cases gave

end Error

end Diachrony
