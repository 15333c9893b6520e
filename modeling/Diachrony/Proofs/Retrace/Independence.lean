import Diachrony.Proofs.Application.Independence
import Diachrony.Proofs.Failure
import Diachrony.Reversal

/-!
# Earlier forms do not depend on what was made before

While every language stands under its own short name, the texts that may stand before a
rule are the same from whatever inventories the search goes on.
-/
namespace Diachrony

open Work

variable {languages : Table Text Language}

namespace Work

theorem agree_filterM {α : Type} {keep other : α → Session Bool}
    (steps : ∀ item, Agree languages (· = ·) (keep item) (other item)) (items : List α) :
    Agree languages (· = ·) (items.filterM keep) (items.filterM other) := by
  have passed (kept : List α) :
      Agree languages (· = ·) (items.filterAuxM keep kept) (items.filterAuxM other kept) := by
    induction items generalizing kept with
    | nil => exact agree_pure rfl
    | cons item items inductionHypothesis =>
        exact agree_bind_eq (steps item) fun _ => inductionHypothesis _
  exact agree_bind_eq (passed []) fun _ => agree_pure rfl

/-- A session that agrees with itself leaves inventories of the stored languages. -/
theorem Agree.failsOnlyFrom {α : Type} {session : Session α}
    (agreed : Agree languages (· = ·) session session) :
    session.FailsOnlyFrom (Inventories.AreOf languages) fun _ => True := by
  intro made madeOwned
  refine ⟨?_, (agreed made made ⟨madeOwned, madeOwned⟩).2.1⟩
  cases (session.on made).1 <;> trivial

end Work

namespace Reversal

variable {language : Language}

section

variable (isStored : languages.get? language.shortName = some language)

include isStored

theorem agree_spellingsOf (pattern : SoundPattern) :
    Agree languages (· = ·) (spellingsOf language pattern) (spellingsOf language pattern) := by
  unfold spellingsOf
  cases pattern.literal with
  | some text => exact agree_pure rfl
  | none =>
      refine agree_bind_eq (agree_inventory isStored) fun inventory => agree_lookup fun terms _ => ?_
      refine agree_filterM (fun spelling => agree_ite (fun _ => ?_) fun _ => agree_pure rfl) _
      exact Segmentation.agree_satisfiesAll
        (Segmentation.alike_unstressed (Inventories.AreBothOf languages) inventory spelling) 0 terms

theorem agree_spellingsOfAll (patterns : List SoundPattern) :
    Agree languages (· = ·) (spellingsOfAll language patterns)
      (spellingsOfAll language patterns) :=
  agree_bind_eq (agree_mapM (agree_spellingsOf isStored) patterns) fun _ => agree_pure rfl

theorem agree_withOldEnding (branch : Option Branch) (ending text : Text) :
    Agree languages (· = ·) (withOldEnding language branch ending text)
      (withOldEnding language branch ending text) := by
  unfold withOldEnding
  split
  · exact agree_bind_eq (agree_spellingsOfAll isStored _) fun _ => agree_pure rfl
  · exact agree_pure rfl

end

section

variable {undoing : Undoing}
  (isStored : languages.get? undoing.language.shortName = some undoing.language)
  (undone : ∀ id text,
    Agree languages (· = ·) (undoing.beforeRule id text) (undoing.beforeRule id text))

include isStored undone

theorem agree_undo (branch : Option Branch) (text : Text) (instruction : Instruction) :
    Agree languages (· = ·) (undo undoing branch text instruction)
      (undo undoing branch text instruction) := by
  unfold undo
  cases instruction.kind with
  | changeEnding => exact agree_withOldEnding isStored _ _ _
  | applyRule =>
      exact agree_lookup fun rule _ =>
        agree_bind_eq (undone rule.id text) fun _ => agree_pure rfl
  | applySoundRule => exact agree_lookup fun rule _ => undone rule.id text
  | soundChange => exact agree_lookup fun _ _ => agree_pure rfl
  | _ => exact agree_pure rfl

theorem agree_undoAll (branch : Option Branch) (instructions : List Instruction)
    (texts : List Text) :
    Agree languages (· = ·) (undoAll undoing branch instructions texts)
      (undoAll undoing branch instructions texts) := by
  induction instructions generalizing texts with
  | nil => exact agree_pure rfl
  | cons instruction instructions inductionHypothesis =>
      refine agree_bind_eq (agree_mapM (fun text => ?_) texts) fun _ => inductionHypothesis _
      exact agree_undo isStored undone branch text instruction

theorem agree_beforeLogic (logic : Logic) (text : Text) :
    Agree languages (· = ·) (beforeLogic undoing logic text)
      (beforeLogic undoing logic text) := by
  cases logic with
  | sequential instructions => exact agree_undoAll isStored undone none _ _
  | branching opening branches =>
      have opened (earlier : List (List Text)) :=
        agree_undoAll isStored undone none opening.reverse (Text.sortedSet (text :: earlier.flatten))
      refine agree_ite (fun _ => ?_) fun _ => ?_
      · refine agree_bind_eq (agree_mapM (fun branch => ?_) branches) opened
        exact agree_bind_eq (agree_spellingsOfAll isStored _) fun _ => agree_pure rfl
      · refine agree_bind_eq (agree_mapM (fun branch => ?_) branches) opened
        exact agree_undoAll isStored undone (some branch) _ _

end

theorem agree_beforeRule (graph : Graph)
    (isStored : languages.get? language.shortName = some language) (seen : List RuleRef)
    (rule : Rule) (text : Text) :
    Agree languages (· = ·) (beforeRule graph language seen rule text)
      (beforeRule graph language seen rule text) := by
  fun_induction beforeRule graph language seen rule text with
  | case1 seen rule text inductionHypothesis =>
      refine agree_beforeLogic isStored (fun id text => ?_) rule.logic text
      dsimp only
      split
      · exact agree_throw _ _
      · rename_i called isCalled
        split
        · exact agree_pure rfl
        · rename_i notSeen
          exact inductionHypothesis id text called isCalled notSeen

end Reversal

end Diachrony
