import Diachrony.Proofs.Failure
import Diachrony.Proofs.Record.Assignment

/-!
# What is complained of when fields are assigned

Where a field is assigned, or a value is read for it, all that can be wrong is the value.
-/
namespace Diachrony

variable {α β : Type}

/-- A result that fails only because of the value of some field. -/
def OnlyInvalid (result : Except Error α) : Prop :=
  FailsOnly (fun error => ∃ field, error = .invalidValue field) result

theorem onlyInvalid_ok (value : α) : OnlyInvalid (.ok value) := failsOnly_ok value

theorem onlyInvalid_invalidValue (field : Text) :
    OnlyInvalid (.error (.invalidValue field) : Except Error α) := failsOnly_error ⟨field, rfl⟩

/-- What is made of a value fails only where the value does. -/
theorem OnlyInvalid.make {result : Except Error α} (isValue : OnlyInvalid result) (make : α → β) :
    OnlyInvalid (do return make (← result)) :=
  failsOnly_bind isValue fun _ _ => failsOnly_ok _

namespace Record

theorem onlyInvalid_asText (field : Text) (data : Data) : OnlyInvalid (asText field data) := by
  cases data with
  | text value => exact onlyInvalid_ok value
  | _ => exact onlyInvalid_invalidValue field

theorem onlyInvalid_asInt (field : Text) (data : Data) : OnlyInvalid (asInt field data) := by
  unfold asInt
  split
  · exact onlyInvalid_ok _
  · exact onlyInvalid_invalidValue field

theorem onlyInvalid_asFlag (field : Text) (data : Data) : OnlyInvalid (asFlag field data) := by
  unfold asFlag
  split
  · exact onlyInvalid_ok _
  · exact onlyInvalid_invalidValue field

theorem onlyInvalid_orNull {read : Data → Except Error α} (reads : ∀ data, OnlyInvalid (read data))
    (data : Data) : OnlyInvalid (orNull read data) := by
  unfold orNull
  split
  · exact onlyInvalid_ok none
  · exact (reads data).make some

theorem onlyInvalid_asTexts (field : Text) (data : Data) : OnlyInvalid (asTexts field data) := by
  unfold asTexts asList
  split
  · exact failsOnly_mapM fun item _ => onlyInvalid_asText field item
  · exact onlyInvalid_invalidValue field

variable {known : Assign α}

theorem onlyInvalid_of_among {name : Text} {choices : List (Text × Except Error α)}
    {result : Except Error α} (isKnown : among name choices = some result)
    (areInvalid : ∀ choice ∈ choices, OnlyInvalid choice.2) : OnlyInvalid result :=
  areInvalid _ (mem_of_among isKnown)

section

variable (areInvalid : ∀ value name data result, known value name data = some result →
  OnlyInvalid result)
include areInvalid

theorem onlyInvalid_assign (value : α) (name : Text) (data : Data) :
    OnlyInvalid (assign known value name data) := by
  unfold assign
  split
  · exact onlyInvalid_ok value
  · cases isKnown : known value name data with
    | none => exact onlyInvalid_invalidValue name
    | some result => exact areInvalid value name data result isKnown

theorem onlyInvalid_assignKnown (value : α) (fields : Fields) :
    OnlyInvalid (assignKnown known value fields) := by
  unfold assignKnown
  induction fields generalizing value with
  | nil => exact onlyInvalid_ok value
  | cons field fields inductionHypothesis =>
      rw [List.foldlM_cons]
      refine failsOnly_bind ?_ fun next _ => inductionHypothesis next
      dsimp only
      cases isKnown : known value field.1 field.2 with
      | none => exact onlyInvalid_ok value
      | some result => exact areInvalid value field.1 field.2 result isKnown

end

end Record

open Record

theorem Word.onlyInvalid_known (word : Word) (name : Text) (data : Data) (result : Except Error Word)
    (isKnown : known word name data = some result) : OnlyInvalid result := by
  refine onlyInvalid_of_among isKnown ?_
  simp only [List.forall_mem_cons, List.not_mem_nil, false_implies, implies_true, and_true]
  exact ⟨(onlyInvalid_asInt _ _).make _, (onlyInvalid_asText _ _).make _,
    (onlyInvalid_asText _ _).make _, (onlyInvalid_orNull (onlyInvalid_asText _) _).make _,
    (onlyInvalid_orNull (onlyInvalid_asText _) _).make _, (onlyInvalid_asTexts _ _).make _,
    (onlyInvalid_orNull (onlyInvalid_asInt _) _).make _, (onlyInvalid_asFlag _ _).make _,
    (onlyInvalid_orNull (onlyInvalid_asText _) _).make _,
    (onlyInvalid_orNull (onlyInvalid_asText _) _).make _⟩

theorem Rule.onlyInvalid_known (rule : Rule) (name : Text) (data : Data) (result : Except Error Rule)
    (isKnown : known rule name data = some result) : OnlyInvalid result := by
  refine onlyInvalid_of_among isKnown ?_
  simp only [List.forall_mem_cons, List.not_mem_nil, false_implies, implies_true, and_true]
  exact ⟨(onlyInvalid_asInt _ _).make _, (onlyInvalid_asText _ _).make _,
    (onlyInvalid_asText _ _).make _, (onlyInvalid_asText _ _).make _,
    (onlyInvalid_orNull (onlyInvalid_asText _) _).make _,
    (onlyInvalid_orNull (onlyInvalid_asText _) _).make _,
    (onlyInvalid_orNull (onlyInvalid_asText _) _).make _,
    (onlyInvalid_orNull (onlyInvalid_asText _) _).make _,
    (onlyInvalid_orNull (onlyInvalid_asText _) _).make _⟩

theorem Rule.onlyInvalid_detailsKnown (rule : Rule) (name : Text) (data : Data)
    (result : Except Error Rule) (isKnown : detailsKnown rule name data = some result) :
    OnlyInvalid result := by
  unfold detailsKnown at isKnown
  split at isKnown
  · exact onlyInvalid_known rule name data result isKnown
  · cases isKnown

end Diachrony
