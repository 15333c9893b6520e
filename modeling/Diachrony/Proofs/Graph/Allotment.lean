import Diachrony.Proofs.Graph.Connection

/-!
# The ids that are handed out

An id that is asked for is handed out as it is, and otherwise the next free one; either way
no id is handed out later on that is not above it.
-/
namespace Diachrony

/-- A number with a point that is whole is the least whole number that is not below it. -/
theorem Double.ceiling_of_toInt? {number : Double} {value : Int}
    (isWhole : number.toInt? = some value) : number.ceiling = value := by
  have isPositive : 0 < number.fraction.2 := by
    unfold fraction scaled
    split
    · exact Nat.one_pos
    · exact Nat.mul_pos Nat.one_pos (Nat.pow_pos Nat.two_pos)
  unfold toInt? at isWhole
  unfold ceiling
  dsimp only at isWhole ⊢
  split at isWhole
  · rename_i divides
    obtain ⟨quotient, isProduct⟩ := Nat.dvd_of_mod_eq_zero divides
    have roundedUp : (number.fraction.1 + number.fraction.2 - 1) / number.fraction.2 =
        number.fraction.1 / number.fraction.2 := by
      rw [isProduct, Nat.add_sub_assoc isPositive, Nat.mul_add_div isPositive,
        Nat.div_eq_of_lt (Nat.sub_one_lt_of_lt isPositive), Nat.mul_div_cancel_left _ isPositive,
        Nat.add_zero]
    cases isWhole
    rw [roundedUp]
  · cases isWhole

namespace GivenId

/-- Behind an id that stands for a whole number, the number above it is free. -/
theorem next_of_number? {id : GivenId} {number : Int} (isNumber : id.number? = some number) :
    id.next = number + 1 := by
  cases id with
  | whole value =>
      cases isNumber
      rfl
  | flag isSet =>
      cases isNumber
      cases isSet <;> rfl
  | decimal value => exact congrArg (· + 1) (Double.ceiling_of_toInt? isNumber)

/-- What is read as a number in a field is the number that it stands for. -/
theorem number?_of_asInt {id : GivenId} {field : Text} {number : Int}
    (isRead : Record.asInt field id.toData = .ok number) : id.number? = some number := by
  unfold Record.asInt at isRead
  split at isRead
  · rename_i value isValue
    cases isRead
    cases id with
    | whole | flag => exact isValue
    | decimal => exact (Option.filter_eq_some_iff.mp isValue).1
  · cases isRead

end GivenId

namespace Graph

variable {graph after : Graph}

/-- All tables are as they were, in their order; at most some ids have been used up. -/
structure CountsTo (graph after : Graph) : Prop where
  grown : graph.nextId ≤ after.nextId
  same : after = { graph with nextId := after.nextId }

theorem countsTo_refl (graph : Graph) : graph.CountsTo graph := ⟨Int.le_refl _, rfl⟩

theorem CountsTo.trans {between : Graph} (first : graph.CountsTo between)
    (second : between.CountsTo after) : graph.CountsTo after where
  grown := Int.le_trans first.grown second.grown
  same := by rw [second.same, first.same]

theorem countsTo_count {nextId : Int} (grown : graph.nextId ≤ nextId) :
    graph.CountsTo { graph with nextId } := ⟨grown, rfl⟩

/-- The id that is requested of a graph, or the next free one if none is requested. -/
def Allots (graph : Graph) : Data → GivenId → Prop
  | .null, id => id = .whole graph.nextId
  | requested, id => requested = id.toData

/-- A value that requests an id stands for the number that the id stands for. -/
theorem Allots.number? {requested : Data} {given : GivenId} (allots : graph.Allots requested given)
    (isRequest : requested ≠ .null) : requested.number? = given.number? := by
  unfold Allots at allots
  split at allots
  · exact absurd rfl isRequest
  · rw [allots]
    rfl

end Graph

namespace Edit

open Diachrony.Graph (CountsTo countsTo_refl countsTo_count)

variable {graph : Graph} {Failed : Graph → Prop}

def handedOut (graph : Graph) (id : Int) : Graph :=
  { graph with nextId := max graph.nextId (id + 1) }

theorem countsTo_handedOut (graph : Graph) (id : Int) : graph.CountsTo (handedOut graph id) :=
  countsTo_count (Int.le_max_left _ _)

theorem ends_allocateGiven {requested : Data} {Given : GivenId → Graph → Prop}
    (given : ∀ id, graph.Allots requested id →
      Given id { graph with nextId := max graph.nextId id.next })
    (failed : Failed graph) : (allocateGiven requested).Ends graph Given Failed := by
  cases requested with
  | null =>
      unfold Ends
      rw [on_allocateGiven_null]
      exact (Int.max_eq_right (Int.le_of_lt (Int.lt_succ graph.nextId))) ▸ given (.whole graph.nextId) rfl
  | integer value => exact given (.whole value) rfl
  | flag isSet => exact given (.flag isSet) rfl
  | decimal value => exact given (.decimal value) rfl
  | text | list | record => exact failed

theorem ends_allocateFor {requested : Data} {Given : Int → Graph → Prop}
    (given : ∀ id given, graph.Allots requested given → given.number? = some id →
      Given id (handedOut graph id))
    (failed : ∀ after, graph.CountsTo after → Failed after) :
    (allocateFor requested).Ends graph Given Failed := by
  unfold allocateFor
  rw [ends_bind]
  refine ends_allocateGiven (fun id allots => ?_) (failed graph graph.countsTo_refl)
  rw [ends_lift]
  refine ⟨fun number isRead => ?_, fun _ _ => failed _ (countsTo_count (Int.le_max_left _ _))⟩
  have isNumber := GivenId.number?_of_asInt isRead
  rw [GivenId.next_of_number? isNumber]
  exact given number id allots isNumber

/-- A name that is reserved keeps its id, and may not be asked to have another one; any other
name gets an id. -/
theorem ends_reserve {name requested : Data} {Given : GivenId → Graph → Prop}
    (failed : Failed graph)
    (known : ∀ key id, name.key? = some key → graph.ruleNames.get? key = some id → Given id graph)
    (new : ∀ key id, name.key? = some key → graph.ruleNames.get? key = none →
      graph.Allots requested id → Given id
        { graph with
          nextId := max graph.nextId id.next
          ruleNames := graph.ruleNames.insert key id }) :
    (reserveRule name requested).Ends graph Given Failed := by
  unfold reserveRule
  rw [ends_bind, keyOf]
  cases isKey : name.key? with
  | none => exact failed
  | some key =>
      rw [ends_pure, ends_bind, ends_get]
      cases isNamed : graph.ruleNames.get? key with
      | some id =>
          dsimp only
          rw [ends_bind, ends_refuseIf]
          exact ⟨fun _ => failed, fun _ => known key id isKey isNamed⟩
      | none =>
          dsimp only
          rw [ends_bind]
          refine ends_allocateGiven (fun id allots => ?_) failed
          exact new key id isKey isNamed allots

end Edit

end Diachrony
