import Diachrony.Graph
import Diachrony.Record

/-!
Edits: changes of a graph that may fail.

An edit that fails keeps what it had changed until then. It matters for ids: one
that was handed out is used up, whatever becomes of the thing it was for.
-/
namespace Diachrony

/-- A change of a graph that gives a result or fails. -/
abbrev Edit (α : Type) := ExceptT Error (StateM Graph) α

/-- A value, or the text that it can be read from. -/
inductive Written (α : Type) where
  | text (text : Text)
  | value (value : α)

namespace Edit

def on {α : Type} (graph : Graph) (edit : Edit α) : Except Error α × Graph :=
  Id.run (StateT.run (ExceptT.run edit) graph)

def lift {α : Type} (result : Except Error α) : Edit α :=
  ExceptT.mk (pure result)

def ask {α : Type} (query : Graph → Except Error α) : Edit α := do
  lift (query (← get))

/-- Fails because of a conflict if there is one. -/
def refuse : Option Conflict → Edit Unit
  | some conflict => throw (.inconsistent conflict)
  | none => pure ()

def refuseIf (isConflicting : Bool) (conflict : Conflict) : Edit Unit :=
  refuse (if isConflicting then some conflict else none)

/-- Hands out the requested id, or the next free one. -/
def allocate (requested : Option Int) : Edit Int :=
  modifyGet fun graph =>
    let id := requested.getD graph.nextId
    (id, { graph with nextId := max graph.nextId (id + 1) })

/-- Has the ids from now on be no less than a given one. -/
def advanceIds (nextId : Int) : Edit Unit :=
  modify fun graph => { graph with nextId := max graph.nextId nextId }

/-- What a value is looked up by, which has to be something. -/
def keyOf (field : Text) (data : Data) : Edit Key :=
  match data.key? with
  | some key => return key
  | none => throw (.unusableValue field)

/-- Hands out the id that a value requests, or the next free one if it requests none. -/
def allocateGiven (requested : Data) : Edit GivenId :=
  match requested, GivenId.ofData? requested with
  | .null, _ => do return .whole (← allocate none)
  | _, some id => do
    advanceIds id.next
    return id
  | _, none => throw (.unusableValue "id")

/-- Hands out the id that a value requests, or the next free one. One that is no whole
number is refused when it has been handed out. -/
def allocateFor (requested : Data) : Edit Int := do
  lift (Record.asInt "id" (← allocateGiven requested).toData)

section

variable {α β : Type} (graph : Graph)

@[simp] theorem on_pure (value : α) : (pure value : Edit α).on graph = (.ok value, graph) :=
  rfl

/-- One edit after another: the second one is made on the graph that the first one
leaves, and not at all if the first one fails. -/
theorem on_bind (edit : Edit α) (next : α → Edit β) :
    (edit >>= next).on graph =
      match edit.on graph with
      | (.ok value, changed) => (next value).on changed
      | (.error error, changed) => (.error error, changed) := by
  unfold on ExceptT.run StateT.run Id.run
  simp only [bind, ExceptT.bind, ExceptT.mk, StateT.bind, ExceptT.bindCont]
  cases edit graph with
  | mk result changed => cases result <;> rfl

@[simp] theorem on_throw (error : Error) :
    (throw error : Edit α).on graph = (.error error, graph) := rfl

@[simp] theorem on_lift (result : Except Error α) : (lift result).on graph = (result, graph) :=
  rfl

/-- Asking leaves the graph as it is. -/
@[simp] theorem on_ask (query : Graph → Except Error α) :
    (ask query).on graph = (query graph, graph) := by
  simp only [ask, on_bind]
  rfl

end

end Edit

end Diachrony
