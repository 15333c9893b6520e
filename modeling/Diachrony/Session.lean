import Diachrony.Inventory
import Diachrony.Table

/-!
Sessions: work on the words of a graph that keeps the inventories it has made.

An inventory is made when a language is first needed and kept under the short name of
that language. So of two languages with one short name, the one that is needed first
serves for both until the session ends, whether or not something failed in between.
-/
namespace Diachrony

/-- The inventories that a session has made, under the short names of their
languages. -/
abbrev Inventories := Table Text Inventory

/-- Work that gives a result or fails, and that goes on from what is remembered and leaves
something else to remember, whether or not it fails. -/
abbrev Work (σ α : Type) := ExceptT Error (StateM σ) α

/-- Work that may make inventories on the way. -/
abbrev Session (α : Type) := Work Inventories α

def Session.lift {α : Type} (result : Except Error α) : Session α := ExceptT.mk (pure result)

namespace Work

variable {σ α β : Type}

def on (memory : σ) (work : Work σ α) : Except Error α × σ :=
  Id.run (StateT.run (ExceptT.run work) memory)

/-- What a session gives that begins without inventories. -/
def result (session : Session α) : Except Error α := (session.on {}).1

def serve (inventories : Inventories) (language : Language) : Inventory × Inventories :=
  match inventories.get? language.shortName with
  | some inventory => (inventory, inventories)
  | none =>
    let inventory := Inventory.ofLanguage language
    (inventory, inventories.insert language.shortName inventory)

def inventory (language : Language) : Session Inventory :=
  modifyGet fun inventories => serve inventories language

/-- Takes a recordable error as a result; the others stay errors. -/
def settle (session : Session α) : Session (Except Error α) :=
  tryCatch (do return .ok (← session)) fun error => Session.lift (Error.settle (.error error))

/-- Work put off: it goes on from the memory of now, begins when it is first asked for its
result, and is done only once, however often it is asked. -/
def later (work : Work σ α) : Work σ (Work σ α) := do
  let memory ← get
  let outcome : Thunk (Except Error α × σ) := ⟨fun _ => work.on memory⟩
  return ExceptT.mk fun _ => outcome.get

section

variable (memory : σ)

@[simp] theorem on_pure (value : α) : (pure value : Work σ α).on memory = (.ok value, memory) :=
  rfl

/-- One work after another: the second one goes on from the memory that the first one
leaves, and does not begin at all if the first one fails. -/
theorem on_bind (work : Work σ α) (next : α → Work σ β) :
    (work >>= next).on memory =
      match work.on memory with
      | (.ok value, left) => (next value).on left
      | (.error error, left) => (.error error, left) := by
  unfold Work.on ExceptT.run StateT.run Id.run
  simp only [bind, ExceptT.bind, ExceptT.mk, StateT.bind, ExceptT.bindCont]
  cases work memory with
  | mk result left => cases result <;> rfl

@[simp] theorem on_throw (error : Error) :
    (throw error : Work σ α).on memory = (.error error, memory) := rfl

/-- Work put off gives what it would have given at once. -/
@[simp] theorem on_later (work : Work σ α) (next : Work σ α → Work σ β) :
    (later work >>= next).on memory = (next (ExceptT.mk fun _ => work.on memory)).on memory :=
  rfl

end

section

variable (inventories : Inventories)

@[simp] theorem on_lift (result : Except Error α) :
    (Session.lift result).on inventories = (result, inventories) :=
  rfl

@[simp] theorem on_inventory (language : Language) :
    (inventory language).on inventories =
      (.ok (serve inventories language).1, (serve inventories language).2) :=
  rfl

/-- The inventory that served for a language serves for it ever after. -/
theorem serve_serve (language : Language) :
    serve (serve inventories language).2 language = serve inventories language := by
  cases isMade : inventories.get? language.shortName with
  | some made => simp [serve, isMade]
  | none => simp [serve, isMade]

end

end Work

end Diachrony
