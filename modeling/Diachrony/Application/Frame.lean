import Diachrony.Graph
import Diachrony.Segmentation

/-!
The surroundings of a rule that is being applied.

Applying a rule may ask for another one: an instruction may call it, and the
stress of a word may be for a rule to say. A frame carries the way of calling
other rules as a function, so everything that happens inside one rule is defined
without recursion; `Diachrony.Application` ties the knot.
-/
namespace Diachrony

/-- The result of a rule: whether it applied, and the form it leaves. -/
structure Outcome where
  applied : Bool
  form : WordForm

/-- What a rule is called on: a whole word, or one sound of it. -/
inductive Extent where
  | wholeWord
  | oneSound (index : Nat)
  deriving DecidableEq

/-- The surroundings of the rule that is being applied: the language it is from, and the
inventory that serves for that language. `call` applies the rule with an id; `stressBy` asks
the rule with an id, which is the stress rule of the language, where the stress is. -/
structure Frame (σ : Type := Inventories) where
  graph : Graph
  marker : Text
  language : Language
  inventory : Inventory
  call : Int → Extent → WordForm → Work σ Outcome
  stressBy : Int → WordForm → Work σ (Option Int)

/-- The text of a form without the morpheme marks at its end. -/
def bareText (marker text : Text) : Text := Text.stripEnd marker.contains text

namespace Frame

variable {σ : Type}

/-- The stress of a form: the one it has, or what the stress rule of the language says. -/
def stressedIndex (frame : Frame σ) (form : WordForm) : Work σ (Option Int) :=
  match form.stressedIndex, frame.language.stressRule with
  | some index, _ => return some index
  | none, none => return none
  | none, some rule => frame.stressBy rule form

/-- A form cut into the segments of the rule's language. Its stress is worked out when it
is first asked for. -/
def segmentation (frame : Frame σ) (form : WordForm) : Work σ (Segmentation σ) := do
  return .ofText frame.inventory (bareText frame.marker form.text)
    (← Work.later (frame.stressedIndex form))

def withMarkOf (frame : Frame σ) (form : WordForm) (text : Text) : Text :=
  if Text.endsWith frame.marker form.text then text ++ frame.marker else text

/-- The complaint that the language has nothing of some name. -/
def undefined (frame : Frame σ) (kind : NameKind) (name : Option Text) : Error :=
  .undefinedName kind name frame.language.shortName none

def wordClass (frame : Frame σ) (key : Option Text) : Except Error CategoryEntry :=
  match key.bind frame.language.wordClassEntry? with
  | some (_, entry) => .ok entry
  | none => .error (frame.undefined .wordClass key)

end Frame

def needed {α : Type} (part : Text) : Option α → Except Error α
  | some value => .ok value
  | none => .error (.missingPart part)

def WordForm.isIn (form : WordForm) (wordClass : CategoryEntry) : Bool :=
  form.classes.contains wordClass.name || form.classes.contains wordClass.abbreviation

end Diachrony
