import Diachrony.Application.Categories

/-!
The names that a rule uses, all looked up before anything of the rule runs. So a
name that its language lacks makes a rule fail on every word, also on those for
which it would never be looked up.
-/
namespace Diachrony

namespace Frame

variable {σ : Type}

def checkClass (frame : Frame σ) : Option Text → Except Error Unit
  | none => .ok ()
  | some expression => do let _ ← frame.inventory.classTerms expression

def checkClassName (frame : Frame σ) (name : Option Text) : Except Error Unit :=
  if name.any frame.inventory.hasClass then .ok ()
  else .error (frame.undefined .phonemeClass name)

def checkPredicate (frame : Frame σ) (predicate : Predicate) : Except Error Unit := do
  frame.checkClass (predicate.pattern.bind SoundPattern.soundClass)
  frame.checkClass (predicate.seek.bind SeekTarget.soundClass)
  if predicate.test = .wordClass then
    let _ ← frame.wordClass predicate.value

def checkSlot (frame : Frame σ) (slot : Slot) : Except Error Unit :=
  if slot.features.isEmpty then .ok ()
  else do let _ ← frame.inventory.featureTerms slot.features

def checkInstruction (frame : Frame σ) (instruction : Instruction) : Except Error Unit := do
  frame.checkClass (instruction.seek.bind SeekTarget.soundClass)
  match instruction.kind with
  | .changeClass =>
    frame.checkClassName instruction.argument
    frame.checkClassName instruction.target
  | .markClass => do let _ ← frame.wordClass instruction.argument
  | .addCategory | .replaceCategory =>
    (citedCategories instruction.argument).forM fun name => do
      let _ ← resolveCategory frame.language [] name
  | .soundChange =>
    (← needed "sound change" instruction.change).slots.forM frame.checkSlot
  | _ => return ()

def checkCategories (frame : Frame σ) (rule : Rule) : Except Error Unit := do
  let (target, others) ← frame.categoryLanguages rule
  (citedCategories rule.replacedCategories ++ citedCategories rule.addedCategories).forM
    fun name => do let _ ← resolveCategory target others name

/-- Looks up every name that a rule uses: in its conditions, then in its
instructions, then among its categories. -/
def checkReferences (frame : Frame σ) (rule : Rule) : Except Error Unit := do
  rule.logic.predicates.forM frame.checkPredicate
  rule.logic.instructions.forM frame.checkInstruction
  frame.checkCategories rule

end Frame

end Diachrony
