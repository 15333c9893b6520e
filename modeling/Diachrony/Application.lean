import Diachrony.Application.Instructions
import Diachrony.Application.References
import Diachrony.Application.Sounds

/-!
Applying a rule to a word form.

A rule that does not apply leaves its form as it is, and that is no error. A
rule that is being applied cannot be applied again inside itself, so of the
rules of a graph there are always fewer left to call; that is why application
ends.
-/
namespace Diachrony

namespace Frame

variable {σ : Type}

/-- Runs a logic on a form. The opening instructions count only if some branch
is taken. -/
def runLogic (frame : Frame σ) (logic : Logic) (form : WordForm) :
    Work σ Outcome := do
  match logic with
  | .sequential instructions =>
    return ⟨true, ← frame.carryOutAll none form instructions⟩
  | .branching opening branches =>
    let working ← frame.carryOutAll none form opening
    if logic.isSegmental then
      let outcome ← frame.runSounds branches working none
      return if outcome.applied then outcome else ⟨false, form⟩
    else
      match ← (← frame.questionOf working).firstBranch? frame branches with
      | none => return ⟨false, form⟩
      | some branch =>
        return ⟨true, ← frame.carryOutAll (some branch) working branch.instructions⟩

/-- Runs a rule on a whole form: its logic, its categories, and the step to the
language it leads to. -/
def runWhole (frame : Frame σ) (rule : Rule) (form : WordForm) : Work σ Outcome := do
  let outcome ← frame.runLogic rule.logic form
  if outcome.applied then
    let declared ← frame.declareCategories rule outcome.form
    return ⟨true, { declared with language := rule.toLanguage }⟩
  else return ⟨false, form⟩

/-- Runs a rule, after all names it uses have been looked up. Errors about names
are attributed to the rule. -/
def run (frame : Frame σ) (rule : Rule) (extent : Extent) (form : WordForm) :
    Work σ Outcome :=
  ExceptT.adapt (Error.attributedTo rule.name) do
    frame.checkReferences rule
    match extent with
    | .wholeWord => frame.runWhole rule form
    | .oneSound index => frame.runSounds rule.logic.branches form (some [index])

end Frame

/-- The surroundings of a rule among some that are being applied, while the stress of words
in some languages is being worked out. `calls` applies other rules while this is so of the
given languages. The stress rule of a language is not asked for a stress that is being
worked out, nor while it is being applied. -/
def Frame.among (graph : Graph) (marker : Text) (language : Language) (inventory : Inventory)
    (active : List RuleRef) (pending : List Text)
    (calls : List Text → Int → Extent → WordForm → Session Outcome) : Frame where
  graph := graph
  marker := marker
  language := language
  inventory := inventory
  call := calls pending
  stressBy := fun rule form =>
    if pending.contains language.shortName || active.any fun other => other.id == rule then
      return none
    else do
      let outcome ← calls (language.shortName :: pending) rule .wholeWord form
      return if outcome.applied then outcome.form.stressedIndex else none

/-- The rules that are not among some others, by id. -/
def inactiveRules (rules : List Rule) (active : List RuleRef) : List Rule :=
  rules.filter fun rule => !active.any fun other => other.id == rule.id

/-- Taking a rule that was not active into the active ones leaves fewer rules
inactive. -/
theorem inactiveRules_length_lt {rules : List Rule} {active : List RuleRef} {rule : Rule}
    (isMember : rule ∈ rules)
    (isInactive : (active.any fun other => other.id == rule.id) = false) :
    (inactiveRules rules (active ++ [rule.ref])).length <
      (inactiveRules rules active).length := by
  have narrowed : inactiveRules rules (active ++ [rule.ref]) =
      (inactiveRules rules active).filter fun other => !(rule.ref.id == other.id) := by
    simp only [inactiveRules, List.filter_filter]
    congr 1
    funext other
    simp [List.any_append, Bool.and_comm]
  rw [narrowed, List.length_filter_lt_length_iff_exists]
  exact ⟨rule, by simp [inactiveRules, isMember, isInactive], by simp [Rule.ref]⟩

namespace Graph

/-- Applies a rule while some others are being applied. -/
def applyWithin (graph : Graph) (marker : Text) (active : List RuleRef)
    (pending : List Text) (rule : Rule) (extent : Extent) (form : WordForm) :
    Session Outcome := do
  let language ← graph.language rule.fromLanguage
  let inventory ← Work.inventory language
  let frame := Frame.among graph marker language inventory (active ++ [rule.ref]) pending
    fun pending id extent form =>
      match _stored : graph.rules.get? id with
      | none => throw (.notFound .rule (Text.ofInt id))
      | some called =>
        if _isActive : (active ++ [rule.ref]).any fun other => other.id == called.id then
          throw (.recursiveRule called.name
            ((active ++ [rule.ref]).map fun other => other.name))
        else
          graph.applyWithin marker (active ++ [rule.ref]) pending called extent form
  frame.run rule extent form
termination_by (inactiveRules graph.rules.values (active ++ [rule.ref])).length
decreasing_by
  exact inactiveRules_length_lt (Table.mem_values_of_get? _stored)
    (by simpa using _isActive)

def usualMarker : Text := ['-']

def apply (graph : Graph) (rule : Rule) (form : WordForm)
    (marker : Text := usualMarker) : Session Outcome :=
  graph.applyWithin marker [] [] rule .wholeWord form

/-- The surroundings outside of any rule, for a language and the inventory that serves
for it. -/
def outerFrame (graph : Graph) (marker : Text) (language : Language)
    (inventory : Inventory) : Frame :=
  .among graph marker language inventory [] [] fun pending id extent form => do
    graph.applyWithin marker [] pending (← graph.rule id) extent form

def segmentation (graph : Graph) (form : WordForm) (language : Option Text := none)
    (marker : Text := usualMarker) : Session Segmentation := do
  let language ← graph.language (language.getD form.language)
  let inventory ← Work.inventory language
  (graph.outerFrame marker language inventory).segmentation form

def stress (graph : Graph) (form : WordForm) (marker : Text := usualMarker) :
    Session (Option Stretch) := do
  (← graph.segmentation form none marker).stressedStretch?

end Graph

end Diachrony
