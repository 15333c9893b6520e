import Diachrony.Application

/-!
# Calls

How a rule calls another one while some are being applied, written without the measure that
makes the recursion end.
-/
namespace Diachrony

namespace Graph

/-- How another rule is called while some rules are being applied, and while the stress of
words in some languages is being worked out. -/
def callWithin (graph : Graph) (marker : Text) (active : List RuleRef) (pending : List Text)
    (id : Int) (extent : Extent) (form : WordForm) : Session Outcome := do
  let called ← graph.rule id
  if active.any fun other => other.id == called.id then
    throw (.recursiveRule called.name (active.map fun other => other.name))
  else graph.applyWithin marker active pending called extent form

/-- The surroundings of a rule among the rules that are being applied. -/
def frameWithin (graph : Graph) (marker : Text) (active : List RuleRef) (pending : List Text)
    (language : Language) (inventory : Inventory) : Frame :=
  .among graph marker language inventory active pending (graph.callWithin marker active)

theorem applyWithin_eq (graph : Graph) (marker : Text) (active : List RuleRef)
    (pending : List Text) (rule : Rule) (extent : Extent) (form : WordForm) :
    graph.applyWithin marker active pending rule extent form = (do
      let language ← graph.language rule.fromLanguage
      let inventory ← Work.inventory language
      (graph.frameWithin marker (active ++ [rule.ref]) pending language inventory).run
        rule extent form) := by
  refine (applyWithin.eq_1 graph marker active pending rule extent form).trans ?_
  refine bind_congr fun language => bind_congr fun inventory => ?_
  let among := Frame.among graph marker language inventory (active ++ [rule.ref]) pending
  refine congrArg (fun calls => (among calls).run rule extent form) ?_
  funext pending id extent form
  unfold callWithin Graph.rule
  split
  · rename_i isNone
    rw [isNone]
    rfl
  · rename_i called isStored
    rw [isStored]
    rfl

end Graph

end Diachrony
