import Diachrony.Condition
import Diachrony.Instruction

/-!
The logic of a rule: either branches, of which the first one that fits is
taken, or a plain row of instructions. This module holds the logic and its
printed form; `Diachrony.Logic.Reader` reads it.
-/
namespace Diachrony

open Text (joinWith splitAt)

/-- A branch: what it asks and what it does. A comment may have lines. -/
structure Branch where
  condition : Condition
  instructions : List Instruction
  comment : Option Text := none
  deriving BEq

/-- The logic of a rule. The opening instructions of a branching logic come
before any branch is looked at. -/
inductive Logic where
  | branching (opening : List Instruction) (branches : List Branch)
  | sequential (instructions : List Instruction)
  deriving BEq

namespace Logic

/-- Whether a rule is a sound rule: some branch asks something of a sound. -/
def isSegmental : Logic → Bool
  | branching _ branches => branches.any fun branch => branch.condition.isSegmental
  | sequential _ => false

def branches : Logic → List Branch
  | branching _ branches => branches
  | sequential _ => []

/-- The instructions in front of the branches, or all where there are none. -/
def openingInstructions : Logic → List Instruction
  | branching opening _ => opening
  | sequential instructions => instructions

def instructions (logic : Logic) : List Instruction :=
  logic.openingInstructions ++
    logic.branches.flatMap fun branch => branch.instructions

def predicates (logic : Logic) : List Predicate :=
  logic.branches.flatMap fun branch => branch.condition.predicates

def ruleRefs (logic : Logic) : List RuleRef :=
  logic.instructions.filterMap Instruction.rule

def references (logic : Logic) : List Int := logic.ruleRefs.map RuleRef.id

/-- The references to rules in a logic, one for each rule, in the order of their ids. -/
def sortedRefs (logic : Logic) : List RuleRef :=
  (logic.ruleRefs.eraseDupsBy fun left right => left.id == right.id).mergeSort
    fun left right => decide (left.id ≤ right.id)

def printInstruction (instruction : Instruction) : Text :=
  "- ".toList ++ instruction.print

/-- The lines of a comment; an empty comment has none. -/
def printComment (comment : Option Text) : List Text :=
  match comment with
  | none | some [] => []
  | some comment => (splitAt '\n' comment).map fun line => "# ".toList ++ line

def printBranch (branch : Branch) : List Text :=
  printComment branch.comment ++ [branch.condition.print ++ [':']] ++
    branch.instructions.map fun instruction =>
      "    ".toList ++ printInstruction instruction

/-- Adds the lines of further branches to lines that stand already, with an
empty line between the two. -/
def appendBranches (lines : List Text) : List Branch → List Text
  | [] => lines
  | branch :: branches =>
    let gap := if lines.isEmpty then [] else [[]]
    appendBranches (lines ++ gap ++ printBranch branch) branches

def print : Logic → Text
  | branching opening branches =>
    joinWith ['\n'] (appendBranches (opening.map printInstruction) branches)
  | sequential instructions => joinWith ['\n'] (instructions.map printInstruction)

end Logic

end Diachrony
