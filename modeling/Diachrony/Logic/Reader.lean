import Diachrony.Condition.Reader
import Diachrony.Error
import Diachrony.Logic

/-!
Reading the logic of a rule from its text, line by line.

Lines are of three kinds: a comment, an instruction, or the heading of a branch.
What a single line makes wrong is found while that line is read; what the lines
make wrong together is found at the end. Either way the fault is located at the
line it is about.
-/
namespace Diachrony

open Text (trim after? before? numberedLines joinWith)

namespace Logic

structure LocatedFault where
  line : Nat
  fault : ReadingFault
  deriving DecidableEq

/-- Something that was read, with the number of its line. -/
structure Numbered (α : Type) where
  line : Nat
  value : α

/-- A branch under construction, its instructions last first. -/
structure DraftBranch where
  line : Nat
  condition : Condition
  instructions : List (Numbered Instruction)
  comment : Option Text

/-- A logic under construction: opening instructions, branches and the
comments that wait for a heading, each of them last first. -/
structure Draft where
  opening : List (Numbered Instruction) := []
  branches : List DraftBranch := []
  comments : List Text := []

namespace Draft

def addComment (draft : Draft) (comment : Text) : Draft :=
  { draft with comments := comment :: draft.comments }

def addInstruction (draft : Draft) (instruction : Numbered Instruction) : Draft :=
  match draft.branches with
  | [] => { draft with opening := instruction :: draft.opening }
  | branch :: branches =>
    { draft with
      branches :=
        { branch with instructions := instruction :: branch.instructions } :: branches }

def openBranch (draft : Draft) (line : Nat) (condition : Condition) : Draft :=
  let comment :=
    if draft.comments.isEmpty then none
    else some (joinWith ['\n'] draft.comments.reverse)
  { draft with
    branches := { line, condition, instructions := [], comment } :: draft.branches
    comments := [] }

/-- Whether the branch that is open takes all that is left. -/
def isClosed (draft : Draft) : Bool :=
  draft.branches.head?.any fun branch => branch.condition.isOtherwise

def readLine (resolver : Resolver) (draft : Draft) (number : Nat) (line : Text) :
    Except ReadingFault Draft :=
  match line with
  | '#' :: comment => .ok (draft.addComment (trim comment))
  | '-' :: instruction => do
    return draft.addInstruction ⟨number, ← Instruction.read resolver instruction⟩
  | line =>
    match before? [':'] line with
    | none => .error (.unknownLine line)
    | some heading =>
      if draft.isClosed then .error .otherwiseNotLast
      else do return draft.openBranch number (← Condition.read heading)

def readLines (resolver : Resolver) :
    Draft → List (Nat × Text) → Except LocatedFault Draft
  | draft, [] => .ok draft
  | draft, (number, line) :: lines =>
    let line := trim line
    if line.isEmpty then readLines resolver draft lines
    else match draft.readLine resolver number line with
      | .ok draft => readLines resolver draft lines
      | .error fault => .error ⟨number, fault⟩

end Draft

def refuseFirst (isRefused : InstructionKind → Bool) (fault : InstructionKind → ReadingFault)
    (instructions : List (Numbered Instruction)) : Except LocatedFault Unit :=
  match instructions.find? fun numbered => isRefused numbered.value.kind with
  | some numbered => .error ⟨numbered.line, fault numbered.value.kind⟩
  | none => .ok ()

/-- Instructions about one sound need a condition about one sound. -/
def refuseSegmental : List (Numbered Instruction) → Except LocatedFault Unit :=
  refuseFirst InstructionKind.isSegmental fun kind => .soundConditionRequired kind.name

/-- Instructions about a whole word have no place in a sound rule. -/
def refuseWordLevel : List (Numbered Instruction) → Except LocatedFault Unit :=
  refuseFirst InstructionKind.isWordLevel fun kind => .refusedInSoundRule kind.name

def refuseEndingChange : List (Numbered Instruction) → Except LocatedFault Unit :=
  refuseFirst (· == .changeEnding) fun _ => .endingConditionRequired

/-- Checks the instructions of a branch against its condition and against the
kind of rule it is in. -/
def finishBranch (segmental : Bool) (draft : DraftBranch) :
    Except LocatedFault Branch := do
  let instructions := draft.instructions.reverse
  if instructions.isEmpty then throw ⟨draft.line, .branchWithoutInstructions⟩
  if segmental then refuseWordLevel instructions
  else
    refuseSegmental instructions
    if !draft.condition.asksEnding then refuseEndingChange instructions
  return {
    condition := draft.condition
    instructions := instructions.map Numbered.value
    comment := draft.comment }

/-- Checks a draft as a whole and makes it a logic. -/
def finish (draft : Draft) : Except LocatedFault Logic := do
  let opening := draft.opening.reverse
  let drafts := draft.branches.reverse
  refuseSegmental opening
  if drafts.isEmpty then
    refuseEndingChange opening
    return sequential (opening.map Numbered.value)
  else
    let segmental := drafts.any fun branch => branch.condition.isSegmental
    let branches ← drafts.mapM (finishBranch segmental)
    return branching (opening.map Numbered.value) branches

def read (resolver : Resolver) (text : Text) : Except LocatedFault Logic := do
  finish (← Draft.readLines resolver {} (numberedLines text))

/-- A fault in the logic of a rule that may have a name. A name that is neither a text
nor blank cannot go into an error that is recorded. -/
def errorIn (rule : Data) (located : LocatedFault) : Error :=
  let error := Error.inRule located.fault rule (some located.line)
  if error.isRecordable && !rule.isBlank && !rule.isText then .unusableValue "name"
  else error

def readFor (resolver : Resolver) (rule : Data) (text : Text) :
    Except Error Logic :=
  (read resolver text).mapError (errorIn rule)

/-- What is wrong with printing some ordinals and some numbers: ordinals without a name, and
numbers with more digits than are written. -/
def printingErrors (ordinals : List (Option Int)) (numbers : List Int) : List Error :=
  let unnamed := ordinals.filter fun ordinal => (Ordinal.nameOf? ordinal).isNone
  let lengths := numbers.map fun number => (Text.ofNat number.natAbs).length
  unnamed.map .unnamedOrdinal ++ (lengths.filter (Text.digitLimit < ·)).map fun digits =>
    .inRule (.numberTooLong digits) .null none

def predicateErrors (predicate : Predicate) : List Error :=
  printingErrors predicate.printedOrdinals predicate.printedNumbers

def instructionErrors (instruction : Instruction) : List Error :=
  printingErrors instruction.printedOrdinals []

def allPrintingErrors : Logic → List Error
  | branching opening branches =>
    opening.flatMap instructionErrors ++ branches.flatMap fun branch =>
      branch.condition.predicates.flatMap predicateErrors ++
        branch.instructions.flatMap instructionErrors
  | sequential instructions => instructions.flatMap instructionErrors

/-- The printed form of a logic, which there is only if all ordinals in it have names and
its numbers are not too long. -/
def printed (logic : Logic) : Except Error Text :=
  match logic.allPrintingErrors.head? with
  | some error => .error error
  | none => .ok logic.print

end Logic

end Diachrony
