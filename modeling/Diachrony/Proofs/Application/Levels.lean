import Diachrony.Proofs.Edit
import Diachrony.Proofs.Application.References

/-!
# Words and sounds are kept apart

A rule is run on words or on sounds, as its conditions say.  A condition about a sound is
then asked where there is one, an instruction about a sound is carried out on one, and an
instruction about a word on a word: for a rule that was read, this was found to fit when it
was read.

Here stands an interpreter that does anything at all where they do not fit.  It still gives
what `Graph.apply` gives, if all rules were read, so it never comes to such a place, in
whatever rule it is and however the rule was called.
-/
namespace Diachrony

open Work

namespace Work

variable {α β : Type}

theorem bind_eq_bind {session other : Session α} {next following : α → Session β}
    (same : session = other) (goesOn : ∀ value, next value = following value) :
    session >>= next = other >>= following := by
  rw [same]
  exact bind_congr goesOn

end Work

variable (ask : Predicate → Session Bool)

namespace Condition

mutual

/-- Whether a condition holds, where predicates are asked in a given way. -/
def heldBy : Condition → Session Bool
  | .holds predicate => ask predicate
  | .all members => eachHeldBy members
  | .any members => someHeldBy members

def eachHeldBy : List Condition → Session Bool
  | [] => return true
  | member :: members => do
    if ← heldBy member then eachHeldBy members
    else return false

def someHeldBy : List Condition → Session Bool
  | [] => return false
  | member :: members => do
    if ← heldBy member then return true
    else someHeldBy members

end

end Condition

/-- The first branch whose condition holds, where predicates are asked in a given way. -/
def Branch.firstBy? : List Branch → Session (Option Branch)
  | [] => return none
  | branch :: branches => do
    if ← branch.condition.heldBy ask then return some branch
    else firstBy? branches

variable {ask} {other : Predicate → Session Bool} {frame : Frame} {question : Question}

namespace Condition

mutual

theorem satisfies_eq : ∀ condition : Condition,
    question.satisfies frame condition = condition.heldBy (question.satisfiesPredicate frame)
  | .holds predicate => by simp only [Question.satisfies, heldBy]
  | .all members => by simp only [Question.satisfies, heldBy, satisfiesEach_eq members]
  | .any members => by simp only [Question.satisfies, heldBy, satisfiesSome_eq members]

theorem satisfiesEach_eq : ∀ members : List Condition,
    Question.satisfiesEach frame question members =
      eachHeldBy (question.satisfiesPredicate frame) members
  | [] => by simp only [Question.satisfiesEach, eachHeldBy]
  | member :: members => by
      simp only [Question.satisfiesEach, eachHeldBy, satisfies_eq member,
        satisfiesEach_eq members]

theorem satisfiesSome_eq : ∀ members : List Condition,
    Question.satisfiesSome frame question members =
      someHeldBy (question.satisfiesPredicate frame) members
  | [] => by simp only [Question.satisfiesSome, someHeldBy]
  | member :: members => by
      simp only [Question.satisfiesSome, someHeldBy, satisfies_eq member,
        satisfiesSome_eq members]

end

mutual

theorem heldBy_congr : ∀ condition : Condition,
    (∀ predicate ∈ condition.predicates, ask predicate = other predicate) →
    condition.heldBy ask = condition.heldBy other
  | .holds predicate => by
      intro same
      simp only [heldBy]
      exact same predicate (List.mem_singleton_self _)
  | .all members => by
      intro same
      simp only [heldBy]
      exact eachHeldBy_congr members same
  | .any members => by
      intro same
      simp only [heldBy]
      exact someHeldBy_congr members same

theorem eachHeldBy_congr : ∀ members : List Condition,
    (∀ predicate ∈ memberPredicates members, ask predicate = other predicate) →
    eachHeldBy ask members = eachHeldBy other members
  | [], _ => by simp only [eachHeldBy]
  | member :: members, same => by
      obtain ⟨first, others⟩ := List.forall_mem_append.mp same
      simp only [eachHeldBy, heldBy_congr member first, eachHeldBy_congr members others]

theorem someHeldBy_congr : ∀ members : List Condition,
    (∀ predicate ∈ memberPredicates members, ask predicate = other predicate) →
    someHeldBy ask members = someHeldBy other members
  | [], _ => by simp only [someHeldBy]
  | member :: members, same => by
      obtain ⟨first, others⟩ := List.forall_mem_append.mp same
      simp only [someHeldBy, heldBy_congr member first, someHeldBy_congr members others]

end

end Condition

theorem Branch.firstBy?_congr {branches : List Branch}
    (same : ∀ branch ∈ branches, ∀ predicate ∈ branch.condition.predicates,
      ask predicate = other predicate) :
    firstBy? ask branches = firstBy? other branches := by
  induction branches with
  | nil => rfl
  | cons branch branches inductionHypothesis =>
      obtain ⟨first, others⟩ := List.forall_mem_cons.mp same
      simp only [firstBy?, branch.condition.heldBy_congr first, inductionHypothesis others]

theorem Question.firstBranch?_eq (branches : List Branch) :
    question.firstBranch? frame branches =
      Branch.firstBy? (question.satisfiesPredicate frame) branches := by
  induction branches with
  | nil => rfl
  | cons branch branches inductionHypothesis =>
      simp only [firstBranch?, Branch.firstBy?, branch.condition.satisfies_eq, inductionHypothesis]

/-- What goes on from the branch that is chosen depends on the branches alone. -/
theorem Branch.firstBy?_bind_congr {β : Type} {next following : Option Branch → Session β}
    (onNone : next none = following none) {branches : List Branch}
    (onSome : ∀ branch ∈ branches, next (some branch) = following (some branch)) :
    (firstBy? ask branches >>= next) = firstBy? ask branches >>= following := by
  induction branches with
  | nil =>
      simp only [firstBy?, pure_bind]
      exact onNone
  | cons branch branches inductionHypothesis =>
      obtain ⟨first, others⟩ := List.forall_mem_cons.mp onSome
      simp only [firstBy?, bind_assoc]
      refine bind_congr fun held => ?_
      by_cases isHeld : held = true
      · simpa [isHeld] using first
      · simpa [isHeld] using inductionHypothesis others

/-- What an interpreter does where a word and a sound are taken for each other: where
something is asked of a sound and there is none, where an instruction about a sound comes to
a word, and where one about a word comes to a sound. -/
structure Mixed where
  answer : Frame → Question → Predicate → Session (Option Bool)
  carryOut : Frame → Option Branch → WordForm → Instruction → Session WordForm
  changeSegment : Frame → Segmentation → Nat → Option Text → Instruction → Session (Option Text)

namespace Mixed

variable (mixed : Mixed) (frame : Frame)

def answerOr (question : Question) (predicate : Predicate) : Session (Option Bool) :=
  if predicate.test.isSegmental = true ∧ question.index = none then
    mixed.answer frame question predicate
  else question.answer frame predicate

def changeSegmentOr (word : Segmentation) (index : Nat) (current : Option Text)
    (instruction : Instruction) : Session (Option Text) :=
  if instruction.kind.isWordLevel then mixed.changeSegment frame word index current instruction
  else frame.changeSegment word index current instruction

def carryOutOr (branch : Option Branch) (form : WordForm) (instruction : Instruction) :
    Session WordForm :=
  if instruction.kind.isSegmental then mixed.carryOut frame branch form instruction
  else frame.carryOut branch form instruction

def satisfiesPredicate (question : Question) (predicate : Predicate) : Session Bool := do
  match ← mixed.answerOr frame question predicate with
  | none => return false
  | some held => return held != predicate.negated

def firstBranch? (question : Question) : List Branch → Session (Option Branch) :=
  Branch.firstBy? (mixed.satisfiesPredicate frame question)

def segmentOutcome? (word : Segmentation) (form : WordForm) (branches : List Branch)
    (index : Nat) : Session (Option (Option Text)) := do
  match ← mixed.firstBranch? frame { form, word, index := some index } branches with
  | none => return none
  | some branch =>
    let result ← branch.instructions.foldlM (mixed.changeSegmentOr frame word index)
      (word.segmentText? index)
    return some result

def segmentOutcomes (word : Segmentation) (form : WordForm) (branches : List Branch) :
    List Nat → Session (List (Nat × Option Text))
  | [] => return []
  | index :: indices => do
    let outcome? ← mixed.segmentOutcome? frame word form branches index
    let outcomes ← segmentOutcomes word form branches indices
    match outcome? with
    | none => return outcomes
    | some outcome => return (index, outcome) :: outcomes

def runSounds (branches : List Branch) (form : WordForm) (indices : Option (List Nat)) :
    Session Outcome := do
  let word ← frame.segmentation form
  let outcomes ← mixed.segmentOutcomes frame word form branches
    (indices.getD (List.range word.length))
  if outcomes.isEmpty then return ⟨false, form⟩
  let results := word.segments.zipIdx.map fun (segment, index) =>
    (outcomes.lookup index).getD (some segment.text)
  let stressed ← match form.stressedIndex with
    | none => pure none
    | some index => stressAfterDrops results index
  let text := (results.filterMap id).flatten
  return ⟨true, form.withText (frame.withMarkOf form text) stressed⟩

def carryOutAll (branch : Option Branch) (form : WordForm) (instructions : List Instruction) :
    Session WordForm :=
  instructions.foldlM (mixed.carryOutOr frame branch) form

def runLogic (logic : Logic) (form : WordForm) : Session Outcome := do
  match logic with
  | .sequential instructions =>
    return ⟨true, ← mixed.carryOutAll frame none form instructions⟩
  | .branching opening branches =>
    let working ← mixed.carryOutAll frame none form opening
    if logic.isSegmental then
      let outcome ← mixed.runSounds frame branches working none
      return if outcome.applied then outcome else ⟨false, form⟩
    else
      match ← mixed.firstBranch? frame (← frame.questionOf working) branches with
      | none => return ⟨false, form⟩
      | some branch =>
        return ⟨true, ← mixed.carryOutAll frame (some branch) working branch.instructions⟩

def runWhole (rule : Rule) (form : WordForm) : Session Outcome := do
  let outcome ← mixed.runLogic frame rule.logic form
  if outcome.applied then
    let declared ← frame.declareCategories rule outcome.form
    return ⟨true, { declared with language := rule.toLanguage }⟩
  else return ⟨false, form⟩

/-- Runs a rule as `Frame.run` does, except where a word and a sound are mixed up. -/
def run (rule : Rule) (extent : Extent) (form : WordForm) : Session Outcome :=
  ExceptT.adapt (Error.attributedTo rule.name) do
    frame.checkReferences rule
    match extent with
    | .wholeWord => mixed.runWhole frame rule form
    | .oneSound index => mixed.runSounds frame rule.logic.branches form (some [index])

end Mixed

/-- Applies a rule as `Graph.applyWithin` does, running each rule in a given way. -/
def Graph.applyBy (run : Frame → Rule → Extent → WordForm → Session Outcome) (graph : Graph)
    (marker : Text) (active : List RuleRef) (pending : List Text) (rule : Rule)
    (extent : Extent) (form : WordForm) : Session Outcome := do
  let language ← graph.language rule.fromLanguage
  let inventory ← Work.inventory language
  let frame := Frame.among graph marker language inventory (active ++ [rule.ref]) pending
    fun pending id extent form =>
      match _stored : graph.rules.get? id with
      | none => throw (.notFound .rule (Text.ofInt id))
      | some called =>
        if _isActive : (active ++ [rule.ref]).any fun other => other.id == called.id then
          throw (.recursiveRule called.name
            ((active ++ [rule.ref]).map fun other => other.name))
        else
          graph.applyBy run marker (active ++ [rule.ref]) pending called extent form
  run frame rule extent form
termination_by (inactiveRules graph.rules.values (active ++ [rule.ref])).length
decreasing_by
  exact inactiveRules_length_lt (Table.mem_values_of_get? _stored)
    (by simpa using _isActive)

/-- The branches of a sound rule have nothing in them about a word as a whole. -/
theorem Logic.sounds_of_fits {logic : Logic} (fits : logic.fits = true)
    (isSegmental : logic.isSegmental = true) :
    ∀ branch ∈ logic.branches, ∀ instruction ∈ branch.instructions,
      instruction.kind.isWordLevel = false := by
  intro branch isBranch
  cases logic with
  | sequential => cases isBranch
  | branching opening branches =>
      have areFit := (Bool.and_eq_true_iff.mp (Bool.and_eq_true_iff.mp fits).2).2
      have isFit := List.all_eq_true.mp areFit branch isBranch
      rw [isSegmental] at isFit
      exact kind_of_lacks (Bool.and_eq_true_iff.mp isFit).2

/-- A rule is called on a single sound only if it is a sound rule. -/
def Extent.Fits (extent : Extent) (logic : Logic) : Prop :=
  extent = .wholeWord ∨ logic.isSegmental = true

/-- A predicate is asked about a sound only where there is one. -/
def Question.Takes (question : Question) (predicate : Predicate) : Prop :=
  predicate.test.isSegmental = true → question.index ≠ none

theorem List.foldlM_congr_of_mem {m : Type → Type} [Monad m] {σ α : Type}
    {step other : σ → α → m σ} {items : List α}
    (same : ∀ item ∈ items, ∀ state, step state item = other state item) (state : σ) :
    items.foldlM step state = items.foldlM other state := by
  induction items generalizing state with
  | nil => rfl
  | cons item items inductionHypothesis =>
      obtain ⟨first, others⟩ := List.forall_mem_cons.mp same
      rw [List.foldlM_cons, List.foldlM_cons, first]
      exact bind_congr fun next => inductionHypothesis others next

namespace Mixed

variable {mixed : Mixed}

theorem satisfiesPredicate_eq {predicate : Predicate} (takes : question.Takes predicate) :
    mixed.satisfiesPredicate frame question predicate =
      question.satisfiesPredicate frame predicate := by
  have same : mixed.answerOr frame question predicate = question.answer frame predicate :=
    if_neg fun mixesUp => takes mixesUp.1 mixesUp.2
  unfold satisfiesPredicate Question.satisfiesPredicate
  exact bind_eq_bind same fun _ => rfl

theorem firstBranch?_eq {branches : List Branch}
    (takes : ∀ branch ∈ branches, ∀ predicate ∈ branch.condition.predicates,
      question.Takes predicate) :
    mixed.firstBranch? frame question branches = question.firstBranch? frame branches := by
  rw [Question.firstBranch?_eq]
  exact Branch.firstBy?_congr fun branch isBranch predicate isPredicate =>
    satisfiesPredicate_eq (takes branch isBranch predicate isPredicate)

theorem segmentOutcome?_eq {word : Segmentation} {form : WordForm} {branches : List Branch}
    (areSegmental : ∀ branch ∈ branches, ∀ instruction ∈ branch.instructions,
      instruction.kind.isWordLevel = false) (index : Nat) :
    mixed.segmentOutcome? frame word form branches index =
      frame.segmentOutcome? word form branches index := by
  unfold segmentOutcome? Frame.segmentOutcome?
  rw [firstBranch?_eq fun branch _ predicate _ _ => Option.some_ne_none index,
    Question.firstBranch?_eq]
  apply Branch.firstBy?_bind_congr
  · rfl
  · intro branch isMember
    have same : ∀ instruction ∈ branch.instructions, ∀ current,
        mixed.changeSegmentOr frame word index current instruction =
          frame.changeSegment word index current instruction := by
      intro instruction isInstruction current
      apply if_neg
      simp [areSegmental branch isMember instruction isInstruction]
    dsimp only
    rw [List.foldlM_congr_of_mem same]

theorem segmentOutcomes_eq {word : Segmentation} {form : WordForm} {branches : List Branch}
    (areSegmental : ∀ branch ∈ branches, ∀ instruction ∈ branch.instructions,
      instruction.kind.isWordLevel = false) (indices : List Nat) :
    mixed.segmentOutcomes frame word form branches indices =
      frame.segmentOutcomes word form branches indices := by
  induction indices with
  | nil => rfl
  | cons index indices inductionHypothesis =>
      unfold segmentOutcomes Frame.segmentOutcomes
      refine bind_eq_bind (segmentOutcome?_eq areSegmental index) fun outcome? => ?_
      exact bind_eq_bind inductionHypothesis fun _ => rfl

theorem runSounds_eq {logic : Logic} (fits : logic.fits = true)
    (isSegmental : logic.isSegmental = true) (form : WordForm) (indices : Option (List Nat)) :
    mixed.runSounds frame logic.branches form indices =
      frame.runSounds logic.branches form indices := by
  unfold runSounds Frame.runSounds
  refine bind_congr fun word => ?_
  have areSegmental := Logic.sounds_of_fits fits isSegmental
  exact bind_eq_bind (segmentOutcomes_eq areSegmental _) fun _ => rfl

theorem carryOutAll_eq {instructions : List Instruction}
    (areAboutWords : ∀ instruction ∈ instructions, instruction.kind.isSegmental = false)
    (branch : Option Branch) (form : WordForm) :
    mixed.carryOutAll frame branch form instructions =
      frame.carryOutAll branch form instructions := by
  refine List.foldlM_congr_of_mem (fun instruction isMember form => if_neg ?_) form
  simp [areAboutWords instruction isMember]

theorem runLogic_eq {logic : Logic} (fits : logic.fits = true) (form : WordForm) :
    mixed.runLogic frame logic form = frame.runLogic logic form := by
  cases logic with
  | sequential instructions =>
      have opening : ∀ instruction ∈ instructions, instruction.kind.isSegmental = false :=
        Logic.opening_of_fits fits
      unfold runLogic Frame.runLogic
      dsimp only
      rw [carryOutAll_eq opening]
  | branching instructions branches =>
      have opening : ∀ instruction ∈ instructions, instruction.kind.isSegmental = false :=
        Logic.opening_of_fits fits
      unfold runLogic Frame.runLogic
      dsimp only
      rw [carryOutAll_eq opening]
      refine bind_congr fun working => ?_
      by_cases isSegmental : (Logic.branching instructions branches).isSegmental = true
      · have sounds : mixed.runSounds frame branches working none =
            frame.runSounds branches working none := runSounds_eq fits isSegmental working none
        rw [if_pos isSegmental, if_pos isSegmental, sounds]
      · have areAboutWords := Logic.branches_of_fits fits (Bool.not_eq_true _ ▸ isSegmental)
        rw [if_neg isSegmental, if_neg isSegmental]
        refine bind_congr fun question => ?_
        rw [firstBranch?_eq, Question.firstBranch?_eq]
        · apply Branch.firstBy?_bind_congr
          · rfl
          · intro branch isMember
            dsimp only
            rw [carryOutAll_eq (areAboutWords branch isMember).2]
        · intro branch isMember predicate isPredicate isAboutSound
          cases ((areAboutWords branch isMember).1 predicate isPredicate).symm.trans isAboutSound

/-- In a rule that fits, and that is called as it fits, words and sounds are never mixed
up. -/
theorem run_eq {rule : Rule} (fits : rule.logic.fits = true) {extent : Extent}
    (isFit : extent.Fits rule.logic) (form : WordForm) :
    mixed.run frame rule extent form = frame.run rule extent form := by
  unfold run Frame.run
  cases extent with
  | wholeWord =>
      dsimp only
      unfold runWhole Frame.runWhole
      rw [runLogic_eq fits]
  | oneSound index =>
      have isSegmental := isFit.resolve_left Extent.noConfusion
      dsimp only
      rw [runSounds_eq fits isSegmental]

end Mixed

/-- A frame that calls a rule on a single sound only if it is a sound rule. -/
def Frame.fitting (frame : Frame) : Frame :=
  { frame with
    call := fun id extent form =>
      match extent with
      | .wholeWord => frame.call id .wholeWord form
      | .oneSound index =>
        if (frame.graph.rules.get? id).any fun rule => rule.logic.isSegmental then
          frame.call id (.oneSound index) form
        else throw .soundRequired }

namespace Frame

variable {frame : Frame}

/-- How another rule would be called as it does not fit makes no difference. -/
theorem fitting_among_congr {graph : Graph} {marker : Text} {language : Language}
    {inventory : Inventory} {active : List RuleRef} {pending : List Text}
    {calls otherCalls : List Text → Int → Extent → WordForm → Session Outcome}
    (onWords : ∀ pending id form,
      calls pending id .wholeWord form = otherCalls pending id .wholeWord form)
    (onSounds : ∀ id called, graph.rules.get? id = some called →
      called.logic.isSegmental = true → ∀ pending index form,
        calls pending id (.oneSound index) form = otherCalls pending id (.oneSound index) form) :
    (among graph marker language inventory active pending calls).fitting =
      (among graph marker language inventory active pending otherCalls).fitting := by
  unfold fitting among
  simp only [onWords, Frame.mk.injEq, and_true, true_and]
  funext id extent form
  cases extent with
  | wholeWord => rfl
  | oneSound index =>
      dsimp only
      cases isStored : graph.rules.get? id with
      | none => rfl
      | some called =>
          rw [Option.any_some]
          by_cases isSegmental : called.logic.isSegmental = true
          · rw [if_pos isSegmental, if_pos isSegmental]
            exact onSounds id called isStored isSegmental pending index form
          · rw [if_neg isSegmental, if_neg isSegmental]

theorem firstBranch?_fitting (question : Question) :
    question.firstBranch? frame.fitting = question.firstBranch? frame := by
  funext branches
  rw [Question.firstBranch?_eq, Question.firstBranch?_eq]
  rfl

theorem segmentOutcomes_fitting (word : Segmentation) (form : WordForm) (branches : List Branch) :
    frame.fitting.segmentOutcomes word form branches = frame.segmentOutcomes word form branches := by
  have same : frame.fitting.segmentOutcome? word form branches =
      frame.segmentOutcome? word form branches := by
    funext index
    unfold segmentOutcome?
    rw [firstBranch?_fitting]
    rfl
  funext indices
  induction indices with
  | nil => rfl
  | cons index indices inductionHypothesis =>
      unfold segmentOutcomes
      rw [same, inductionHypothesis]

theorem runSounds_fitting : frame.fitting.runSounds = frame.runSounds := by
  funext branches form indices
  unfold runSounds
  simp only [segmentOutcomes_fitting]
  rfl

theorem matchForward?_fitting (word : Segmentation) :
    frame.fitting.matchForward? word = frame.matchForward? word := by
  funext slots
  induction slots with
  | nil => rfl
  | cons slot slots inductionHypothesis =>
      funext index
      unfold matchForward?
      rw [inductionHypothesis]
      rfl

theorem matchesBackward_fitting (word : Segmentation) :
    frame.fitting.matchesBackward word = frame.matchesBackward word := by
  funext slots
  induction slots with
  | nil => rfl
  | cons slot slots inductionHypothesis =>
      funext index
      unfold matchesBackward
      rw [inductionHypothesis]
      rfl

theorem outputPieces_fitting (word : Segmentation) (index old : Nat) (slots : List Slot) :
    frame.fitting.outputPieces word index old slots = frame.outputPieces word index old slots := by
  induction slots generalizing index old with
  | nil => cases old <;> rfl
  | cons slot slots inductionHypothesis =>
      cases old with
      | zero =>
          unfold outputPieces
          rw [inductionHypothesis]
          rfl
      | succ old =>
          unfold outputPieces
          rw [inductionHypothesis]
          rfl

theorem matchAt?_fitting (word : Segmentation) (change : SoundChange) (index : Nat) :
    frame.fitting.matchAt? word change index = frame.matchAt? word change index := by
  unfold matchAt?
  simp only [matchForward?_fitting, matchesBackward_fitting]

theorem changeFrom_fitting (word : Segmentation) (change : SoundChange) (index : Nat) :
    frame.fitting.changeFrom word change index = frame.changeFrom word change index := by
  induction left : word.length + 1 - index using Nat.strongRecOn generalizing index with
  | ind left inductionHypothesis =>
      unfold changeFrom
      by_cases isInside : index ≤ word.length
      · have further (next : Nat) (isFurther : index < next) :
            frame.fitting.changeFrom word change next = frame.changeFrom word change next :=
          inductionHypothesis (word.length + 1 - next) (by omega) next rfl
        rw [if_pos isInside, if_pos isInside, further (index + 1) (by omega)]
        rw [matchAt?_fitting, outputPieces_fitting]
        refine bind_congr fun stop? => ?_
        cases stop? with
        | none => rfl
        | some stop =>
            refine bind_congr fun output => ?_
            by_cases covers : index < stop
            · rw [dif_pos covers, dif_pos covers, further stop covers]
            · rw [dif_neg covers, dif_neg covers]
      · rw [if_neg isInside, if_neg isInside]

theorem changeSounds_fitting (change : SoundChange) (form : WordForm) :
    frame.fitting.changeSounds change form = frame.changeSounds change form := by
  unfold changeSounds
  simp only [changeFrom_fitting]
  rfl

theorem applySoundRule_fitting (id : Int) (place : Option SeekTarget) (form : WordForm) :
    frame.fitting.applySoundRule id place form = frame.applySoundRule id place form := by
  unfold applySoundRule
  change (liftM (frame.graph.rule id) >>= _) = _
  cases isCalled : frame.graph.rule id with
  | error failure => rfl
  | ok called =>
      change (if called.logic.isSegmental = true then _ else _) = ite _ _ _
      by_cases isSegmental : called.logic.isSegmental = true
      · rw [if_pos isSegmental, if_pos isSegmental]
        refine bind_congr fun word => bind_congr fun target => bind_congr fun index? => ?_
        cases index? with
        | none => rfl
        | some index =>
            have isSound : ((frame.graph.rules.get? id).any fun rule => rule.logic.isSegmental) =
                true := by
              rw [Graph.found_eq_ok isCalled]
              exact isSegmental
            exact congrArg (· >>= _) (if_pos isSound)
      · rw [if_neg isSegmental, if_neg isSegmental]
        rfl

theorem carryOut_fitting : frame.fitting.carryOut = frame.carryOut := by
  funext branch form instruction
  unfold carryOut
  cases instruction.kind with
  | applySoundRule => exact bind_congr fun rule => applySoundRule_fitting rule.id _ form
  | soundChange => exact bind_congr fun change => changeSounds_fitting change form
  | _ => rfl

theorem runLogic_fitting (logic : Logic) (form : WordForm) :
    frame.fitting.runLogic logic form = frame.runLogic logic form := by
  cases logic with
  | sequential instructions =>
      unfold runLogic carryOutAll
      rw [carryOut_fitting]
  | branching opening branches =>
      unfold runLogic carryOutAll
      simp only [carryOut_fitting, runSounds_fitting, firstBranch?_fitting]
      rfl

theorem run_fitting (rule : Rule) (extent : Extent) (form : WordForm) :
    frame.fitting.run rule extent form = frame.run rule extent form := by
  unfold run runWhole
  simp only [runLogic_fitting, runSounds_fitting]
  rfl

end Frame

namespace Graph

variable {graph : Graph} {marker : Text}

/-- How another rule is called while some rules are being applied, each in a given way. -/
def callBy (run : Frame → Rule → Extent → WordForm → Session Outcome) (graph : Graph)
    (marker : Text) (active : List RuleRef) (pending : List Text) (id : Int) (extent : Extent)
    (form : WordForm) : Session Outcome := do
  let called ← graph.rule id
  if active.any fun other => other.id == called.id then
    throw (.recursiveRule called.name (active.map fun other => other.name))
  else graph.applyBy run marker active pending called extent form

theorem applyBy_eq (run : Frame → Rule → Extent → WordForm → Session Outcome)
    (active : List RuleRef) (pending : List Text) (rule : Rule) (extent : Extent)
    (form : WordForm) :
    graph.applyBy run marker active pending rule extent form = (do
      let language ← graph.language rule.fromLanguage
      let inventory ← Work.inventory language
      run (.among graph marker language inventory (active ++ [rule.ref]) pending
        (graph.callBy run marker (active ++ [rule.ref]))) rule extent form) := by
  rw [applyBy]
  refine bind_congr fun language => bind_congr fun inventory => ?_
  let among := Frame.among graph marker language inventory (active ++ [rule.ref]) pending
  refine congrArg (fun calls => run (among calls) rule extent form) ?_
  funext pending id extent form
  unfold callBy Graph.rule
  split
  · rename_i isNone
    rw [isNone]
    rfl
  · rename_i called isStored
    rw [isStored]
    rfl

/-- A rule that fits is applied as by an interpreter that never mixes up words and sounds,
if all stored rules were read. -/
theorem applyBy_run (mixed : Mixed) (areRead : ∀ rule ∈ graph.rules.values, rule.IsRead)
    {active : List RuleRef} {pending : List Text} {rule : Rule} (fits : rule.logic.fits = true)
    {extent : Extent} (isFit : extent.Fits rule.logic) (form : WordForm) :
    graph.applyBy mixed.run marker active pending rule extent form =
      graph.applyWithin marker active pending rule extent form := by
  induction left : (inactiveRules graph.rules.values (active ++ [rule.ref])).length
    using Nat.strongRecOn generalizing active pending rule extent form with
  | ind left inductionHypothesis =>
      have sameCall {id : Int} {called : Rule} (isCalled : graph.rule id = .ok called)
          (pending : List Text) {extent : Extent} (isFit : extent.Fits called.logic)
          (form : WordForm) :
          graph.callBy mixed.run marker (active ++ [rule.ref]) pending id extent form =
            graph.callWithin marker (active ++ [rule.ref]) pending id extent form := by
        have isMember := Table.mem_values_of_get? (found_eq_ok isCalled)
        unfold callBy callWithin
        rw [isCalled, found_bind, found_bind]
        by_cases isActive : ((active ++ [rule.ref]).any fun other => other.id == called.id) = true
        · rw [if_pos isActive, if_pos isActive]
        · rw [if_neg isActive, if_neg isActive]
          refine inductionHypothesis _ ?_ (areRead called isMember).isComplete.fits isFit form rfl
          rw [← left]
          exact inactiveRules_length_lt isMember (by simpa using isActive)
      have sameFitting (language : Language) (inventory : Inventory) :
          (Frame.among graph marker language inventory (active ++ [rule.ref]) pending
            (graph.callBy mixed.run marker (active ++ [rule.ref]))).fitting =
          (graph.frameWithin marker (active ++ [rule.ref]) pending language inventory).fitting := by
        refine Frame.fitting_among_congr (fun pending id form => ?_)
          fun id called isStored isSegmental pending index form => ?_
        · cases isCalled : graph.rule id with
          | ok called => exact sameCall isCalled pending (.inl rfl) form
          | error failure =>
              unfold callBy callWithin
              rw [isCalled, missing_bind, missing_bind]
        · have isCalled : graph.rule id = .ok called := by
            change found _ _ (graph.rules.get? id) = _
            rw [isStored]
            rfl
          exact sameCall isCalled pending (.inr isSegmental) form
      rw [applyBy_eq, applyWithin_eq]
      refine bind_congr fun language => bind_congr fun inventory => ?_
      rw [Mixed.run_eq fits isFit, ← Frame.run_fitting, sameFitting, Frame.run_fitting]

/-- Where all rules were read, a rule is applied to a form without ever asking a word about
a sound, doing to a word what is done to a sound, or doing to a sound what is done to a
word, in that rule and in all that it calls. -/
theorem apply_never_mixes (mixed : Mixed) (areRead : ∀ rule ∈ graph.rules.values, rule.IsRead)
    {rule : Rule} (isRead : rule.IsRead) (form : WordForm) :
    graph.applyBy mixed.run marker [] [] rule .wholeWord form = graph.apply rule form marker :=
  applyBy_run mixed areRead isRead.isComplete.fits (.inl rfl) form

def refusing : Mixed where
  answer := fun _ _ _ => throw .soundRequired
  carryOut := fun _ _ _ instruction => throw (.notAboutWords instruction.kind.name)
  changeSegment := fun _ _ _ _ instruction => throw (.notAboutWords instruction.kind.name)

def ruleNamed (name : Text) (id : Int) (logic : Logic) : Rule where
  id := id
  name := name
  fromLanguage := "a"
  toLanguage := "a"
  logic := logic

def wordAndSoundRule (words sounds : Logic) : Graph where
  languages := ⟨[("a", { name := "A", shortName := "a" })]⟩
  rules := ⟨[(1, ruleNamed "sounds" 1 sounds), (2, ruleNamed "words" 2 words)]⟩

def findsSounds (name : Text) : Option RuleRef :=
  if name = "sounds" then some { id := 1, name } else none

theorem apply_never_mixes_soundCalled :
    ∃ sounds words,
      Logic.read (fun _ => none) "sound is 't':\n- new sound is 'd'" = .ok sounds ∧
      Logic.read findsSounds
        "word ends with 't':\n- apply sound rule 'sounds' to last sound\n- append 'a'" =
          .ok words ∧
      ∃ outcome,
        (((wordAndSoundRule words sounds).applyBy refusing.run "-" [] []
          (ruleNamed "words" 2 words) .wholeWord { text := "tat", language := "a" }).on {}).1 =
            .ok outcome ∧
        outcome.form.text = "tada" := by
  have found : (do
      let sounds ← (Logic.read (fun _ => none) "sound is 't':\n- new sound is 'd'").toOption
      let words ← (Logic.read findsSounds
        "word ends with 't':\n- apply sound rule 'sounds' to last sound\n- append 'a'").toOption
      let outcome ← (((wordAndSoundRule words sounds).apply (ruleNamed "words" 2 words)
        { text := "tat", language := "a" } "-").on {}).1.toOption
      return outcome.form.text) = some "tada".toList := by
    decide +kernel
  obtain ⟨sounds, areSounds, found⟩ := Option.bind_eq_some_iff.mp found
  obtain ⟨words, areWords, found⟩ := Option.bind_eq_some_iff.mp found
  obtain ⟨outcome, isOutcome, isText⟩ := Option.bind_eq_some_iff.mp found
  have readsSounds := Except.toOption_eq_some.mp areSounds
  have readsWords := Except.toOption_eq_some.mp areWords
  have areRead : ∀ rule ∈ (wordAndSoundRule words sounds).rules.values, rule.IsRead := by
    intro rule isMember
    rcases List.mem_pair.mp isMember with rfl | rfl
    · exact ⟨_, _, readsSounds⟩
    · exact ⟨_, _, readsWords⟩
  refine ⟨sounds, words, readsSounds, readsWords, outcome, ?_, Option.some.inj isText⟩
  rw [apply_never_mixes refusing areRead ⟨_, _, readsWords⟩]
  exact Except.toOption_eq_some.mp isOutcome

end Graph

end Diachrony
