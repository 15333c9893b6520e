import Diachrony.Proofs.Application.Failures
import Diachrony.Proofs.Application.Guards
import Diachrony.Proofs.Table
import Mathlib.Logic.Relation

/-!
# Rules that apply themselves

A rule that is being applied is refused inside itself.  Everything else that a rule fails
with is about a name or a part that is missing.  So where no stress is left to a rule, and
where the references from rule to rule never lead back to a rule with the same id, nothing
is ever refused so.
-/
namespace Diachrony

open Work

variable {Kept : Inventories → Prop} {Fails : Error → Prop}

/-- All failures are allowed that come of a missing name, or of features without a sound. -/
structure AllowsMissingNames (Fails : Error → Prop) : Prop where
  name : ∀ kind reference language, Fails (.undefinedName kind reference language none)
  entity : ∀ kind identifier, Fails (.notFound kind identifier)
  source : ∀ found, Fails (.inRule (.featuresWithoutSound found) .null none)
  attributed : ∀ rule failure, Fails failure → Fails (failure.attributedTo rule)

/-- All failures are allowed that come of a missing name, part or sound. -/
structure AllowsMissing (Fails : Error → Prop) : Prop extends AllowsMissingNames Fails where
  part : ∀ part, Fails (.missingPart part)
  sound : Fails .soundRequired
  segment : ∀ index, Fails (.noSuchSound index)
  wordVerb : ∀ verb, Fails (.notAboutWords verb)

namespace AllowsMissingNames

variable (allows : AllowsMissingNames Fails)

include allows

theorem found {α : Type} (kind : EntityKind) (identifier : Text) (value? : Option α) :
    FailsOnly Fails (Graph.found kind identifier value?) := by
  cases value? with
  | some value => exact failsOnly_ok value
  | none => exact failsOnly_error (allows.entity kind identifier)

theorem classTerm (inventory : Inventory) (name : Text) :
    FailsOnly Fails (inventory.classTerm name) := by
  fun_induction inventory.classTerm name with
  | case1 inner isTag => exact failsOnly_ok _
  | case2 inner notTag inductionHypothesis => exact failsOnly_map _ inductionHypothesis
  | case3 name notDenied positional isPositional => exact failsOnly_ok _
  | case4 name notDenied notPositional isTag => exact failsOnly_ok _
  | case5 name notDenied notPositional notTag => exact failsOnly_error (allows.name _ _ _)

theorem classTerms (inventory : Inventory) (expression : Text) :
    FailsOnly Fails (inventory.classTerms expression) := by
  unfold Inventory.classTerms
  split
  · exact failsOnly_error (allows.name _ _ _)
  · exact failsOnly_mapM fun name _ => allows.classTerm inventory name

theorem featureName (inventory : Inventory) (feature : Text) :
    FailsOnly Fails (inventory.featureName feature) := by
  have plain : FailsOnly Fails (if inventory.hasClass feature then .ok feature
      else .error (inventory.undefinedClass feature) : Except Error Text) := by
    split
    · exact failsOnly_ok _
    · exact failsOnly_error (allows.name _ _ _)
  unfold Inventory.featureName
  revert plain
  generalize (if inventory.hasClass feature then .ok feature
    else .error (inventory.undefinedClass feature) : Except Error Text) = result
  intro plain
  dsimp only
  split
  · split
    · exact failsOnly_ok _
    · exact plain
  · split
    · exact failsOnly_ok _
    · exact plain
  · exact plain

theorem featureTerms (inventory : Inventory) (features : List Text) :
    FailsOnly Fails (inventory.featureTerms features) :=
  failsOnly_bind (failsOnly_mapM fun feature _ => allows.featureName inventory feature)
    fun _ _ => allows.classTerms inventory _

theorem resolveCategory (first : Language) (others : List Language) (key : Text) :
    FailsOnly Fails (Diachrony.resolveCategory first others key) := by
  unfold Diachrony.resolveCategory
  split
  · exact failsOnly_ok _
  · exact failsOnly_error (allows.name _ _ _)

section

variable (frame : Frame)

theorem wordClass (key : Option Text) : FailsOnly Fails (frame.wordClass key) := by
  unfold Frame.wordClass
  split
  · exact failsOnly_ok _
  · exact failsOnly_error (allows.name _ _ _)

theorem checkClass (expression : Option Text) : FailsOnly Fails (frame.checkClass expression) := by
  cases expression with
  | none => exact failsOnly_ok _
  | some expression =>
      exact failsOnly_bind (allows.classTerms frame.inventory expression) fun _ _ => failsOnly_ok _

theorem checkClassName (name : Option Text) : FailsOnly Fails (frame.checkClassName name) := by
  unfold Frame.checkClassName
  split
  · exact failsOnly_ok _
  · exact failsOnly_error (allows.name _ _ _)

theorem checkPredicate (predicate : Predicate) :
    FailsOnly Fails (frame.checkPredicate predicate) := by
  refine failsOnly_bind (allows.checkClass frame _) fun _ _ => ?_
  refine failsOnly_bind (allows.checkClass frame _) fun _ _ => ?_
  split
  · exact failsOnly_bind (allows.wordClass frame _) fun _ _ => failsOnly_ok _
  · exact failsOnly_ok _

theorem checkInstruction {instruction : Instruction} (isGiven : instruction.kind = .soundChange →
      FailsOnly Fails (Diachrony.needed "sound change" instruction.change)) :
    FailsOnly Fails (frame.checkInstruction instruction) := by
  have categories : FailsOnly Fails ((citedCategories instruction.argument).forM fun name => do
      let _ ← Diachrony.resolveCategory frame.language [] name) :=
    failsOnly_forM fun name _ =>
      failsOnly_bind (allows.resolveCategory _ _ name) fun _ _ => failsOnly_ok _
  refine failsOnly_bind (allows.checkClass frame _) fun _ _ => ?_
  cases isKind : instruction.kind with
  | changeClass =>
      exact failsOnly_bind (allows.checkClassName frame _) fun _ _ => allows.checkClassName frame _
  | markClass => exact failsOnly_bind (allows.wordClass frame _) fun _ _ => failsOnly_ok _
  | addCategory => exact categories
  | replaceCategory => exact categories
  | soundChange =>
      refine failsOnly_bind (isGiven isKind) fun change _ => failsOnly_forM fun slot _ => ?_
      unfold Frame.checkSlot
      split
      · exact failsOnly_ok _
      · exact failsOnly_bind (allows.featureTerms _ _) fun _ _ => failsOnly_ok _
  | _ => exact failsOnly_ok _

theorem categoryLanguages (rule : Rule) : FailsOnly Fails (frame.categoryLanguages rule) :=
  failsOnly_bind (allows.found _ _ _) fun _ _ => failsOnly_ok _

theorem checkReferences {rule : Rule} (areGiven : ∀ instruction ∈ rule.logic.instructions,
      instruction.kind = .soundChange →
        FailsOnly Fails (Diachrony.needed "sound change" instruction.change)) :
    FailsOnly Fails (frame.checkReferences rule) := by
  refine failsOnly_bind (failsOnly_forM fun _ _ => allows.checkPredicate frame _) fun _ _ => ?_
  refine failsOnly_bind (failsOnly_forM fun _ isMember =>
    allows.checkInstruction frame (areGiven _ isMember)) fun _ _ => ?_
  refine failsOnly_bind (allows.categoryLanguages frame rule) fun languages _ => ?_
  exact failsOnly_forM fun name _ =>
    failsOnly_bind (allows.resolveCategory _ _ name) fun _ _ => failsOnly_ok _

theorem declareCategories (rule : Rule) (form : WordForm) :
    FailsOnly Fails (frame.declareCategories rule form) := by
  refine failsOnly_bind (allows.categoryLanguages frame rule) fun languages _ => ?_
  have resolves (keys : List Text) : ∀ key ∈ keys,
      FailsOnly Fails (Diachrony.resolveCategory languages.1 languages.2 key) :=
    fun key _ => allows.resolveCategory _ _ key
  exact failsOnly_bind (Frame.failsOnly_changeCategories (resolves _)) fun _ _ =>
    Frame.failsOnly_changeCategories (resolves _)

theorem target (target : SeekTarget) : target.Resolves Fails frame.inventory :=
  fun _ _ => allows.classTerms frame.inventory _

theorem branchInstruction (instruction : Instruction) : instruction.ResolvesAtSound Fails frame :=
  fun _ => ⟨allows.checkClassName frame _, allows.checkClassName frame _⟩

end

end AllowsMissingNames

namespace AllowsMissing

variable (allows : AllowsMissing Fails)

include allows

theorem given {α : Type} {Holds : α → Prop} (part : Text) (value? : Option α)
    (holds : ∀ value, value? = some value → Holds value) : Given Fails part Holds value? := by
  cases value? with
  | some value => exact holds value rfl
  | none => exact allows.part part

theorem needed {α : Type} (part : Text) (value? : Option α) :
    FailsOnly Fails (Diachrony.needed part value?) := by
  cases value? with
  | some value => exact failsOnly_ok value
  | none => exact failsOnly_error (allows.part part)

theorem steady (form : WordForm) : form.IsSteady Fails := fun _ _ => .inr allows.segment

theorem patternTerms (inventory : Inventory) (pattern : SoundPattern) :
    FailsOnly Fails (Segmentation.patternTerms inventory pattern) := by
  unfold Segmentation.patternTerms
  split
  · exact allows.classTerms inventory _
  · exact failsOnly_error (allows.part _)

section

variable (frame : Frame)

theorem pattern (pattern : SoundPattern) : pattern.Resolves Fails frame.inventory :=
  fun _ => allows.patternTerms frame.inventory pattern

theorem predicate (atSound : Bool) (predicate : Predicate) :
    predicate.Resolves Fails frame atSound := by
  have patterns := allows.given "pattern" predicate.pattern fun pattern _ =>
    allows.pattern frame pattern
  have ordinals : Given Fails "ordinal" (fun _ => True) predicate.ordinal :=
    allows.given _ _ fun _ _ => trivial
  refine ⟨fun _ _ => allows.sound, ?_⟩
  cases predicate.test with
  | otherwise | atEdge | inStressedSyllable => trivial
  | sound | wordEdge => exact patterns
  | wordClass => exact allows.wordClass frame _
  | syllableCount => exact fun _ => allows.given _ _ fun _ _ => trivial
  | stressOn => exact ordinals
  | syllable => exact ⟨ordinals, patterns⟩
  | seek => exact ⟨allows.given _ _ fun target _ => allows.target frame target, patterns⟩

theorem instruction (branch : Option Branch) {instruction : Instruction}
    (calls : ∀ rule, instruction.rule = some rule → ∀ extent form,
      (frame.call rule.id extent form).EnsuresFrom Kept Fails fun outcome =>
        outcome.form.IsSteady Fails) :
    instruction.Resolves Kept Fails frame branch := by
  unfold Instruction.Resolves
  have places := allows.given "seek" instruction.seek fun target _ => allows.target frame target
  cases instruction.kind with
  | noChange => trivial
  | changeEnding =>
      exact ⟨allows.given _ _ fun _ _ => trivial, fun _ _ _ _ _ _ => allows.pattern frame _⟩
  | attach =>
      exact ⟨fun _ => allows.given _ _ fun _ _ => trivial, fun target _ => allows.target frame target⟩
  | insert => exact ⟨places, allows.given _ _ fun _ _ => trivial⟩
  | stress => exact allows.given _ _ fun _ _ => trivial
  | markClass => exact allows.wordClass frame _
  | addCategory | replaceCategory => exact fun key _ => allows.resolveCategory _ _ key
  | applyRule => exact allows.given _ _ fun rule isRule form _ => calls rule isRule .wholeWord form
  | applySoundRule =>
      exact ⟨allows.given _ _ fun rule isRule => ⟨allows.found _ _ _,
        fun _ _ _ index form _ _ => calls rule isRule (.oneSound index) form,
        fun _ _ _ form _ => calls rule isRule .wholeWord form⟩, places⟩
  | soundChange =>
      have features (slot : Slot) := allows.featureTerms frame.inventory slot.features
      exact allows.given _ _ fun change _ => ⟨.inr allows.segment, fun slot _ _ _ => features slot,
        fun slot _ _ => ⟨allows.source _, features slot⟩,
        fun slot _ _ _ => features slot, fun slot _ _ _ => features slot⟩
  | changeSound | dropSound | changeClass => exact allows.wordVerb _

theorem branchAtSound (branch : Branch) : branch.ResolvesAtSound Fails frame :=
  ⟨fun predicate _ => allows.predicate frame true predicate,
    fun instruction _ => allows.branchInstruction frame instruction⟩

/-- A logic fails in no other ways than the rules that it refers to. -/
theorem logic {logic : Logic}
    (calls : ∀ id ∈ logic.references, ∀ extent form,
      (frame.call id extent form).EnsuresFrom Kept Fails fun outcome =>
        outcome.form.IsSteady Fails) :
    logic.Resolves Kept Fails frame := by
  have instructions (branch : Option Branch) : ∀ instruction ∈ logic.instructions,
      instruction.Resolves Kept Fails frame branch := by
    intro instruction isMember
    refine allows.instruction frame branch fun rule isRule => calls rule.id ?_
    exact List.mem_map_of_mem (List.mem_filterMap.mpr ⟨instruction, isMember, isRule⟩)
  refine ⟨fun instruction isMember => ?_, fun _ branch _ => allows.branchAtSound frame branch,
    fun _ branch isBranch => ⟨fun predicate _ => allows.predicate frame false predicate,
      fun instruction isMember => ?_⟩⟩
  · exact instructions none instruction (List.mem_append_left _ isMember)
  · exact instructions (some branch) instruction
      (List.mem_append_right _ (List.mem_flatMap.mpr ⟨branch, isBranch, isMember⟩))

end

end AllowsMissing

namespace Graph

/-- A rule refers to the rules that are stored under the ids in its logic. -/
def RefersTo (graph : Graph) (rule other : Rule) : Prop :=
  ∃ id ∈ rule.logic.references, graph.rules.get? id = some other

/-- References lead from a rule to no rule twice, where rules with one id are told apart by
nothing. -/
def IsUnlooped (graph : Graph) (rule : Rule) : Prop :=
  ∀ reached later, Relation.ReflTransGen graph.RefersTo rule reached →
    Relation.TransGen graph.RefersTo reached later → later.id ≠ reached.id

def HasNoStressRule (graph : Graph) : Prop :=
  ∀ language ∈ graph.languages.values, language.stressRule = none

variable {graph : Graph} {marker : Text}

theorem IsUnlooped.of_refersTo {rule other : Rule} (isUnlooped : graph.IsUnlooped rule)
    (refers : graph.RefersTo rule other) : graph.IsUnlooped other :=
  fun reached later leads => isUnlooped reached later (.head refers leads)

/-- Where every rule is stored under its id, references lead to no id twice if they lead to
no rule twice. -/
theorem isUnlooped_iff
    (keepsIds : ∀ id rule, graph.rules.get? id = some rule → rule.id = id) {rule : Rule}
    (isStored : graph.rules.get? rule.id = some rule) :
    graph.IsUnlooped rule ↔
      ∀ reached, Relation.ReflTransGen graph.RefersTo rule reached →
        ¬Relation.TransGen graph.RefersTo reached reached := by
  have storedAfter : ∀ {rule other : Rule}, graph.RefersTo rule other →
      graph.rules.get? other.id = some other := by
    rintro rule other ⟨id, -, isOther⟩
    rw [keepsIds id other isOther, isOther]
  constructor
  · exact fun isUnlooped reached leads loops => isUnlooped reached reached leads loops rfl
  · intro noLoop reached later leads leadsOn sameId
    have isReached : graph.rules.get? reached.id = some reached := by
      rcases leads.cases_tail with rfl | ⟨_, -, refers⟩
      · exact isStored
      · exact storedAfter refers
    have isLater : graph.rules.get? later.id = some later := by
      obtain ⟨_, -, refers⟩ := Relation.TransGen.tail'_iff.mp leadsOn
      exact storedAfter refers
    rw [sameId, isReached] at isLater
    cases isLater
    exact noLoop reached leads leadsOn

/-- Calling a rule fails in no other ways than the rule that is called. -/
theorem ensures_callWithin (allows : AllowsMissing Fails) {active : List RuleRef}
    {pending : List Text} {id : Int} {extent : Extent} {form : WordForm}
    (areCallable : ∀ called, graph.rules.get? id = some called →
      ((active.any fun other => other.id == called.id) = false) ∧
        (graph.applyWithin marker active pending called extent form).FailsOnlyFrom Kept Fails) :
    (graph.callWithin marker active pending id extent form).EnsuresFrom Kept Fails fun outcome =>
      outcome.form.IsSteady Fails := by
  have only : (graph.callWithin marker active pending id extent form).FailsOnlyFrom Kept Fails := by
    refine ensures_lookup (allows.found _ _ _) fun called isCalled => ?_
    obtain ⟨isInactive, only⟩ := areCallable called (found_eq_ok isCalled)
    rw [if_neg (by rw [isInactive]; exact Bool.false_ne_true)]
    exact only
  exact only.mono fun outcome _ => allows.steady outcome.form

/-- A rule fails in no other ways than lookups do, if references lead from it neither to a
rule that is being applied nor back to a rule that they have led to. -/
theorem fails_applyWithin (allows : AllowsMissing Fails) (noStress : graph.HasNoStressRule)
    {active : List RuleRef} {rule : Rule} (isUnlooped : graph.IsUnlooped rule)
    (areApart : ∀ reached, Relation.ReflTransGen graph.RefersTo rule reached →
      ∀ other ∈ active, other.id ≠ reached.id)
    (pending : List Text) (extent : Extent) (form : WordForm) :
    (graph.applyWithin marker active pending rule extent form).FailsOnlyFrom Inventories.Any
      Fails := by
  induction active, pending, rule, extent, form using applyWithin.induct graph with
  | case1 active pending rule extent form inductionHypothesis =>
      rw [applyWithin_eq]
      refine ensures_lookup (allows.found _ _ _) fun language isFound => ?_
      refine fails_bind (fails_inventory Inventories.endures_any language) fun inventory => ?_
      have noRule : language.stressRule = none :=
        noStress language (Table.mem_values_of_get? (found_eq_ok isFound))
      have calls : ∀ id ∈ rule.logic.references, ∀ extent form,
          (graph.callWithin marker (active ++ [rule.ref]) pending id extent form).EnsuresFrom
            Inventories.Any Fails fun outcome => outcome.form.IsSteady Fails := by
        intro id isReference extent form
        refine ensures_callWithin allows fun called isCalled => ?_
        have refers : graph.RefersTo rule called := ⟨id, isReference, isCalled⟩
        have apartAfter : ∀ reached, Relation.ReflTransGen graph.RefersTo called reached →
            ∀ other ∈ active ++ [rule.ref], other.id ≠ reached.id := by
          intro reached leads other isMember
          rcases List.mem_append.mp isMember with isMember | isMember
          · exact areApart reached (.head refers leads) other isMember
          · rw [List.mem_singleton.mp isMember]
            exact (isUnlooped rule reached .refl (.head' refers leads)).symm
        have isInactive : ((active ++ [rule.ref]).any fun other => other.id == called.id) =
            false := by
          rw [List.any_eq_false]
          exact fun other isMember => by simpa using apartAfter called .refl other isMember
        exact ⟨isInactive, inductionHypothesis pending id extent form called
          isCalled (by simp [isInactive]) (isUnlooped.of_refersTo refers) apartAfter⟩
      have stresses : (graph.frameWithin marker (active ++ [rule.ref]) pending language
          inventory).StressesOnly Inventories.Any Fails := Frame.stressesOnly_of_stressRule noRule
      refine ensures_adapt (allows.attributed rule.name) ?_
      refine ensures_lookup (allows.checkReferences _ fun _ _ _ => allows.needed _ _) fun _ _ => ?_
      cases extent with
      | wholeWord =>
          exact (Frame.ensures_runWhole stresses (allows.steady form) (allows.logic _ calls)
            fun form => allows.declareCategories _ rule form).failsOnly
      | oneSound index =>
          exact (Frame.ensures_runSounds stresses (allows.steady form)
            (fun branch _ => allows.branchAtSound _ branch) fun _ _ => .inr allows.segment).failsOnly

end Graph

namespace AllowsMissing

variable (allows : AllowsMissing Fails)

include allows

theorem spellingsOf (language : Language) (pattern : SoundPattern) :
    (Reversal.spellingsOf language pattern).FailsOnlyFrom Inventories.Any Fails := by
  unfold Reversal.spellingsOf
  cases pattern.literal with
  | some text => exact fails_pure _
  | none =>
      refine fails_bind (fails_inventory Inventories.endures_any language) fun inventory => ?_
      refine ensures_lookup (allows.patternTerms inventory pattern) fun terms _ => ?_
      refine fails_filterM fun spelling _ => ensures_ite (fun _ => ?_) fun _ => fails_pure _
      exact Segmentation.fails_satisfiesAll (fails_pure _) 0 terms

theorem spellingsOfAll (language : Language) (patterns : List SoundPattern) :
    (Reversal.spellingsOfAll language patterns).FailsOnlyFrom Inventories.Any Fails :=
  fails_bind (fails_mapM fun pattern _ => allows.spellingsOf language pattern) fun _ => fails_pure _

theorem withOldEnding (language : Language) (branch : Option Branch) (ending text : Text) :
    (Reversal.withOldEnding language branch ending text).FailsOnlyFrom Inventories.Any Fails := by
  unfold Reversal.withOldEnding
  split
  · exact fails_bind (allows.spellingsOfAll language _) fun _ => fails_pure _
  · exact fails_pure _

theorem beforeBranch (language : Language) (text : Text) (branch : Branch) :
    (Reversal.beforeBranch language text branch).FailsOnlyFrom Inventories.Any Fails :=
  fails_bind (allows.spellingsOfAll language _) fun _ => fails_pure _

section

variable {undoing : Reversal.Undoing}
  (undone : ∀ id text, (undoing.beforeRule id text).FailsOnlyFrom Inventories.Any Fails)

include undone

theorem undo (branch : Option Branch) (text : Text) (instruction : Instruction) :
    (Reversal.undo undoing branch text instruction).FailsOnlyFrom Inventories.Any Fails := by
  unfold Reversal.undo
  cases instruction.kind with
  | changeEnding => exact allows.withOldEnding _ _ _ _
  | applyRule =>
      exact ensures_lookup (allows.needed _ _) fun rule _ =>
        fails_bind (undone rule.id text) fun _ => fails_pure _
  | applySoundRule =>
      exact ensures_lookup (allows.needed _ _) fun rule _ => undone rule.id text
  | soundChange => exact ensures_lookup (allows.needed _ _) fun _ _ => fails_pure _
  | _ => exact fails_pure _

theorem undoAll (branch : Option Branch) (instructions : List Instruction) (texts : List Text) :
    (Reversal.undoAll undoing branch instructions texts).FailsOnlyFrom Inventories.Any Fails := by
  induction instructions generalizing texts with
  | nil => exact fails_pure _
  | cons instruction instructions inductionHypothesis =>
      exact fails_bind (fails_mapM fun text _ => allows.undo undone branch text instruction)
        fun _ => inductionHypothesis _

theorem beforeLogic (logic : Logic) (text : Text) :
    (Reversal.beforeLogic undoing logic text).FailsOnlyFrom Inventories.Any Fails := by
  cases logic with
  | sequential instructions => exact allows.undoAll undone none _ _
  | branching opening branches =>
      refine ensures_ite (fun _ => fails_bind (fails_mapM fun branch _ => ?_) fun _ => ?_)
        fun _ => fails_bind (fails_mapM fun branch _ => ?_) fun _ => ?_
      · exact allows.beforeBranch undoing.language text branch
      · exact allows.undoAll undone none _ _
      · exact allows.undoAll undone (some branch) _ _
      · exact allows.undoAll undone none _ _

end

theorem beforeRule (graph : Graph) (language : Language) (seen : List RuleRef) (rule : Rule)
    (text : Text) : (Reversal.beforeRule graph language seen rule text).FailsOnlyFrom Inventories.Any Fails := by
  fun_induction Reversal.beforeRule graph language seen rule text with
  | case1 seen rule text inductionHypothesis =>
      refine allows.beforeLogic (fun id text => ?_) rule.logic text
      dsimp only
      split
      · exact ensures_throw (allows.entity _ _)
      · rename_i called isCalled
        split
        · exact fails_pure _
        · rename_i notSeen
          exact inductionHypothesis id text called isCalled notSeen

end AllowsMissing

namespace Graph

variable {graph : Graph} {marker : Text}

theorem fails_keepPassing {passes : WordForm → Session Bool}
    (tries : ∀ form, (passes form).FailsOnlyFrom Inventories.Any Fails) (limit : Int) (forms : List WordForm) :
    Work.FailsOnlyFrom Inventories.Any Fails (Reversal.keepPassing passes limit forms) := by
  induction forms generalizing limit with
  | nil => exact fails_pure _
  | cons form forms inductionHypothesis =>
      refine fails_bind (tries form) fun _ => ?_
      refine ensures_ite (fun _ => ?_) fun _ => inductionHypothesis limit
      refine ensures_ite (fun _ => fails_pure _) fun _ => ?_
      exact fails_bind (inductionHypothesis _) fun _ => fails_pure _

theorem failsFrom_apply (allows : AllowsMissing Fails) (noStress : graph.HasNoStressRule)
    {rule : Rule} (isUnlooped : graph.IsUnlooped rule) (form : WordForm) :
    (graph.apply rule form marker).FailsOnlyFrom Inventories.Any Fails := by
  refine fails_applyWithin allows noStress isUnlooped ?_ [] .wholeWord form
  intro reached _ other isMember
  cases isMember

theorem fails_apply (allows : AllowsMissing Fails) (noStress : graph.HasNoStressRule)
    {rule : Rule} (isUnlooped : graph.IsUnlooped rule) (form : WordForm) :
    (graph.apply rule form marker).FailsOnly Fails :=
  (failsFrom_apply allows noStress isUnlooped form).ensures

theorem fails_reverse (allows : AllowsMissing Fails) (noStress : graph.HasNoStressRule)
    {rule : Rule} (isUnlooped : graph.IsUnlooped rule) (form : WordForm) (limit : Int) :
    (graph.reverse rule form limit marker).FailsOnly Fails := by
  refine EnsuresFrom.ensures (ensures_lookup (allows.found _ _ _) fun language _ => ?_)
  refine ensures_lookup (allows.found _ _ _) fun _ _ => ?_
  refine fails_bind (allows.beforeRule graph language [] rule form.text) fun texts => ?_
  refine fails_keepPassing (fun candidate => ?_) limit _
  exact fails_bind (failsFrom_apply allows noStress isUnlooped candidate) fun _ => fails_pure _

end Graph

/-- Whether an error refuses a rule inside itself. -/
def Error.isRecursion : Error → Bool
  | recursiveRule .. => true
  | _ => false

theorem allowsMissing_of_isRecursion :
    AllowsMissing fun failure => failure.isRecursion = false where
  name := fun _ _ _ => rfl
  entity := fun _ _ => rfl
  part := fun _ => rfl
  sound := rfl
  segment := fun _ => rfl
  source := fun _ => rfl
  wordVerb := fun _ => rfl
  attributed := by
    intro rule failure notRecursion
    unfold Error.attributedTo
    split
    · rfl
    · exact notRecursion

namespace Graph

/-- Whatever the rules of a graph refer to, a stored rule is applied to a form, and the forms
before it are found, with no more rules inside each other than there are stored rules; and
the guards are left as they were, whether this gives a result or fails.  Where no stress is
left to a rule and references lead to no id twice, no rule is refused inside itself. -/
theorem nested_applications_end (graph : Graph) (marker : Text) {rule : Rule}
    (isStored : rule ∈ graph.rules.values) (form : WordForm) :
    (∀ astray,
      (graph.applyGuarded marker astray graph.rules.values.length rule .wholeWord form).Keeps {}
        (graph.apply rule form marker)) ∧
    (∀ astray limit,
      (graph.reverseGuarded marker astray graph.rules.values.length rule form limit).Keeps {}
        (graph.reverse rule form limit marker)) ∧
    (graph.HasNoStressRule → graph.IsUnlooped rule →
      ((graph.apply rule form marker).FailsOnly fun failure => failure.isRecursion = false) ∧
      ∀ limit, (graph.reverse rule form limit marker).FailsOnly fun failure =>
        failure.isRecursion = false) := by
  refine ⟨fun astray => Guarded.keeps_iff.mpr (agree_applyOutermost isStored form),
    fun astray limit => Guarded.keeps_iff.mpr (agree_reverseGuarded isStored form limit),
    fun noStress isUnlooped => ?_⟩
  have allows := allowsMissing_of_isRecursion
  exact ⟨fails_apply allows noStress isUnlooped form,
    fun limit => fails_reverse allows noStress isUnlooped form limit⟩

/-- The rule that another one calls. It carries an id that may not be the one it is stored
under. -/
def calledRule (id : Int) : Rule where
  id := id
  name := "called"
  fromLanguage := "a"
  toLanguage := "a"
  logic := .sequential [{ kind := .attach .after, argument := some "s" }]

def callingRule : Rule where
  id := 2
  name := "calling"
  fromLanguage := "a"
  toLanguage := "a"
  logic := .sequential [{ kind := .applyRule, rule := some { id := 1, name := "called" } }]

def oneReference (id : Int) : Graph where
  languages := ⟨[("a", { name := "A", shortName := "a" })]⟩
  rules := ⟨[(1, calledRule id), (2, callingRule)]⟩

theorem hasNoStressRule_oneReference (id : Int) : (oneReference id).HasNoStressRule := by
  intro language isMember
  cases List.mem_singleton.mp isMember
  rfl

/-- References lead from the calling rule to the called one, and no further. -/
theorem noLoop_oneReference (id : Int) (reached : Rule)
    (leads : Relation.ReflTransGen (oneReference id).RefersTo callingRule reached) :
    ¬Relation.TransGen (oneReference id).RefersTo reached reached := by
  have refersOnce : ∀ other, (oneReference id).RefersTo callingRule other →
      other = calledRule id := by
    rintro other ⟨reference, isReference, isStored⟩
    cases List.mem_singleton.mp isReference
    cases isStored
    rfl
  have endsThere : ∀ other, ¬Relation.TransGen (oneReference id).RefersTo (calledRule id) other := by
    intro other leadsOn
    obtain ⟨next, ⟨reference, isReference, -⟩, -⟩ := Relation.TransGen.head'_iff.mp leadsOn
    cases isReference
  have reachedFrom : ∀ other, Relation.ReflTransGen (oneReference id).RefersTo (calledRule id) other →
      other = calledRule id := by
    intro other leadsOn
    exact (Relation.reflTransGen_iff_eq_or_transGen.mp leadsOn).resolve_right (endsThere other)
  intro loops
  obtain ⟨next, refers, further⟩ := Relation.TransGen.head'_iff.mp loops
  rcases Relation.ReflTransGen.cases_head leads with rfl | ⟨first, isFirst, fromFirst⟩
  · rw [refersOnce next refers] at further
    have same := congrArg Rule.name (reachedFrom _ further)
    cases same
  · rw [refersOnce first isFirst] at fromFirst
    rw [reachedFrom reached fromFirst] at loops
    exact endsThere _ loops

/-- A call that is followed with two rules to spare, and that leaves the guards empty. -/
theorem nested_applications_end_oneReference :
    callingRule ∈ (oneReference 1).rules.values ∧
    (oneReference 1).HasNoStressRule ∧ (oneReference 1).IsUnlooped callingRule ∧
    (∀ astray, ∃ outcome left,
      ((oneReference 1).applyGuarded "-" astray 2 callingRule .wholeWord
        { text := "t", language := "a" }).on {} = (.ok outcome, ⟨left, {}⟩) ∧
      outcome.form = { text := "ts", language := "a" }) ∧
    ((oneReference 1).apply callingRule { text := "t", language := "a" }).FailsOnly
      fun failure => failure.isRecursion = false := by
  have isStored : callingRule ∈ (oneReference 1).rules.values := .tail _ (.head _)
  have keepsIds : ∀ id rule, (oneReference 1).rules.get? id = some rule → rule.id = id := by
    have areKept : ∀ entry ∈ (oneReference 1).rules.entries, entry.2.id = entry.1 := by decide
    exact fun id rule isRule => areKept _ (Table.mem_entries_of_get? isRule)
  have isUnlooped : (oneReference 1).IsUnlooped callingRule :=
    (isUnlooped_iff keepsIds rfl).mpr (noLoop_oneReference 1)
  have noStress := hasNoStressRule_oneReference 1
  obtain ⟨applies, -, refuses⟩ := nested_applications_end (oneReference 1) "-" isStored
    { text := "t", language := "a" }
  refine ⟨isStored, noStress, isUnlooped, fun astray => ?_, (refuses noStress isUnlooped).1⟩
  have applied : ((((oneReference 1).apply callingRule { text := "t", language := "a" }
      "-").on {}).1.toOption.map Outcome.form) = some { text := "ts", language := "a" } := by
    decide +kernel
  obtain ⟨outcome, gave, isForm⟩ := Except.exists_of_toOption_map applied
  exact ⟨outcome, _, (applies astray {}).trans (Prod.ext gave rfl), isForm⟩

/-- A rule is refused although no reference leads back to it, if the rule that it calls
carries its id. -/
theorem refused_under_same_id :
    (oneReference 2).HasNoStressRule ∧
    (∀ reached, Relation.ReflTransGen (oneReference 2).RefersTo callingRule reached →
      ¬Relation.TransGen (oneReference 2).RefersTo reached reached) ∧
    callingRule ∈ (oneReference 2).rules.values ∧
    ∃ failure,
      (((oneReference 2).apply callingRule { text := "t", language := "a" }).on {}).1 =
        .error failure ∧ failure.isRecursion = true := by
  refine ⟨hasNoStressRule_oneReference 2, noLoop_oneReference 2, .tail _ (.head _), ?_⟩
  have refused : (match (((oneReference 2).apply callingRule
      { text := "t", language := "a" }).on {}).1 with
      | .ok _ => false
      | .error failure => failure.isRecursion) = true := by
    decide +kernel
  revert refused
  cases (((oneReference 2).apply callingRule { text := "t", language := "a" }).on {}).1 with
  | ok outcome => exact fun refused => nomatch refused
  | error failure => exact fun refused => ⟨failure, rfl, refused⟩

end Graph

end Diachrony
