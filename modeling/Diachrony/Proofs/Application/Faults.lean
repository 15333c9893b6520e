import Diachrony.Proofs.Application.Recursion
import Diachrony.Proofs.Application.References

/-!
# Faults

Most failures of a rule say what is wrong with it or with a name.  The others say that
a part of an instruction is missing, that a word is treated as a sound, or that a sound
is not there, and they stop everything.  A rule that was read has all its parts, and each
sound that it works on is found in the word that it is applied to.

There is one way to go wrong.  A rule may be applied to a single sound of a word by a rule
of another language.  The sound is sought among the sounds of that language, and there
may be fewer of them in the language of the rule.
-/
namespace Diachrony

open Work

variable {Kept : Inventories → Prop} {Fails : Error → Prop} {frame : Frame}

namespace AllowsMissingNames

variable (allows : AllowsMissingNames Fails)

include allows

theorem pattern_resolves {pattern : SoundPattern} (isRead : pattern.IsRead) :
    pattern.Resolves Fails frame.inventory := by
  cases isRead with
  | literal => exact fun isNone => nomatch isNone
  | soundClass => exact fun _ => allows.classTerms frame.inventory _

theorem predicate_resolves {predicate : Predicate} (isRead : predicate.IsRead) {atSound : Bool}
    (fits : predicate.test.isSegmental = true → atSound = true) :
    predicate.Resolves Fails frame atSound := by
  have patterns : ∀ pattern, predicate.pattern = some pattern →
      pattern.Resolves Fails frame.inventory :=
    fun _ isPattern => allows.pattern_resolves (isRead.pattern isPattern)
  refine ⟨fun isSegmental isWord => ?_, ?_⟩
  · cases isWord.symm.trans (fits isSegmental)
  · cases isRead with
    | otherwise | atEdge | inStressedSyllable | stressOn => trivial
    | sound | wordEdge => exact patterns _ rfl
    | syllableCount => exact fun _ => trivial
    | wordClass => exact allows.wordClass frame _
    | syllable => exact ⟨trivial, patterns _ rfl⟩
    | seek => exact ⟨allows.target frame _, patterns _ rfl⟩

theorem soundChange_resolves {change : SoundChange} (isRead : change.IsRead) :
    change.Resolves Fails frame.inventory := by
  have features (slot : Slot) := allows.featureTerms frame.inventory slot.features
  exact ⟨.inl (SoundChange.inside_of_checkSounds isRead.fits).1, fun slot _ _ _ => features slot,
    fun slot _ _ => ⟨allows.source _, features slot⟩, fun slot _ _ _ => features slot,
    fun slot _ _ _ => features slot⟩

theorem instruction_resolves {instruction : Instruction} (isRead : instruction.IsRead)
    (isAboutWords : instruction.kind.isSegmental = false) {branch : Option Branch}
    (endings : ∀ asked, branch = some asked → ∀ predicate ∈ asked.condition.predicates,
      predicate.IsRead)
    (words : ∀ reference, instruction.rule = some reference → frame.CallsOnly Kept Fails reference.id)
    (sounds : ∀ reference, instruction.rule = some reference → instruction.kind = .applySoundRule →
      frame.CallsOnlyAsFits Kept Fails reference.id) :
    instruction.Resolves Kept Fails frame branch := by
  cases isRead with
  | noChange | stress => trivial
  | changeSound | dropSound | changeClass => cases isAboutWords
  | changeEnding =>
      refine ⟨trivial, fun asked isBranch predicate isAsked pattern isEnding => ?_⟩
      have isPattern := Predicate.pattern_of_endingPattern? isEnding
      exact allows.pattern_resolves ((endings asked isBranch predicate isAsked).pattern isPattern)
  | attachText => exact ⟨fun _ => trivial, fun _ isSought => nomatch isSought⟩
  | attachSound => exact ⟨(fun isNone => nomatch isNone), fun target _ => allows.target frame target⟩
  | insert => exact ⟨allows.target frame _, trivial⟩
  | markClass => exact allows.wordClass frame _
  | addCategory | replaceCategory => exact fun key _ => allows.resolveCategory _ _ key
  | applyRule rule => exact words rule rfl
  | applySoundRule rule => exact ⟨sounds rule rfl rfl, allows.target frame _⟩
  | soundChange isChange => exact allows.soundChange_resolves isChange

theorem branch_resolvesAtSound {branch : Branch}
    (areRead : ∀ predicate ∈ branch.condition.predicates, predicate.IsRead) :
    branch.ResolvesAtSound Fails frame :=
  ⟨fun predicate isMember => allows.predicate_resolves (areRead predicate isMember) fun _ => rfl,
    fun instruction _ => allows.branchInstruction frame instruction⟩

theorem logic_resolves {logic : Logic} (isComplete : logic.IsComplete)
    (words : ∀ id, frame.CallsOnly Kept Fails id)
    (sounds : ∀ instruction ∈ logic.instructions, ∀ reference,
      instruction.rule = some reference → instruction.kind = .applySoundRule →
        frame.CallsOnlyAsFits Kept Fails reference.id) :
    logic.Resolves Kept Fails frame := by
  refine Logic.resolves_of_fits isComplete.fits (fun predicate isMember _ => ?_)
    (fun instruction _ => ?_) fun instruction isMember isAboutWords branch areAsked => ?_
  · exact allows.predicate_resolves (isComplete.predicates predicate isMember)
  · exact allows.branchInstruction frame instruction
  · refine allows.instruction_resolves (isComplete.instructions instruction isMember) isAboutWords
      (fun asked isBranch predicate isAsked => ?_) (fun reference _ => words reference.id)
      (sounds instruction isMember)
    exact isComplete.predicates predicate (areAsked asked isBranch predicate isAsked)

theorem checkReferences_of_isComplete {rule : Rule} (isComplete : rule.logic.IsComplete) :
    FailsOnly Fails (frame.checkReferences rule) := by
  refine allows.checkReferences frame fun instruction isMember isChange => ?_
  revert isChange
  cases isComplete.instructions instruction isMember with
  | soundChange => exact fun _ => failsOnly_ok _
  | _ => exact fun isChange => nomatch isChange

end AllowsMissingNames

namespace Graph

/-- A rule applies a sound rule of another language to one sound. -/
def CallsAbroad (graph : Graph) (rule : Rule) : Prop :=
  ∃ instruction ∈ rule.logic.instructions, instruction.kind = .applySoundRule ∧
    ∃ reference called, instruction.rule = some reference ∧
      graph.rules.get? reference.id = some called ∧ called.logic.isSegmental = true ∧
        called.fromLanguage ≠ rule.fromLanguage

variable {graph : Graph} {marker : Text}

/-- The sound that a rule is called on is there, whatever inventory serves for the language
of the rule, unless a sound may be missing. -/
def Reaches (Kept : Inventories → Prop) (Fails : Error → Prop) (graph : Graph) (marker : Text)
    (rule : Rule) (extent : Extent) (form : WordForm) : Prop :=
  ∀ index, extent = .oneSound index →
    (∃ language inventory, graph.language rule.fromLanguage = .ok language ∧
      (∀ made, Kept made → made.get? language.shortName = some inventory) ∧
      index < (inventory.segments (bareText marker form.text)).length) ∨
    ∀ index, Fails (.noSuchSound index)

theorem reaches_wholeWord {rule : Rule} {form : WordForm} :
    graph.Reaches Kept Fails marker rule .wholeWord form := by
  intro index isSound
  cases isSound

theorem Reaches.isInside {rule : Rule} {language : Language} {inventory : Inventory} {index : Nat}
    {form : WordForm} (reaches : graph.Reaches Kept Fails marker rule (.oneSound index) form)
    (isSource : graph.language rule.fromLanguage = .ok language)
    (isServed : ∃ made, Kept made ∧ made.get? language.shortName = some inventory) :
    index < (inventory.segments (bareText marker form.text)).length ∨
      ∀ index, Fails (.noSuchSound index) := by
  refine (reaches index rfl).imp_left ?_
  rintro ⟨source, serving, sameSource, serves, isInside⟩
  obtain ⟨made, isKept, served⟩ := isServed
  cases isSource.symm.trans sameSource
  cases served.symm.trans (serves made isKept)
  exact isInside

section

variable {active : List RuleRef} {pending : List Text} {rule : Rule} {language : Language}
  {inventory : Inventory}

/-- A rule that is called from a frame is asked for the stress of words without stress only. -/
theorem stressesOnly_within
    (calls : ∀ pending id form, form.IsSteady Fails →
      (graph.callWithin marker active pending id .wholeWord form).EnsuresFrom Kept Fails
        fun outcome => outcome.form.IsSteady Fails) :
    (graph.frameWithin marker active pending language inventory).StressesOnly Kept Fails := by
  intro form
  unfold Frame.stressedIndex
  cases isStressed : form.stressedIndex with
  | some index => exact fails_pure _
  | none =>
      have steady : form.IsSteady Fails := by
        intro stressed isIndex
        cases isStressed.symm.trans isIndex
      cases (graph.frameWithin marker active pending language inventory).language.stressRule with
      | none => exact fails_pure _
      | some id =>
          refine ensures_ite (fun _ => fails_pure _) fun _ => ?_
          exact fails_bind (calls _ id form steady).failsOnly fun _ => fails_pure _

/-- A rule of the same language finds the sounds where they were sought. -/
theorem callsOnlyAsFits_within (allows : AllowsMissingNames Fails)
    (isSource : graph.language rule.fromLanguage = .ok language)
    (abroad : graph.CallsAbroad rule → ∀ index, Fails (.noSuchSound index))
    (calls : ∀ id extent form, form.IsSteady Fails →
      (∀ called, graph.rules.get? id = some called → graph.Reaches
        (Inventories.Serving Kept language.shortName inventory) Fails marker called
        extent form) →
      (graph.callWithin marker active pending id extent form).EnsuresFrom
        (Inventories.Serving Kept language.shortName inventory) Fails
        fun outcome => outcome.form.IsSteady Fails)
    {instruction : Instruction} (isMember : instruction ∈ rule.logic.instructions)
    (isKind : instruction.kind = .applySoundRule) {reference : RuleRef}
    (isRule : instruction.rule = some reference) :
    (graph.frameWithin marker active pending language inventory).CallsOnlyAsFits
      (Inventories.Serving Kept language.shortName inventory) Fails reference.id where
  stored := allows.found _ _ _
  words := fun _ _ _ form steady => calls _ _ form steady fun _ _ => reaches_wholeWord
  sounds := by
    intro called isCalled isSegmental index form steady isThere
    refine calls _ _ form steady fun other isOther sound isSound => ?_
    cases isSound
    cases (found_eq_ok isCalled).symm.trans isOther
    rcases isThere with isInside | noSegment
    · by_cases sameLanguage : called.fromLanguage = rule.fromLanguage
      · exact .inl ⟨language, inventory, sameLanguage ▸ isSource, fun _ isKept => isKept.2, isInside⟩
      · exact .inr (abroad ⟨instruction, isMember, isKind, reference, called, isRule,
          isOther, isSegmental, sameLanguage⟩)
    · exact .inr noSegment

end

/-- Where all rules were read, what a rule fails with is about names, or about rules inside
themselves, or about a sound that a rule of another language has to do with. -/
theorem ensures_applyWithin (allows : AllowsMissingNames Fails)
    (recursive : ∀ name chain, Fails (.recursiveRule name chain))
    (areRead : ∀ rule ∈ graph.rules.values, rule.IsRead)
    (abroad : ∀ rule ∈ graph.rules.values, graph.CallsAbroad rule →
      ∀ index, Fails (.noSuchSound index))
    (endures : Inventories.Endures Kept) {active : List RuleRef} {pending : List Text} {rule : Rule}
    (isRead : rule.IsRead)
    (goesAbroad : graph.CallsAbroad rule → ∀ index, Fails (.noSuchSound index))
    {extent : Extent} {form : WordForm} (steady : form.IsSteady Fails)
    (reaches : graph.Reaches Kept Fails marker rule extent form) :
    (graph.applyWithin marker active pending rule extent form).EnsuresFrom Kept Fails
      fun outcome => outcome.form.IsSteady Fails := by
  induction active, pending, rule, extent, form using applyWithin.induct graph
    generalizing Kept with
  | case1 active pending rule extent form inductionHypothesis =>
      have isComplete := isRead.isComplete
      rw [applyWithin_eq]
      refine ensures_lookup (allows.found _ _ _) fun language isSource => ?_
      refine ensures_inventory endures fun inventory isServed => ?_
      have calls : ∀ pending id extent form, form.IsSteady Fails →
          (∀ called, graph.rules.get? id = some called → graph.Reaches
            (Inventories.Serving Kept language.shortName inventory) Fails marker
            called extent form) →
          (graph.callWithin marker (active ++ [rule.ref]) pending id extent form).EnsuresFrom
            (Inventories.Serving Kept language.shortName inventory) Fails
            fun outcome => outcome.form.IsSteady Fails := by
        intro pending id extent form steady reaches
        refine ensures_lookup (allows.found _ _ _) fun called isCalled => ?_
        have isStored := found_eq_ok isCalled
        have isMember := Table.mem_values_of_get? isStored
        refine ensures_ite (fun _ => ensures_throw (recursive _ _)) fun isInactive => ?_
        exact inductionHypothesis pending id extent form called isStored isInactive
          (endures.serving language.shortName inventory) (areRead called isMember)
          (abroad called isMember) steady (reaches called isStored)
      have onWords : ∀ pending id form, form.IsSteady Fails →
          (graph.callWithin marker (active ++ [rule.ref]) pending id .wholeWord form).EnsuresFrom
            (Inventories.Serving Kept language.shortName inventory) Fails
            fun outcome => outcome.form.IsSteady Fails := fun pending id form steady =>
        calls pending id .wholeWord form steady fun _ _ => reaches_wholeWord
      have stresses : (graph.frameWithin marker (active ++ [rule.ref]) pending language
          inventory).StressesOnly _ Fails := stressesOnly_within onWords
      refine ensures_adapt (allows.attributed rule.name) ?_
      refine ensures_lookup (allows.checkReferences_of_isComplete isComplete) fun _ _ => ?_
      cases extent with
      | wholeWord =>
          have resolves : rule.logic.Resolves _ Fails (graph.frameWithin marker
              (active ++ [rule.ref]) pending language inventory) :=
            allows.logic_resolves isComplete (onWords pending)
            fun instruction isMember reference isRule isKind =>
              callsOnlyAsFits_within allows isSource goesAbroad (calls pending)
                isMember isKind isRule
          exact Frame.ensures_runWhole stresses steady resolves
            fun form => allows.declareCategories _ rule form
      | oneSound index =>
          refine Frame.ensures_runSounds stresses steady (fun branch isBranch => ?_) ?_
          · refine allows.branch_resolvesAtSound fun predicate isAsked => ?_
            exact isComplete.predicates predicate
              (List.mem_flatMap.mpr ⟨branch, isBranch, isAsked⟩)
          · intro sound isSound
            cases List.mem_singleton.mp isSound
            exact reaches.isInside isSource isServed

theorem isRecordable_undefinedName (kind : NameKind) (reference : Option Text) (language : Text)
    (rule : Option Text) : (Error.undefinedName kind reference language rule).isRecordable = true := by
  cases kind <;> rfl

theorem isRecordable_attributedTo {failure : Error} (isRecordable : failure.isRecordable = true)
    (rule : Text) : (failure.attributedTo rule).isRecordable = true := by
  unfold Error.attributedTo
  split
  · exact isRecordable_undefinedName _ _ _ _
  · exact isRecordable

/-- Where all rules were read, a rule that is applied to a form gives an outcome or fails with
an error that says what is wrong.  A sound is missing at most where a sound rule is applied to
one sound by a rule of another language. -/
theorem apply_fails_recordably (areRead : ∀ rule ∈ graph.rules.values, rule.IsRead) {rule : Rule}
    (isRead : rule.IsRead) {form : WordForm} (isForward : form.CountsForward) (made : Inventories)
    {failure : Error} (failed : ((graph.apply rule form marker).on made).1 = .error failure) :
    failure.isRecordable = true ∨ (∃ index, failure = .noSuchSound index) ∧
      (graph.CallsAbroad rule ∨ ∃ caller ∈ graph.rules.values, graph.CallsAbroad caller) := by
  have allows : AllowsMissingNames fun failure => failure.isRecordable = true ∨
      (∃ index, failure = .noSuchSound index) ∧
        (graph.CallsAbroad rule ∨ ∃ caller ∈ graph.rules.values, graph.CallsAbroad caller) := by
    refine ⟨fun _ _ _ => .inl (isRecordable_undefinedName _ _ _ _), fun _ _ => .inl rfl,
      fun _ => .inl rfl, fun name failure => ?_⟩
    rintro (isRecordable | ⟨⟨index, rfl⟩, isAbroad⟩)
    · exact .inl (isRecordable_attributedTo isRecordable name)
    · exact .inr ⟨⟨index, rfl⟩, isAbroad⟩
  have ensures : (graph.apply rule form marker).EnsuresFrom Inventories.Any _ _ :=
    ensures_applyWithin allows (fun _ _ => .inl rfl) areRead
      (fun caller isMember isAbroad index => .inr ⟨⟨index, rfl⟩, .inr ⟨caller, isMember, isAbroad⟩⟩)
      Inventories.endures_any isRead (fun isAbroad index => .inr ⟨⟨index, rfl⟩, .inl isAbroad⟩)
      (fun stressed isStressed => .inl (isForward stressed isStressed)) reaches_wholeWord
  have met := ensures.ensures made
  rw [failed] at met
  exact met

def ruleOf (language : Text) (id : Int) (logic : Logic) : Rule where
  id := id
  name := language
  fromLanguage := language
  toLanguage := language
  logic := logic

/-- A rule for each of two languages, of which the second one alone has a sound that is
written with two letters. -/
def digraphAbroad (calling called : Logic) : Graph where
  languages := ⟨[("a", { name := "A", shortName := "a" }),
    ("b", { name := "B", shortName := "b", phonemes := [{ spelling := "xy" }] })]⟩
  rules := ⟨[(1, ruleOf "b" 1 called), (2, ruleOf "a" 2 calling)]⟩

def findsCalled (name : Text) : Option RuleRef :=
  if name = "b" then some { id := 1, name } else none

def missingSound? (result : Except Error Outcome) : Option Int :=
  match result with
  | .error (.noSuchSound index) => some index
  | _ => none

theorem missingSound?_eq_some {result : Except Error Outcome} {index : Int}
    (isMissing : missingSound? result = some index) : result = .error (.noSuchSound index) := by
  unfold missingSound? at isMissing
  split at isMissing
  · cases isMissing
    rfl
  · cases isMissing

/-- The second sound of a word is found in one language and is missing in the other. -/
theorem apply_fails_recordably_digraphAbroad :
    ∃ calling called failure,
      Logic.read findsCalled "- apply sound rule 'b' to last sound" = .ok calling ∧
      Logic.read (fun _ => none) "sound is not 'q':\n- sound disappears" = .ok called ∧
      (((digraphAbroad calling called).apply (ruleOf "a" 2 calling)
        { text := "xy", language := "a" } "-").on {}).1 = .error failure ∧
      failure.isRecordable = false ∧
      ((digraphAbroad calling called).CallsAbroad (ruleOf "a" 2 calling) ∨
        ∃ caller ∈ (digraphAbroad calling called).rules.values,
          (digraphAbroad calling called).CallsAbroad caller) := by
  have found : (do
      let calling ← (Logic.read findsCalled "- apply sound rule 'b' to last sound").toOption
      let called ← (Logic.read (fun _ => none) "sound is not 'q':\n- sound disappears").toOption
      missingSound? (((digraphAbroad calling called).apply (ruleOf "a" 2 calling)
        { text := "xy", language := "a" } "-").on {}).1) = some 1 := by
    decide +kernel
  obtain ⟨calling, isCalling, found⟩ := Option.bind_eq_some_iff.mp found
  obtain ⟨called, isCalled, found⟩ := Option.bind_eq_some_iff.mp found
  have readsCalling := Except.toOption_eq_some.mp isCalling
  have readsCalled := Except.toOption_eq_some.mp isCalled
  have failed := missingSound?_eq_some found
  have areRead : ∀ rule ∈ (digraphAbroad calling called).rules.values, rule.IsRead := by
    intro rule isMember
    rcases List.mem_pair.mp isMember with rfl | rfl
    · exact ⟨_, _, readsCalled⟩
    · exact ⟨_, _, readsCalling⟩
  have isForward : ({ text := "xy", language := "a" } : WordForm).CountsForward :=
    fun _ isNone => nomatch isNone
  refine ⟨calling, called, _, readsCalling, readsCalled, failed, rfl, ?_⟩
  rcases apply_fails_recordably areRead ⟨_, _, readsCalling⟩ isForward {} failed with
    isRecordable | ⟨-, isAbroad⟩
  · cases isRecordable
  · exact isAbroad

end Graph

end Diachrony
