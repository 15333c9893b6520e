import Diachrony.Proofs.Application.OneSound
import Diachrony.Proofs.Reversal.Candidates

/-!
# A changed sound is found again

A sound rule is undone on the text, without regard to segments: the new sound is exchanged for
the old one wherever it stands, and a sound that has disappeared is put in at every place.  One
of these texts is the one that the rule was applied to.  It is cut into the segments that it was
cut into before, the condition comes to the same at each of them, and so the rule makes the same
of it again.  No trial of another text fails, since what the rule refers to has been looked up
and no other rule is asked for the stress.
-/
namespace Diachrony

open Work

/-- An instruction has a sound become another text, or disappear. -/
inductive Instruction.ChangesSound : Instruction → Option Text → Prop
  | newSound {text : Text} (nonempty : text ≠ []) :
      ChangesSound { kind := .changeSound, argument := some text } (some text)
  | dropped : ChangesSound { kind := .dropSound } none

def Branch.AsksFor (branch : Branch) (sound : Text) : Prop :=
  ∃ pattern ∈ branch.condition.predicates.filterMap Predicate.soundPattern?,
    pattern.literal = some sound

namespace Predicate

variable {predicate : Predicate} {pattern : SoundPattern}

theorem soundPattern?_eq_some :
    predicate.soundPattern? = some pattern ↔
      predicate.test = .sound .here ∧ predicate.negated = false ∧
        predicate.pattern = some pattern := by
  simp [soundPattern?, and_assoc]

end Predicate

theorem Branch.AsksFor.isSegmental {branch : Branch} {sound : Text}
    (asksFor : branch.AsksFor sound) : branch.condition.isSegmental = true := by
  obtain ⟨pattern, isMember, -⟩ := asksFor
  obtain ⟨predicate, isPredicate, isPattern⟩ := List.mem_filterMap.mp isMember
  refine List.any_eq_true.mpr ⟨predicate, isPredicate, ?_⟩
  rw [(Predicate.soundPattern?_eq_some.mp isPattern).1]
  rfl

/-- A rule that was read has a single branch, and that one asks for a sound and has it become
another text, or disappear. -/
structure Rule.ChangesOneSound (rule : Rule) (branch : Branch) (sound : Text)
    (new : Option Text) : Prop where
  isRead : rule.IsRead
  isLogic : rule.logic = .branching [] [branch]
  asksFor : branch.AsksFor sound
  changes : ∃ instruction, branch.instructions = [instruction] ∧ instruction.ChangesSound new

namespace Rule.ChangesOneSound

variable {rule : Rule} {branch : Branch} {sound : Text} {new : Option Text}
  (changesOne : rule.ChangesOneSound branch sound new)

include changesOne

theorem isSegmental : rule.logic.isSegmental = true := by
  rw [changesOne.isLogic]
  exact List.any_eq_true.mpr
    ⟨branch, List.mem_singleton_self branch, changesOne.asksFor.isSegmental⟩

/-- What has a sound become something names no rule and no features. -/
theorem callsNone_noFeatures :
    rule.logic.ruleRefs = [] ∧ rule.logic.WritesNoFeatures := by
  obtain ⟨instruction, isOnly, changes⟩ := changesOne.changes
  have sameInstructions : rule.logic.instructions = [instruction] := by
    rw [changesOne.isLogic, Logic.instructions, Logic.branches, List.flatMap_singleton, isOnly]
    rfl
  unfold Logic.ruleRefs Logic.WritesNoFeatures
  rw [sameInstructions, List.forall_mem_singleton]
  have changesNone : ∀ change ∈ (none : Option SoundChange), change.WritesNoFeatures := by
    intro change isChange
    cases isChange
  cases changes with
  | newSound => exact ⟨rfl, changesNone⟩
  | dropped => exact ⟨rfl, changesNone⟩

theorem resolves {graph : Graph} {marker : Text} {source : Language} {inventory : Inventory}
    (isChecked : (graph.outerFrame marker source inventory).checkReferences rule = .ok ()) :
    rule.logic.Resolves (Inventories.Serve source inventory) (fun _ => False)
      (graph.frameWithin marker [rule.ref] [] source inventory) := by
  obtain ⟨callsNone, noFeatures⟩ := changesOne.callsNone_noFeatures
  exact Graph.resolves_of_check changesOne.isRead callsNone noFeatures isChecked

end Rule.ChangesOneSound

/-- A text in which one segment has become something else. -/
def Inventory.rewritten (inventory : Inventory) (text : Text) (index : Nat) (new : Option Text) :
    Text :=
  ((inventory.segments text).take index).flatMap Segment.text ++ new.getD [] ++
    ((inventory.segments text).drop (index + 1)).flatMap Segment.text

/-- A segment that becomes what it is leaves the text as it is. -/
theorem Inventory.rewritten_self {inventory : Inventory} (spellsOut : inventory.SpellsOut)
    {text sound : Text} {index : Nat}
    (isSound : (inventory.segments text)[index]?.map Segment.text = some sound) :
    inventory.rewritten text index (some sound) = text := by
  obtain ⟨segment, isSegment, rfl⟩ := Option.map_eq_some_iff.mp isSound
  calc
    inventory.rewritten text index (some segment.text)
    _ = (inventory.segments text).flatMap Segment.text := by
      conv_rhs => rw [eq_take_append_cons_drop isSegment]
      rw [List.flatMap_append, List.flatMap_cons, ← List.append_assoc]
      rfl
    _ = text := Inventory.flatMap_segments spellsOut text

theorem Inventories.AreOf.spellsOut_serve {languages : Table Text Language} {made : Inventories}
    (madeOwned : made.AreOf languages) (language : Language) :
    (serve made language).1.SpellsOut := by
  unfold serve
  split
  · rename_i inventory isMade
    obtain ⟨owner, -, rfl⟩ := madeOwned _ _ isMade
    exact Inventory.spellsOut_ofLanguage owner
  · exact Inventory.spellsOut_ofLanguage language

namespace Reversal

theorem mem_insertions (front piece back : Text) :
    front ++ piece ++ back ∈ insertions piece (front ++ back) := by
  refine List.mem_map.mpr ⟨front.length, List.mem_range.mpr ?_, ?_⟩
  · rw [List.length_append]
    omega
  · simp [Text.replaceAt]

theorem mem_exchanges {old : Text} (nonempty : old ≠ []) (front new back : Text) :
    front ++ new ++ back ∈ exchanges old new (front ++ old ++ back) := by
  have isLong := List.length_pos_iff.mpr nonempty
  refine List.mem_map.mpr ⟨front.length, List.mem_filter.mpr ⟨List.mem_range.mpr ?_, ?_⟩, ?_⟩
  · simp only [List.length_append]
    omega
  · exact Text.startsWith_iff.mpr ⟨back, by simp⟩
  · simp [Text.replaceAt]

/-- Among the texts before a changed sound is the one with the old sound in its place. -/
theorem mem_withOldSpelling {instruction : Instruction} {new : Option Text}
    (changes : instruction.ChangesSound new) {spellings : List Text} {old : Text}
    (isSpelling : old ∈ spellings) (front back : Text) :
    front ++ old ++ back ∈
      withOldSpelling spellings (front ++ new.getD [] ++ back) instruction := by
  cases changes with
  | @newSound text nonempty =>
      obtain ⟨char, rest, rfl⟩ := List.exists_cons_of_ne_nil nonempty
      refine List.mem_flatMap.mpr ⟨old, isSpelling, List.mem_cons_of_mem _ ?_⟩
      exact mem_exchanges nonempty front old back
  | dropped =>
      refine List.mem_flatMap.mpr ⟨old, isSpelling, ?_⟩
      simpa using mem_insertions front old back

variable {language : Language} {inventory : Inventory}

theorem ensures_spellingsOf {pattern : SoundPattern}
    (resolves : pattern.Resolves (fun _ => False) inventory) :
    (spellingsOf language pattern).EnsuresFrom (Inventories.Serve language inventory)
      (fun _ => False) fun spellings =>
        ∀ text, pattern.literal = some text → text ∈ spellings := by
  unfold spellingsOf
  cases isLiteral : pattern.literal with
  | some text =>
      refine ensures_pure fun other same => ?_
      cases same
      exact List.mem_singleton_self text
  | none =>
      have fails : (spellingsInClass language pattern).FailsOnlyFrom
          (Inventories.Serve language inventory) fun _ => False := by
        refine ensures_bind ensures_served fun served same => ?_
        subst same
        refine ensures_lookup (resolves isLiteral) fun terms _ => ?_
        refine fails_filterM fun spelling _ => ensures_ite (fun _ => ?_) fun _ => fails_pure _
        exact Segmentation.fails_satisfiesAll (fails_pure _) 0 terms
      exact fails.mono fun _ _ _ isText => nomatch isText

theorem ensures_spellingsOfAll {patterns : List SoundPattern}
    (resolve : ∀ pattern ∈ patterns, pattern.Resolves (fun _ => False) inventory) :
    (spellingsOfAll language patterns).EnsuresFrom (Inventories.Serve language inventory)
      (fun _ => False) fun spellings =>
        ∀ pattern ∈ patterns, ∀ text, pattern.literal = some text → text ∈ spellings := by
  refine ensures_bind (ensures_mapM_each fun pattern isMember =>
    ensures_spellingsOf (resolve pattern isMember)) fun found areFound => ensures_pure ?_
  intro pattern isMember text isText
  obtain ⟨spellings, isFound, areSpellings⟩ := areFound pattern isMember
  exact Text.mem_sortedSet.mpr
    (List.mem_flatten.mpr ⟨spellings, isFound, areSpellings text isText⟩)

/-- A branch that has changed one sound is undone to a text with the old sound in its place, if
it asks for that sound. -/
theorem ensures_beforeBranch {branch : Branch} {instruction : Instruction} {new : Option Text}
    {old : Text} (isOnly : branch.instructions = [instruction])
    (changes : instruction.ChangesSound new) (asksFor : branch.AsksFor old)
    (resolve : ∀ predicate ∈ branch.condition.predicates, ∀ pattern,
      predicate.soundPattern? = some pattern → pattern.Resolves (fun _ => False) inventory)
    (text : Text) (index : Nat) :
    (beforeBranch language (inventory.rewritten text index new) branch).EnsuresFrom
      (Inventories.Serve language inventory) (fun _ => False)
      (inventory.rewritten text index (some old) ∈ ·) := by
  obtain ⟨asked, isAsked, isLiteral⟩ := asksFor
  refine ensures_bind (ensures_spellingsOfAll fun pattern isMember => ?_)
    fun spellings areSpellings => ensures_pure ?_
  · obtain ⟨predicate, isPredicate, isPattern⟩ := List.mem_filterMap.mp isMember
    exact resolve predicate isPredicate pattern isPattern
  · rw [isOnly, List.flatMap_singleton]
    exact mem_withOldSpelling changes (areSpellings asked isAsked old isLiteral) _ _

/-- A rule that has changed one sound is undone to a text with the old sound in its place. -/
theorem ensures_beforeRule {graph : Graph} {marker : Text} {rule : Rule} {branch : Branch}
    {sound : Text} {new : Option Text} (changesOne : rule.ChangesOneSound branch sound new)
    (isChecked : (graph.outerFrame marker language inventory).checkReferences rule = .ok ())
    (text : Text) (index : Nat) :
    (beforeRule graph language [] rule (inventory.rewritten text index new)).EnsuresFrom
      (Inventories.Serve language inventory) (fun _ => False)
      (inventory.rewritten text index (some sound) ∈ ·) := by
  obtain ⟨instruction, isOnly, changes⟩ := changesOne.changes
  have isSegmental := changesOne.isSegmental
  have areRead := changesOne.isRead.isComplete.predicates
  have areChecked := Except.forM_eq_ok.mp (Except.check_eq_ok.mp isChecked).1
  rw [beforeRule]
  unfold beforeLogic
  rw [changesOne.isLogic] at isSegmental areRead areChecked ⊢
  dsimp only
  rw [if_pos isSegmental]
  have undoes : ∀ other ∈ [branch],
      (beforeBranch language (inventory.rewritten text index new) other).EnsuresFrom
        (Inventories.Serve language inventory) (fun _ => False)
        (inventory.rewritten text index (some sound) ∈ ·) := by
    refine List.forall_mem_singleton.mpr ?_
    refine ensures_beforeBranch isOnly changes changesOne.asksFor ?_ text index
    intro predicate isMember pattern isPattern
    have isPredicate : predicate ∈ Logic.predicates (.branching [] [branch]) :=
      List.mem_flatMap.mpr ⟨branch, List.mem_singleton_self branch, isMember⟩
    exact Predicate.pattern_resolves (areRead predicate isPredicate)
      (areChecked predicate isPredicate) (Predicate.soundPattern?_eq_some.mp isPattern).2.2
  refine ensures_bind (ensures_mapM_each undoes) fun found areFound => ensures_pure ?_
  obtain ⟨texts, isFound, isMember⟩ := areFound branch (List.mem_singleton_self branch)
  refine Text.mem_sortedSet.mpr (Text.mem_sortedSet.mpr (List.mem_cons_of_mem _ ?_))
  exact List.mem_flatten.mpr ⟨texts, isFound, isMember⟩

end Reversal

theorem WordForm.isSteady_of_unstressed {Fails : Error → Prop} {form : WordForm}
    (isUnstressed : form.stressedIndex = none) : form.IsSteady Fails := by
  intro stressed isStressed
  cases isUnstressed.symm.trans isStressed

namespace Frame

variable {frame other : Frame} {form otherForm : WordForm} {word otherWord : Segmentation}
  {index : Nat}

/-- What a condition comes to depends on the segments and the classes, and on the language. -/
theorem decides_iff (sameLanguage : other.language = frame.language)
    (sameClasses : otherForm.classes = form.classes)
    (wordsAlike : Segmentation.Alike Inventories.AnyTwo word otherWord) (condition : Condition)
    (held : Bool) :
    other.Decides otherWord otherForm index condition held ↔
      frame.Decides word form index condition held := by
  have alike : Question.Alike Inventories.AnyTwo { form, word, index := some index }
      { form := otherForm, word := otherWord, index := some index } :=
    ⟨otherForm, otherWord, rfl, sameClasses, wordsAlike⟩
  have agreed := Question.agree_satisfies sameLanguage alike condition
  unfold Decides Work.result
  rw [(agreed {} {} trivial).1.eq]

/-- Where no rule says what the stress is, a form without stress is seen as its text is cut. -/
theorem alike_wordSeen (noStressRule : frame.language.stressRule = none)
    (isBare : bareText frame.marker form.text = form.text)
    (isUnstressed : form.stressedIndex = none) (made : Inventories) :
    Segmentation.Alike Inventories.AnyTwo (.unstressed frame.inventory form.text)
      (frame.wordSeen made form) := by
  have noStress : frame.stressedIndex form = pure none := by
    unfold stressedIndex
    rw [isUnstressed, noStressRule]
  unfold wordSeen
  rw [isBare, noStress]
  exact ⟨_, rfl, fun _ _ _ => ⟨.ok rfl, trivial⟩⟩

/-- What the one instruction makes of a sound does not depend on the sound. -/
theorem MakesAll.eq_of_changesSound {segment : Segment} {current last new : Option Text}
    {instruction : Instruction} (makes : frame.MakesAll segment current [instruction] last)
    (changes : instruction.ChangesSound new) : last = new := by
  cases makes with
  | cons first others =>
      cases others
      cases changes with
      | newSound =>
          cases first with
          | newSound => rfl
          | dropped isKind => cases isKind
          | exchanged exchanges => cases exchanges.1
          | unexchanged exchanges => cases exchanges.1
          | aboutWords isNew => exact absurd rfl isNew
      | dropped =>
          cases first with
          | newSound isKind => cases isKind
          | dropped => rfl
          | exchanged exchanges => cases exchanges.1
          | unexchanged exchanges => cases exchanges.1
          | aboutWords isNew isDrop => exact absurd rfl isDrop

/-- A condition holds at one segment of the text of a form, and at no other one. -/
structure HoldsOnlyAt (frame : Frame) (form : WordForm) (condition : Condition) (index : Nat) :
    Prop where
  isInside : index < (frame.inventory.segments form.text).length
  isOnly : ∀ other < (frame.inventory.segments form.text).length,
    frame.Decides (.unstressed frame.inventory form.text) form other condition true ↔
      other = index

theorem HoldsOnlyAt.of_same {condition : Condition}
    (holdsOnly : frame.HoldsOnlyAt form condition index)
    (sameLanguage : other.language = frame.language)
    (sameInventory : other.inventory = frame.inventory) (sameText : otherForm.text = form.text)
    (sameClasses : otherForm.classes = form.classes) :
    other.HoldsOnlyAt otherForm condition index := by
  constructor
  · rw [sameInventory, sameText]
    exact holdsOnly.isInside
  · rw [sameInventory, sameText]
    intro another isInside
    rw [decides_iff sameLanguage sameClasses (Segmentation.alike_unstressed _ _ _)]
    exact holdsOnly.isOnly another isInside

section

variable {branch : Branch} {instruction : Instruction} {new : Option Text}
  (isInstruction : branch.instructions = [instruction]) (changes : instruction.ChangesSound new)
  (noStressRule : frame.language.stressRule = none)
  (isBare : bareText frame.marker form.text = form.text)
  (isUnstressed : form.stressedIndex = none)
  (holdsOnly : frame.HoldsOnlyAt form branch.condition index)

include isInstruction changes noStressRule isBare isUnstressed holdsOnly

/-- A branch about one sound only puts what its instruction makes of that sound in its place. -/
theorem text_of_runSounds {made : Inventories} {outcome : Outcome}
    (gave : ((frame.runSounds [branch] form none).on made).1 = .ok outcome) :
    outcome.applied = true ∧ outcome.form.text = frame.inventory.rewritten form.text index new := by
  have wordsAlike := alike_wordSeen noStressRule isBare isUnstressed made
  have sameSegments : (frame.wordSeen made form).segments = frame.inventory.segments form.text := by
    change frame.inventory.segments (bareText frame.marker form.text) = _
    rw [isBare]
  have sameLength :
      (frame.wordSeen made form).length = (frame.inventory.segments form.text).length :=
    congrArg List.length sameSegments
  have isInside : index < (frame.wordSeen made form).length := sameLength ▸ holdsOnly.isInside
  have isOnly : ∀ other < (frame.wordSeen made form).length,
      (∃ asked ∈ [branch],
        frame.Decides (frame.wordSeen made form) form other asked.condition true) ↔
          other = index := by
    intro other isOther
    simp only [List.mem_singleton, exists_eq_left]
    exact (decides_iff rfl rfl wordsAlike branch.condition true).trans
      (holdsOnly.isOnly other (sameLength ▸ isOther))
  obtain ⟨turn, isApplied, rewrites⟩ :=
    rewritesAt_of_runSounds (runSounds_single isInside isOnly gave)
  have isTurned : turn.isSome = true := rewrites.holds.mpr ((isOnly index isInside).mpr rfl)
  obtain ⟨result, rfl⟩ := Option.isSome_iff_exists.mp isTurned
  have isResult : result = new := by
    cases rewrites.turns _ (List.getElem?_eq_getElem isInside) with
    | taken holds makes => exact (isInstruction ▸ makes).eq_of_changesSound changes
    | passed fails later => cases later
  obtain ⟨stressed, -, isForm⟩ := rewrites.changed result rfl
  refine ⟨isApplied, ?_⟩
  rw [isForm, WordForm.withText, withMarkOf_of_bare isBare,
    Segmentation.flatten_resultsAt isInside, sameSegments, isResult]
  rfl

/-- A sound rule with such a branch never fails, and does that. -/
theorem ensures_runLogic_oneSound {Kept : Inventories → Prop} {logic : Logic}
    (isLogic : logic = .branching [] [branch]) (isSegmental : logic.isSegmental = true)
    (resolves : logic.Resolves Kept (fun _ => False) frame) :
    (frame.runLogic logic form).EnsuresFrom Kept (fun _ => False) fun ran =>
      ran.applied = true ∧ ran.form.classes = form.classes ∧
        ran.form.text = frame.inventory.rewritten form.text index new := by
  have never := ensures_runLogic (stressesOnly_of_stressRule noStressRule)
    (WordForm.isSteady_of_unstressed isUnstressed) resolves
  refine never.failsOnly.gave.mono ?_
  rintro ran ⟨made, -, gave⟩
  rw [runLogic_sounds isLogic isSegmental] at gave
  obtain ⟨changed, _, isChanged, gave⟩ := on_bind_eq_ok.mp (Prod.ext gave rfl)
  have isRun := congrArg Prod.fst isChanged
  obtain ⟨isApplied, isText⟩ :=
    text_of_runSounds isInstruction changes noStressRule isBare isUnstressed holdsOnly isRun
  rw [isApplied] at gave
  cases gave
  refine ⟨isApplied, ?_, isText⟩
  obtain rfl | ⟨text, stressedIndex, rfl⟩ :=
    (runSounds_changes [branch] form none).of_on trivial isRun
  · rfl
  · rfl

end

end Frame

namespace Graph

variable {graph : Graph} {marker : Text} {rule : Rule} {source : Language}
  {inventory : Inventory} {branch : Branch} {sound : Text} {new : Option Text} {index : Nat}

section

variable (changesOne : rule.ChangesOneSound branch sound new)
  (isSource : graph.language rule.fromLanguage = .ok source)
  (noStressRule : source.stressRule = none)
  (isChecked : (graph.outerFrame marker source inventory).checkReferences rule = .ok ())
  {form : WordForm} (isUnstressed : form.stressedIndex = none)

include changesOne isSource noStressRule isChecked isUnstressed

/-- A rule about one sound fails on no form without stress, if what it refers to is there. -/
theorem never_apply_oneSound :
    (graph.apply rule form marker).FailsOnlyFrom (Inventories.Serve source inventory)
      fun _ => False := by
  have runs := Frame.ensures_runLogic (Frame.stressesOnly_of_stressRule noStressRule)
    (WordForm.isSteady_of_unstressed isUnstressed) (changesOne.resolves isChecked)
  exact (ensures_apply_of_runLogic isSource isChecked runs).failsOnly

/-- A rule about one sound puts what becomes of it in its place, and applies. -/
theorem ensures_apply_oneSound (isBare : bareText marker form.text = form.text)
    (holdsOnly : (graph.outerFrame marker source inventory).HoldsOnlyAt form branch.condition
      index) :
    (graph.apply rule form marker).EnsuresFrom (Inventories.Serve source inventory)
      (fun _ => False) fun outcome =>
        outcome.applied = true ∧ outcome.form.classes = form.classes ∧
          outcome.form.text = inventory.rewritten form.text index new := by
  obtain ⟨instruction, isInstruction, changes⟩ := changesOne.changes
  let frame := graph.frameWithin marker [rule.ref] [] source inventory
  have holdsOnly : frame.HoldsOnlyAt form branch.condition index :=
    holdsOnly.of_same rfl rfl rfl rfl
  have runs := Frame.ensures_runLogic_oneSound isInstruction changes noStressRule isBare
    isUnstressed holdsOnly changesOne.isLogic changesOne.isSegmental (changesOne.resolves isChecked)
  refine (ensures_apply_of_runLogic isSource isChecked runs).mono ?_
  rintro outcome ⟨ran, ⟨isApplied, sameClasses, isText⟩, comes⟩
  exact ⟨comes.applied.trans isApplied, (comes.classes isApplied).trans sameClasses,
    (comes.text isApplied).trans isText⟩

end

/-- A rule that has changed a single sound is undone.  If a rule asks for a sound and has it
become a text or disappear, and if its condition holds at one sound of a form only, the search
for forms before what the rule has made of it finds a form with the text of the form, as long as
as many forms may be found as there are texts to try.  It does not matter what else the condition
asks about, or where else the new sound stands.  No rule may say what the stress is, and the form
has no stress of its own and no mark at its end.  The search may go on from any inventories with
which the same one serves for the language, such as those that the rule leaves. -/
theorem reverse_oneSound (graph : Graph) (marker : Text)
    (changesOne : rule.ChangesOneSound branch sound new)
    (isSource : graph.language rule.fromLanguage = .ok source)
    (noStressRule : source.stressRule = none)
    {form : WordForm} (isBare : bareText marker form.text = form.text)
    (isUnstressed : form.stressedIndex = none)
    {made between : Inventories} (madeOwned : made.AreOf graph.languages) {outcome : Outcome}
    (gave : (graph.apply rule form marker).on made = (.ok outcome, between))
    (holdsOnly : (graph.outerFrame marker source (serve made source).1).HoldsOnlyAt form
      branch.condition index)
    (isSound : ((serve made source).1.segments form.text)[index]?.map Segment.text =
      some sound) :
    (serve between source).1 = (serve made source).1 ∧
    ∀ later, (serve later source).1 = (serve made source).1 →
      ∃ texts left,
        (Reversal.beforeRule graph source [] rule outcome.form.text).on later =
          (.ok texts, left) ∧
        ∀ limit, (texts.length : Int) ≤ limit →
          ∃ earlier, ((graph.reverse rule outcome.form limit marker).on later).1 = .ok earlier ∧
            ∃ before ∈ earlier, before.text = form.text := by
  obtain ⟨_, isFound, isChecked⟩ := exists_source_of_apply (congrArg Prod.fst gave)
  cases isFound.symm.trans isSource
  obtain ⟨target, isTarget⟩ := exists_target_of_check isChecked
  have changed := ensures_apply_oneSound changesOne isSource noStressRule isChecked isUnstressed
    isBare holdsOnly
  have serves : Inventories.Serve source (serve made source).1 made := rfl
  obtain ⟨-, sameClasses, isText⟩ := changed.of_on serves (congrArg Prod.fst gave)
  have stillServes := (changed made serves).2
  rw [gave] at stillServes
  refine ⟨stillServes, fun later laterServes => ?_⟩
  have undoes := Reversal.ensures_beforeRule changesOne isChecked form.text index
  rw [← isText, Inventory.rewritten_self (madeOwned.spellsOut_serve source) isSound] at undoes
  obtain ⟨texts, left, undone, isAmong, leftServes⟩ := undoes.exists_value laterServes
  refine ⟨texts, left, undone, fun limit areFew => ?_⟩
  have applies : ∀ text ∈ texts,
      (graph.apply rule (Reversal.candidate rule outcome.form text) marker).EnsuresFrom
        (Inventories.Serve source (serve made source).1) (fun _ => False) fun again =>
          text = form.text → again.applied = true ∧ again.form.text = outcome.form.text := by
    intro text _
    by_cases isSame : text = form.text
    · subst isSame
      have isBareAgain : bareText marker (Reversal.candidate rule outcome.form form.text).text =
          (Reversal.candidate rule outcome.form form.text).text := isBare
      refine (ensures_apply_oneSound changesOne isSource noStressRule isChecked rfl isBareAgain
        (holdsOnly.of_same rfl rfl rfl sameClasses)).mono fun again does _ => ?_
      exact ⟨does.1, does.2.2.trans isText.symm⟩
    · refine (never_apply_oneSound changesOne isSource noStressRule isChecked rfl).mono ?_
      exact fun _ _ same => absurd same isSame
  obtain ⟨earlier, found, -, isFound⟩ := exists_reverse (· = form.text) isSource isTarget undone
    leftServes areFew applies
  obtain ⟨before, isBefore, sameText⟩ := List.mem_map.mp (isFound form.text isAmong rfl)
  exact ⟨earlier, found, before, isBefore, sameText⟩

end Graph

/-- The two tests and the instructions of a logic, if it has one branch in which both tests have
to hold. -/
def Logic.bothTests? : Logic → Option (Predicate × Predicate × List Instruction)
  | .branching []
      [{ condition := .all [.holds first, .holds second], instructions, comment := none }] =>
      some (first, second, instructions)
  | _ => none

theorem Logic.bothTests?_eq_some {logic : Logic} {first second : Predicate}
    {instructions : List Instruction}
    (areTests : logic.bothTests? = some (first, second, instructions)) :
    logic = .branching []
      [{ condition := .all [.holds first, .holds second], instructions }] := by
  unfold bothTests? at areTests
  split at areTests
  · cases areTests
    rfl
  · cases areTests

namespace Graph

def openSound : Predicate := { test := .sound .here, pattern := some { literal := some "a" } }

def behindStop : Predicate := { test := .sound .previous, pattern := some { literal := some "c" } }

def twiceOpen : WordForm := { text := "bacato", language := "a" }

/-- Only the second "a" of "bacato" stands behind "c".  It is found again in "bacoto", where the
last sound might have been an "a" as well. -/
theorem reverse_oneSound_bacato :
    ∃ logic, Logic.read (fun _ => none)
        "sound is 'a' and previous sound is 'c':\n- new sound is 'o'" = .ok logic ∧
      ∃ outcome, (((ofLanguage (spokenLanguage [])).apply (innerRule logic) twiceOpen "-").on
          {}).1 = .ok outcome ∧
        outcome.form.text = ("bacoto" : Text) ∧
        ∃ texts left, (Reversal.beforeRule (ofLanguage (spokenLanguage [])) (spokenLanguage []) []
            (innerRule logic) outcome.form.text).on {} = (.ok texts, left) ∧
          ∀ limit, (texts.length : Int) ≤ limit →
            ∃ earlier, (((ofLanguage (spokenLanguage [])).reverse (innerRule logic) outcome.form
                limit "-").on {}).1 = .ok earlier ∧
              ∃ before ∈ earlier, before.text = ("bacato" : Text) := by
  have found : (do
      let logic ← (Logic.read (fun _ => none)
        "sound is 'a' and previous sound is 'c':\n- new sound is 'o'").toOption
      let tests ← logic.bothTests?
      let outcome ← (((ofLanguage (spokenLanguage [])).apply (innerRule logic) twiceOpen "-").on
        {}).1.toOption
      return (tests, outcome.form.text)) =
        some ((openSound, behindStop, [{ kind := .changeSound, argument := some "o" }]),
          ("bacoto" : Text)) := by
    decide +kernel
  obtain ⟨logic, isLogic, found⟩ := Option.bind_eq_some_iff.mp found
  obtain ⟨tests, areTests, found⟩ := Option.bind_eq_some_iff.mp found
  obtain ⟨outcome, isOutcome, found⟩ := Option.bind_eq_some_iff.mp found
  obtain ⟨isBoth, isText⟩ := Prod.mk.inj (Option.some.inj found)
  rw [isBoth] at areTests
  have readsLogic := Except.toOption_eq_some.mp isLogic
  obtain rfl := Logic.bothTests?_eq_some areTests
  have gave := Except.toOption_eq_some.mp isOutcome
  have changesOne : (innerRule _).ChangesOneSound _ "a" (some "o") :=
    { isRead := ⟨_, _, readsLogic⟩
      isLogic := rfl
      asksFor := ⟨{ literal := some "a" }, by decide, rfl⟩
      changes := ⟨_, rfl, .newSound (by decide)⟩ }
  have holdsOnly : ((ofLanguage (spokenLanguage [])).outerFrame "-" (spokenLanguage [])
      (serve {} (spokenLanguage [])).1).HoldsOnlyAt twiceOpen
        (.all [.holds openSound, .holds behindStop]) 3 := by
    refine ⟨by decide +kernel, ?_⟩
    simp only [Frame.Decides, ← Except.toOption_eq_some]
    decide +kernel
  obtain ⟨-, finds⟩ := reverse_oneSound (ofLanguage (spokenLanguage [])) "-" changesOne rfl rfl
    (by decide) rfl (Inventories.areOf_empty _) (Prod.ext gave rfl) holdsOnly (by decide +kernel)
  exact ⟨_, readsLogic, outcome, gave, isText, finds {} rfl⟩

end Graph

end Diachrony
