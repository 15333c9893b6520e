import Diachrony.Proofs.Application.Persistence
import Diachrony.Proofs.Application.Stress

/-!
# Sound rules at one sound

An instruction may have a sound rule applied at one sound only, the n-th of a class.  That sound
is sought in the word that the calling rule sees.  The sound rule is then asked about no other
sound: what becomes of that one is what would become of it anyway, and all others stay.  So
where no branch is about any other sound, the rule makes of the form what it makes of it as a
whole.
-/
namespace Diachrony

open Work

namespace Segmentation

variable {word : Segmentation} {index : Nat}

/-- What the segments of a word come to if one of them becomes something and the others stay as
they are. -/
def resultsAt (word : Segmentation) (index : Nat) (new : Option Text) : List (Option Text) :=
  word.segments.zipIdx.map fun (segment, other) =>
    if other = index then new else some segment.text

theorem resultsWith_single (word : Segmentation) (index : Nat) (new : Option Text) :
    word.resultsWith [(index, new)] = word.resultsAt index new := by
  refine List.map_congr_left fun ⟨segment, other⟩ _ => ?_
  by_cases same : other = index
  · simp [same]
  · simp [List.lookup_cons, same, beq_eq_false_iff_ne.mpr same]

theorem resultsAt_eq (isInside : index < word.length) (new : Option Text) :
    word.resultsAt index new =
      ((word.segments.take index).map fun segment => some segment.text) ++
        new :: (word.segments.drop (index + 1)).map fun segment => some segment.text := by
  have isLong :
      ((word.segments.take index).map fun segment => some segment.text).length = index := by
    rw [List.length_map, List.length_take_of_le (Nat.le_of_lt isInside)]
  refine List.ext_getElem? fun other => ?_
  have isResult : (word.resultsAt index new)[other]? =
      word.segments[other]?.map fun segment =>
        if other = index then new else some segment.text := by
    rw [resultsAt, List.getElem?_map, List.getElem?_zipIdx, Option.map_map, Nat.zero_add]
    rfl
  rw [isResult]
  obtain isBefore | rfl | isBehind := Nat.lt_trichotomy other index
  · rw [List.getElem?_append_left (isLong.symm ▸ isBefore), List.getElem?_map,
      List.getElem?_take_of_lt isBefore]
    simp [Nat.ne_of_lt isBefore]
  · rw [List.getElem?_append_right (Nat.le_of_eq isLong), isLong, Nat.sub_self]
    simp [List.getElem?_eq_getElem isInside]
  · obtain ⟨further, rfl⟩ := Nat.exists_eq_add_of_lt isBehind
    rw [List.getElem?_append_right (isLong.le.trans (by omega)), isLong,
      show index + further + 1 - index = further + 1 by omega, List.getElem?_cons_succ,
      List.getElem?_map, List.getElem?_drop, Nat.add_right_comm index further 1]
    have isAnother : index + 1 + further ≠ index := by omega
    simp [isAnother]

/-- The text of the word is put together of what stands in front of the sound, of what the
sound becomes, and of what stands behind it. -/
theorem flatten_resultsAt (isInside : index < word.length) (new : Option Text) :
    ((word.resultsAt index new).filterMap id).flatten =
      (word.segments.take index).flatMap Segment.text ++ new.getD [] ++
        (word.segments.drop (index + 1)).flatMap Segment.text := by
  have areTexts (segments : List Segment) :
      ((segments.map fun segment => some segment.text).filterMap id).flatten =
        segments.flatMap Segment.text := by
    induction segments with
    | nil => rfl
    | cons segment segments inductionHypothesis =>
        rw [List.map_cons, List.filterMap_cons_some (f := id) (b := segment.text) rfl,
          List.flatten_cons, inductionHypothesis, List.flatMap_cons]
  rw [resultsAt_eq isInside, List.filterMap_append, List.flatten_append, areTexts,
    List.append_assoc]
  cases new with
  | none => rw [List.filterMap_cons_none rfl, areTexts, Option.getD_none, List.nil_append]
  | some text =>
      rw [List.filterMap_cons_some (f := id) (b := text) rfl, List.flatten_cons, areTexts,
        Option.getD_some]

end Segmentation

namespace Frame

variable {frame : Frame} {word : Segmentation} {form : WordForm} {index : Nat}
  {branches : List Branch}

/-- A segment outside of the word is asked about as well as one inside of it, and something is
made of it where the condition of some branch holds. -/
theorem isSome_turn_iff (isSettled : word.IsSettled) {turn : Option (Option Text)}
    (gave : (frame.segmentOutcome? word form branches index).result = .ok turn) :
    turn.isSome = true ↔
      ∃ branch ∈ branches, frame.Decides word form index branch.condition true := by
  induction branches with
  | nil =>
      cases gave
      simp
  | cons branch branches inductionHypothesis =>
      have changes : (branch.instructions.foldlM (frame.changeSegment word index)
          (word.segmentText? index)).IsSettled := settled_changeSegments isSettled _ _
      rw [segmentOutcome?_cons, IsSettled.result_bind_eq_ok
        (settled_satisfies isSettled branch.condition) fun held =>
          agree_ite (fun _ => agree_bind_eq changes fun _ => agree_pure rfl) fun _ =>
            settled_segmentOutcome? isSettled branches] at gave
      obtain ⟨held, decides, gave⟩ := gave
      cases held with
      | true =>
          obtain ⟨result, -, ⟨rfl⟩⟩ :=
            (IsSettled.result_bind_eq_ok changes fun _ => agree_pure rfl).mp gave
          exact iff_of_true rfl ⟨branch, List.mem_cons_self, decides⟩
      | false =>
          rw [inductionHypothesis gave, List.exists_mem_cons_iff, or_iff_right]
          intro holds
          cases decides.symm.trans holds

/-- If no branch is about any other segment, a visit to one segment finds what a visit to all of
them finds. -/
theorem segmentOutcomes_single (isSettled : word.IsSettled) (isInside : index < word.length)
    (isOnly : ∀ other < word.length,
      (∃ branch ∈ branches, frame.Decides word form other branch.condition true) ↔
        other = index)
    {outcomes : List (Nat × Option Text)}
    (gave : (frame.segmentOutcomes word form branches (List.range word.length)).result =
      .ok outcomes) :
    (frame.segmentOutcomes word form branches [index]).result = .ok outcomes := by
  choose! turned turns using exists_turn_of_segmentOutcomes isSettled gave
  have areNone : ∀ other < word.length, other ≠ index → turned other = none := by
    intro other isOther isAnother
    have turn := isSome_turn_iff isSettled (turns other (List.mem_range.mpr isOther))
    rw [isOnly other isOther] at turn
    simpa [isAnother] using turn
  obtain ⟨front, back, isSplit⟩ := List.append_of_mem (List.mem_range.mpr isInside)
  have distinct := List.perm_middle.nodup_iff.mp (isSplit ▸ List.nodup_range)
  have isApart := (List.nodup_cons.mp distinct).1
  have noOther : ∀ others : List Nat, others ⊆ front ++ back →
      others.filterMap (fun other => (turned other).map (Prod.mk other)) = [] := by
    intro others areOthers
    refine List.filterMap_eq_nil_iff.mpr fun other isOther => ?_
    have isMember := areOthers isOther
    have isAnother : other ≠ index := fun same => isApart (same ▸ isMember)
    have isInside : other < word.length := by
      rw [← List.mem_range, isSplit]
      simp only [List.mem_append, List.mem_cons] at isMember ⊢
      tauto
    rw [areNone other isInside isAnother]
    rfl
  rw [segmentOutcomes_of_turned isSettled turns, isSplit, List.filterMap_append,
    noOther front (List.subset_append_left _ _), List.nil_append, ← List.singleton_append,
    List.filterMap_append, noOther back (List.subset_append_right _ _), List.append_nil] at gave
  rw [← gave]
  exact segmentOutcomes_of_turned isSettled
    (List.forall_mem_singleton.mpr (turns index (List.mem_range.mpr isInside)))

/-- What a sound rule gives for a form when it is asked about one segment only.  The first
branch that holds there says what the segment turns into, all others stay as they are, and the
form stays as it is where no branch holds. -/
structure RewritesAt (frame : Frame) (word : Segmentation) (form : WordForm)
    (branches : List Branch) (index : Nat) (turn : Option (Option Text)) (result : WordForm) :
    Prop where
  turns : ∀ segment, word.segments[index]? = some segment →
    frame.Turns word form index segment branches turn
  holds : turn.isSome = true ↔
    ∃ branch ∈ branches, frame.Decides word form index branch.condition true
  unchanged : turn = none → result = form
  changed : ∀ new, turn = some new →
    ∃ stressed, form.stressAfter (word.resultsAt index new) = .ok stressed ∧
      result = form.withText
        (frame.withMarkOf form ((word.resultsAt index new).filterMap id).flatten) stressed

variable {made : Inventories} {outcome : Outcome}

theorem rewritesAt_of_runSounds
    (gave : ((frame.runSounds branches form (some [index])).on made).1 = .ok outcome) :
    ∃ turn, outcome.applied = turn.isSome ∧
      frame.RewritesAt (frame.wordSeen made form) form branches index turn outcome.form := by
  have isSettled := isSettled_wordSeen frame made form
  obtain ⟨outcomes, areOutcomes, isFinished⟩ := runSounds_eq_ok.mp gave
  obtain ⟨turn, isTurn, _, ⟨rfl⟩, rfl⟩ := (segmentOutcomes_cons_eq_ok isSettled).mp areOutcomes
  refine ⟨turn, ?_, fun segment isSegment => (segmentOutcome?_eq_ok isSettled isSegment).mp isTurn,
    isSome_turn_iff isSettled isTurn, ?_, ?_⟩
  · cases turn with
    | none =>
        cases isFinished
        rfl
    | some new =>
        obtain ⟨_, -, rfl⟩ := Except.map_eq_ok.mp isFinished
        rfl
  · rintro rfl
    cases isFinished
    rfl
  · rintro new rfl
    obtain ⟨stressed, isStress, rfl⟩ := Except.map_eq_ok.mp isFinished
    change form.stressAfter ((frame.wordSeen made form).resultsWith [(index, new)]) = _ at isStress
    refine ⟨stressed, ?_, ?_⟩
    · rwa [Segmentation.resultsWith_single] at isStress
    · rw [← Segmentation.resultsWith_single]
      rfl

/-- If no branch is about any other segment, a run at one segment gives what a run on the whole
word gives. -/
theorem runSounds_single (isInside : index < (frame.wordSeen made form).length)
    (isOnly : ∀ other < (frame.wordSeen made form).length,
      (∃ branch ∈ branches,
        frame.Decides (frame.wordSeen made form) form other branch.condition true) ↔
          other = index)
    (gave : ((frame.runSounds branches form none).on made).1 = .ok outcome) :
    ((frame.runSounds branches form (some [index])).on made).1 = .ok outcome := by
  obtain ⟨outcomes, areOutcomes, isFinished⟩ := runSounds_eq_ok.mp gave
  refine runSounds_eq_ok.mpr ⟨outcomes, ?_, isFinished⟩
  exact segmentOutcomes_single (isSettled_wordSeen frame made form) isInside isOnly areOutcomes

/-- What a run gives, its rule gives on the word or on the sound that it is called on. -/
theorem run_eq_ok {rule : Rule} {extent : Extent}
    (gave : ((frame.run rule extent form).on made).1 = .ok outcome) :
    (match extent with
      | .wholeWord => ((frame.runWhole rule form).on made).1
      | .oneSound index => ((frame.runSounds rule.logic.branches form (some [index])).on made).1) =
        .ok outcome := by
  unfold run at gave
  rw [on_adapt] at gave
  obtain ⟨_, between, isChecked, gave⟩ :=
    on_bind_eq_ok.mp (Prod.ext (Except.mapError_eq_ok.mp gave) rfl)
  obtain rfl : made = between := (Prod.mk.inj isChecked).2
  cases extent with
  | wholeWord => exact congrArg Prod.fst gave
  | oneSound index => exact congrArg Prod.fst gave

/-- A sound rule with nothing in front of its branches does nothing but change sounds. -/
theorem runLogic_sounds {logic : Logic} (isLogic : logic = .branching [] branches)
    (isSegmental : logic.isSegmental = true) (form : WordForm) :
    frame.runLogic logic form = (do
      let ran ← frame.runSounds branches form none
      return if ran.applied then ran else ⟨false, form⟩) := by
  subst isLogic
  simp only [runLogic, carryOutAll, List.foldlM_nil, pure_bind, isSegmental, if_true]

/-- On a whole word, a sound rule with nothing in front of its branches gives the text and the
stress that its run gives. -/
theorem runWhole_eq_ok {rule : Rule} (isLogic : rule.logic = .branching [] branches)
    (isSegmental : rule.logic.isSegmental = true)
    (gave : ((frame.runWhole rule form).on made).1 = .ok outcome) :
    ∃ ran, ((frame.runSounds branches form none).on made).1 = .ok ran ∧
      outcome.form.text = ran.form.text ∧
      outcome.form.stressedIndex = ran.form.stressedIndex := by
  unfold runWhole at gave
  rw [runLogic_sounds isLogic isSegmental, bind_assoc] at gave
  obtain ⟨ran, between, isRan, gave⟩ := on_bind_eq_ok.mp (Prod.ext gave rfl)
  refine ⟨ran, congrArg Prod.fst isRan, ?_⟩
  rw [pure_bind] at gave
  obtain rfl | ⟨text, stressedIndex, rfl⟩ :=
    (runSounds_changes branches form none).of_on trivial (congrArg Prod.fst isRan)
  · cases gave
    exact ⟨rfl, rfl⟩
  · obtain ⟨declared, _, isDeclared, gave⟩ := on_bind_eq_ok.mp gave
    obtain ⟨categories, rfl⟩ := exists_of_declareCategories (congrArg Prod.fst isDeclared)
    cases gave
    exact ⟨rfl, rfl⟩

/-- A search leaves the inventories that there are if it asks no rule for the stress: the form has
one, or the language has no stress rule, or any sound at all is sought. -/
theorem left_of_seek {target : SeekTarget} {index? : Option Nat} {left : Inventories}
    (asksNone : form.stressedIndex ≠ none ∨ frame.language.stressRule = none ∨
      target.soundClass = none)
    (sought : (frame.segmentation form >>= fun word => word.seek target).on made =
      (.ok index?, left)) :
    left = made := by
  rw [on_segmentation_bind] at sought
  by_cases noClass : target.soundClass = none
  · unfold Segmentation.seek Segmentation.places at sought
    rw [noClass] at sought
    exact (Prod.mk.inj sought).2.symm
  · have stays : ((frame.stressedIndex form).on made).2 = made := by
      unfold stressedIndex
      cases isStressed : form.stressedIndex with
      | some index => rfl
      | none =>
          have noRule := (asksNone.resolve_left fun some => some isStressed).resolve_right noClass
          rw [noRule]
          rfl
    let Stays (before after : Inventories) : Prop := before = made ∧ after = made
    have alike : Segmentation.Alike Stays (frame.wordSeen made form) (frame.wordSeen made form) :=
      ⟨_, rfl, fun _ _ _ => ⟨.refl _, stays, stays⟩⟩
    have kept := (Segmentation.agree_seek alike target made made ⟨rfl, rfl⟩).2.1
    rwa [sought] at kept

section

variable (alike : Alike (Inventories.AreBothOf frame.graph.languages) (· = ·) (fun _ => True)
  frame frame)

include alike

/-- The search for a sound leaves inventories of the graph's languages. -/
theorem areOf_of_seek {target : SeekTarget} {index? : Option Nat} {left : Inventories}
    (madeOwned : made.AreOf frame.graph.languages)
    (sought : (frame.segmentation form >>= fun word => word.seek target).on made =
      (.ok index?, left)) :
    left.AreOf frame.graph.languages := by
  have searched := agree_onSegmentation alike (rfl : form = form)
    fun word other wordsAlike => Segmentation.agree_seek wordsAlike target
  have owned := (searched made made ⟨madeOwned, madeOwned⟩).2.1
  rwa [sought] at owned

/-- A call gives the same from whatever inventories of the graph's languages. -/
theorem on_callRule_eq {id : Int} {extent : Extent} {left : Inventories}
    (madeOwned : made.AreOf frame.graph.languages)
    (leftOwned : left.AreOf frame.graph.languages) :
    ((frame.callRule id extent form).on made).1 = ((frame.callRule id extent form).on left).1 :=
  (agree_callRule alike (rfl : form = form) trivial extent made left ⟨madeOwned, leftOwned⟩).1.eq

end

end Frame

namespace Graph

variable {graph : Graph} {marker : Text} {active : List RuleRef} {pending : List Text}

/-- A rule that is called is run in its own surroundings, with the inventory that serves for its
language. -/
theorem exists_run_of_callRule {language : Language} {inventory : Inventory} {id : Int}
    {called : Rule} {extent : Extent} {form result : WordForm} {made : Inventories}
    (isStored : graph.rule id = .ok called)
    (gave : (((graph.frameWithin marker active pending language inventory).callRule id extent
      form).on made).1 = .ok result) :
    ∃ source outcome, graph.language called.fromLanguage = .ok source ∧ result = outcome.form ∧
      (((graph.frameWithin marker (active ++ [called.ref]) pending source
        (serve made source).1).run called extent form).on (serve made source).2).1 =
          .ok outcome := by
  obtain ⟨outcome, _, isCalled, gave⟩ := on_bind_eq_ok.mp (Prod.ext gave rfl)
  cases gave
  have gave : ((graph.callWithin marker active pending id extent form).on made).1 = .ok outcome :=
    congrArg Prod.fst isCalled
  unfold callWithin at gave
  rw [isStored, found_bind] at gave
  split at gave
  · cases gave
  · rw [applyWithin_eq] at gave
    cases isSource : graph.language called.fromLanguage with
    | error failure =>
        rw [isSource, missing_bind] at gave
        cases gave
    | ok source =>
        rw [isSource, found_bind, on_bind, on_inventory] at gave
        exact ⟨source, outcome, rfl, rfl, gave⟩

/-- The surroundings of a rule are like themselves, if every language goes by its short name. -/
theorem alike_frameWithin (shortNames : KeepShortNames graph.languages) (marker : Text)
    (active : List RuleRef) (pending : List Text) (language : Language) (inventory : Inventory) :
    Frame.Alike (Inventories.AreBothOf graph.languages) (· = ·) (fun _ => True)
      (graph.frameWithin marker active pending language inventory)
      (graph.frameWithin marker active pending language inventory) := by
  refine alike_frameWithin_of_calls WordForm.isLikeness_eq (Alike.refl shortNames).sameFor marker
    (fun _ _ => trivial) inventory ?_
  rintro pending id extent form _ - rfl
  refine agree_lookup fun called _ => agree_ite (fun _ => agree_throw _ _) fun _ => ?_
  exact agree_applyWithin WordForm.isLikeness_eq (Alike.refl shortNames).sameFor marker active
    pending (fun _ _ => trivial) extent rfl

/-- A sound rule that is applied at a sound is called on what the search for that sound finds. -/
theorem carryOut_applySoundRule {frame : Frame} {called : Rule} {reference : RuleRef}
    (isStored : frame.graph.rule reference.id = .ok called)
    (isSegmental : called.logic.isSegmental = true) (branch? : Option Branch)
    (target : SeekTarget) (form : WordForm) :
    frame.carryOut branch? form
        { kind := .applySoundRule, rule := some reference, seek := some target } = (do
      match ← (frame.segmentation form >>= fun word => word.seek target) with
      | none => return form
      | some index => frame.callRule reference.id (.oneSound index) form) := by
  change frame.applySoundRule reference.id (some target) form = _
  unfold Frame.applySoundRule
  rw [isStored, found_bind, if_pos isSegmental, bind_assoc]
  rfl

def soundless : Language := { name := "soundless", shortName := "s" }

def rounding : Rule where
  id := 1
  name := "rounding"
  fromLanguage := "s"
  toLanguage := "s"
  logic := .branching [] [
    { condition := .holds { test := .sound .here, pattern := some { literal := some "a" } }
      instructions := [{ kind := .changeSound, argument := some "o" }] }]

def roundedWords : Graph where
  languages := ⟨[("s", soundless)]⟩
  rules := ⟨[(1, rounding)]⟩

def callingFrame : Frame :=
  roundedWords.frameWithin "-" [{ id := 2, name := "calling" }] [] soundless (.ofLanguage soundless)

def roundedForm : WordForm := { text := "bac-", language := "s", stressedIndex := some 1 }

def borrower : Language := { name := "borrower", shortName := "o", stressRule := some 2 }

/-- A language that goes by the short name of the soundless one. -/
def lender : Language where
  name := "lender"
  shortName := "s"
  phonemes := [{ spelling := "aa", tags := ["vowel"] }]

def opening : Rule where
  id := 1
  name := "opening"
  fromLanguage := "s"
  toLanguage := "s"
  logic := .branching [] [
    { condition := .holds { test := .atEdge .beginning }
      instructions := [{ kind := .changeSound, argument := some "o" }] }]

def lentStress : Rule where
  id := 2
  name := "stress"
  fromLanguage := "l"
  toLanguage := "l"
  logic := .sequential [{ kind := .stress, ordinal := some 1 }]

def lendingWords : Graph where
  languages := ⟨[("s", soundless), ("o", borrower), ("l", lender)]⟩
  rules := ⟨[(1, opening), (2, lentStress)]⟩

def borrowingFrame : Frame :=
  lendingWords.frameWithin "-" [{ id := 3, name := "calling" }] [] borrower (.ofLanguage borrower)

def doubledForm : WordForm := { text := "aab", language := "s" }

end Graph

end Diachrony
