import Diachrony.Proofs.Application.References
import Diachrony.Proofs.Application.SoundChanges

/-!
# New sounds without old ones

A new sound that is given by its features alone continues an old one.  Reading a sound change
counts old and new sounds as the notation writes them, where a run of literal sounds counts once;
carrying it out counts them as the language cuts these runs.  So a change that was read may lack an
old sound, and where it does, it fails on every form in which it matches, and on no other form.
-/
namespace Diachrony

open Work

variable {Fails : Error → Prop} {failure : Error}

/-- What gives a value, or fails in allowed ways, fails in one of these ways if it fails. -/
theorem Work.EnsuresFrom.result_error {α : Type} {session : Session α} {Holds : α → Prop}
    (ensures : session.EnsuresFrom Inventories.Any Fails Holds)
    (isError : session.result = .error failure) : Fails failure := by
  have met := ensures.ensures {}
  rwa [show (session.on {}).1 = .error failure from isError] at met

/-- What never fails gives a value. -/
theorem Work.FailsOnlyFrom.exists_result {α : Type} {session : Session α}
    (never : session.FailsOnlyFrom Inventories.Any fun _ => False) :
    ∃ value, session.result = .ok value := by
  obtain ⟨value, left, gave, -⟩ := never.exists_value (trivial : Inventories.Any {})
  exact ⟨value, congrArg Prod.fst gave⟩

/-- The failure over a new sound that is given by its features and has no sound to change. -/
def Slot.withoutSource (slot : Slot) : Error :=
  .inRule (.featuresWithoutSound slot.print) .null none

/-- The features of a slot that is not literal are features of the language. -/
def Slot.IsNamed (inventory : Inventory) (slot : Slot) : Prop :=
  slot.literal = none → FailsOnly (fun _ => False) (inventory.featureTerms slot.features)

namespace Slot

/-- No run of literal sounds that is read is empty. -/
theorem literal_ne_nil_closeRun (run : Text) {slots : List Slot}
    (areSounds : ∀ slot ∈ slots, slot.literal ≠ some []) :
    ∀ slot ∈ closeRun run slots, slot.literal ≠ some [] := by
  unfold closeRun
  by_cases isEmpty : run.isEmpty = true
  · rwa [if_pos isEmpty]
  · rw [if_neg isEmpty, List.forall_mem_cons]
    refine ⟨fun isNone => isEmpty ?_, areSounds⟩
    rw [Option.some.inj isNone]
    rfl

theorem IsMark.literal {mark : Text} {slot : Slot} (isMark : IsMark mark slot) :
    slot.literal = none := by
  cases isMark with
  | edge | consonant | vowel => rfl
  | features _ isSlot =>
      unfold readFeatures at isSlot
      dsimp only at isSlot
      split at isSlot
      · cases isSlot
      · cases isSlot
        rfl

theorem IsWritten.literal_ne_nil {text : Text} {slots : List Slot}
    (isWritten : IsWritten text slots) : ∀ slot ∈ slots, slot.literal ≠ some [] := by
  induction isWritten with
  | run => exact literal_ne_nil_closeRun _ (List.forall_mem_nil _)
  | mark _ isMark _ inductionHypothesis =>
      have notRun := isMark.literal
      exact literal_ne_nil_closeRun _
        (List.forall_mem_cons.mpr ⟨by simp [notRun], inductionHypothesis⟩)

theorem IsSide.literal_ne_nil {slots : List Slot} (isSide : IsSide slots) :
    ∀ slot ∈ slots, slot.literal ≠ some [] := by
  cases isSide with
  | zero => exact List.forall_mem_nil _
  | row _ _ isWritten => exact isWritten.literal_ne_nil

end Slot

/-- New sounds that have no counterpart in the notation are not given by their features. -/
theorem SoundChange.noFeatures_of_checkSounds {before after : List Slot}
    (fits : checkSounds before after = .ok ()) :
    ∀ slot ∈ after.drop before.length, slot.features = [] := by
  unfold checkSounds at fits
  split at fits
  · cases fits
  · split at fits
    · cases fits
    · split at fits
      · cases fits
      · rename_i isNone
        intro slot isMember
        simpa using List.find?_eq_none.mp isNone slot isMember

/-- A text that is not empty has a segment. -/
theorem Inventory.length_segments_pos {inventory : Inventory} {text : Text} (isSome : text ≠ []) :
    0 < (inventory.segments text).length := by
  cases text with
  | nil => exact absurd rfl isSome
  | cons char text =>
      unfold segments segmentsFrom
      split <;> exact Nat.succ_pos _

namespace Frame

variable {frame : Frame} {word : Segmentation} {slots : List Slot} {slot : Slot}
  {change : SoundChange} {index place stop edge : Nat}

/-- The first new sound that is given by its features and has no old sound to continue. -/
def unsourced? (frame : Frame) (change : SoundChange) : Option Slot :=
  ((frame.splitSlots change.after).drop (frame.widthOf change)).find? fun slot =>
    slot.literal.isNone

def LacksSource (frame : Frame) (change : SoundChange) (failure : Error) : Prop :=
  ∃ slot, frame.unsourced? change = some slot ∧ failure = slot.withoutSource

/-- Behind a slot that writes its text, the others decide. -/
theorem failure_behind_slot (isSettled : word.IsSettled) {source : Option Nat} {text : Text}
    (gave : (frame.slotOutput word slot source).result = .ok text)
    {others : Session (List Piece)} (areSettled : others.IsSettled) :
    (do
        let text ← frame.slotOutput word slot source
        return ⟨source, text⟩ :: (← others) : Session (List Piece)).result = .error failure ↔
      others.result = .error failure := by
  have goesOn (text : Text) :
      (do return ⟨source, text⟩ :: (← others) : Session (List Piece)).IsSettled :=
    agree_bind_eq areSettled fun _ => agree_pure rfl
  rw [IsSettled.result_bind (settled_slotOutput isSettled slot source) goesOn, gave]
  exact IsSettled.result_bind_pure_eq_error areSettled _

/-- What is written for a match fails only over a slot that has no sound to change. -/
theorem outputPieces_eq_error (isSettled : word.IsSettled)
    (areNamed : ∀ slot ∈ slots, slot.IsNamed frame.inventory) {old : Nat}
    (isWithin : index + old ≤ word.length) :
    (frame.outputPieces word index old slots).result = .error failure ↔
      ∃ slot, (slots.drop old).find? (fun slot => slot.literal.isNone) = some slot ∧
        failure = slot.withoutSource := by
  induction slots generalizing index old with
  | nil => cases old <;> simp [outputPieces]
  | cons slot slots inductionHypothesis =>
      obtain ⟨isNamed, areNamed⟩ := List.forall_mem_cons.mp areNamed
      have others (next left : Nat) : (frame.outputPieces word next left slots).IsSettled :=
        settled_outputPieces isSettled slots next left
      cases old with
      | succ old =>
          obtain ⟨text, gave⟩ := FailsOnlyFrom.exists_result
            (fails_slotOutput_source isNamed (.inl (show index < word.length by omega)))
          rw [outputPieces, failure_behind_slot isSettled gave (others _ _),
            inductionHypothesis areNamed (by omega), List.drop_succ_cons]
      | zero =>
          rw [outputPieces, List.drop_zero]
          cases isLiteral : slot.literal with
          | some text =>
              have gave : (frame.slotOutput word slot none).result = .ok text := by
                unfold slotOutput
                rw [isLiteral]
                rfl
              rw [failure_behind_slot isSettled gave (others _ _),
                inductionHypothesis areNamed isWithin, List.drop_zero,
                List.find?_cons_of_neg (by simp [isLiteral])]
          | none =>
              have thrown : (frame.slotOutput word slot none).result =
                  .error slot.withoutSource := by
                unfold slotOutput
                rw [isLiteral]
                rfl
              rw [List.find?_cons_of_pos (by simp [isLiteral]), IsSettled.result_bind
                (settled_slotOutput isSettled slot none) fun _ =>
                  agree_bind_eq (others _ _) fun _ => agree_pure rfl, thrown]
              constructor
              · intro isError
                exact ⟨slot, rfl, (Except.error.inj isError).symm⟩
              · rintro ⟨_, ⟨rfl⟩, rfl⟩
                rfl

/-- Slots are filled inside the word. -/
theorem Fills.stop_le (fills : frame.Fills word edge slots index stop)
    (isWithin : index ≤ word.length) (edgeWithin : edge ≤ word.length) : stop ≤ word.length := by
  induction fills with
  | nil index => exact isWithin
  | edge isEdge others inductionHypothesis => exact inductionHypothesis edgeWithin
  | sound isSound isInside fills others inductionHypothesis => exact inductionHypothesis isInside

theorem changeBehind_eq_error (isSettled : word.IsSettled) {output : List Piece} :
    (frame.changeBehind word change index stop output).result = .error failure ↔
      (frame.changeFrom word change (max stop (index + 1))).result = .error failure := by
  unfold changeBehind
  by_cases covers : index < stop
  · rw [if_pos covers, Nat.max_eq_left covers]
    exact IsSettled.result_bind_pure_eq_error (settled_changeFrom isSettled change stop) _
  · rw [if_neg covers, Nat.max_eq_right (by omega)]
    exact IsSettled.result_bind_pure_eq_error (settled_changeFrom isSettled change (index + 1)) _

/-- How one step of the search fails: where it looks for a match, where it writes, or behind. -/
theorem changeFrom_eq_error (isSettled : word.IsSettled) (isWithin : index ≤ word.length) :
    (frame.changeFrom word change index).result = .error failure ↔
      (frame.matchAt? word change index).result = .error failure ∨
      (frame.matchAt? word change index).result = .ok none ∧
        (frame.changeFrom word change (index + 1)).result = .error failure ∨
      ∃ stop, (frame.matchAt? word change index).result = .ok (some stop) ∧
        ((frame.outputPieces word index change.before.length change.after).result =
            .error failure ∨
          ∃ output,
            (frame.outputPieces word index change.before.length change.after).result =
              .ok output ∧
            (frame.changeFrom word change (max stop (index + 1))).result = .error failure) := by
  have goesOn : (frame.changeFrom word change (index + 1)).IsSettled :=
    settled_changeFrom isSettled change (index + 1)
  have written : (frame.outputPieces word index change.before.length change.after).IsSettled :=
    settled_outputPieces isSettled _ _ _
  rw [changeFrom_of_le isWithin]
  refine (IsSettled.result_bind_eq_error (settled_matchAt? isSettled change index)
    fun stop? => ?_).trans (or_congr_right ?_)
  · cases stop? with
    | none => exact agree_bind_eq goesOn fun _ => agree_pure rfl
    | some stop => exact agree_bind_eq written (settled_changeBehind isSettled _ _ _)
  · rw [Option.exists]
    refine or_congr (and_congr_right fun _ => ?_)
      (exists_congr fun stop => and_congr_right fun _ => ?_)
    · exact IsSettled.result_bind_pure_eq_error goesOn _
    · refine (IsSettled.result_bind_eq_error written
        (settled_changeBehind isSettled change index stop)).trans ?_
      simp only [changeBehind_eq_error isSettled]

def StressFails (frame : Frame) (made : Inventories) (form : WordForm) (failure : Error) : Prop :=
  ((frame.stressedIndex form).on made).1 = .error failure

theorem answers_wordSeen (frame : Frame) (made : Inventories) (form : WordForm) :
    (frame.wordSeen made form).Answers Inventories.Any (frame.StressFails made form)
      frame.inventory := by
  refine ⟨rfl, fun later _ => ⟨?_, trivial⟩⟩
  change Meets (frame.StressFails made form) _ ((frame.stressedIndex form).on made).1
  cases isStress : ((frame.stressedIndex form).on made).1 with
  | ok stressed => trivial
  | error failure => exact isStress

section

variable {made : Inventories} {form : WordForm} (isRead : change.IsRead)
  (areDefined : ∀ slot ∈ change.slots, frame.checkSlot slot = .ok ())

include isRead areDefined

/-- Whatever a change that was read compares with a word, its features are defined. -/
theorem resolves_prepared :
    SoundChange.Resolves Fails frame.inventory { frame.prepared change with after := [] } := by
  obtain ⟨areDefined, following⟩ := List.forall_mem_append.mp areDefined
  obtain ⟨areDefined, preceding⟩ := List.forall_mem_append.mp areDefined
  obtain ⟨before, -⟩ := List.forall_mem_append.mp areDefined
  have resolve {slots : List Slot} (areFilled : ∀ slot ∈ slots, slot.IsFilled)
      (areChecked : ∀ slot ∈ slots, frame.checkSlot slot = .ok ()) :
      ∀ slot ∈ frame.splitSlots slots, slot.Resolves Fails frame.inventory :=
    forall_mem_splitSlots (fun _ _ isNone => nomatch isNone) fun slot isMember =>
      Slot.resolves_of_check (areFilled slot isMember) (areChecked slot isMember)
  refine ⟨.inl (splitSlots_noEdge (SoundChange.inside_of_checkSounds isRead.fits).1),
    resolve isRead.before.isFilled before, List.forall_mem_nil _, fun slot isMember => ?_,
    resolve isRead.following.isFilled following⟩
  exact resolve isRead.preceding.isFilled preceding slot (List.mem_reverse.mp isMember)

theorem matchAt?_fails (isWithin : index ≤ (frame.wordSeen made form).length)
    (isError : (frame.matchAt? (frame.wordSeen made form) (frame.prepared change) index).result =
      .error failure) : frame.StressFails made form failure :=
  (ensures_matchAt? (answers_wordSeen frame made form) (resolves_prepared isRead areDefined)
    isWithin).result_error isError

theorem areNamed_after :
    ∀ slot ∈ frame.splitSlots change.after, slot.IsNamed frame.inventory := by
  refine forall_mem_splitSlots (fun _ isNone => nomatch isNone) fun slot isMember => ?_
  have isChecked := areDefined slot (by simp [SoundChange.slots, isMember])
  have isInside := (SoundChange.inside_of_checkSounds isRead.fits).2 slot isMember
  exact Slot.resolves_of_check (isRead.after.isFilled slot isMember) isChecked isInside

/-- Where a change matches, what is written fails if and only if the change lacks a sound. -/
theorem output_eq_error (isMatch : frame.IsMatch (frame.wordSeen made form) change index) :
    (frame.outputPieces (frame.wordSeen made form) index (frame.prepared change).before.length
        (frame.prepared change).after).result = .error failure ↔
      frame.LacksSource change failure := by
  obtain ⟨stop, stands, -⟩ := isMatch.stands
  have noEdge := (SoundChange.inside_of_checkSounds isRead.fits).1
  have isStop := stands.stop_eq (splitSlots_noEdge noEdge)
  have isWithin := stands.stop_le isMatch.isInside (Nat.le_refl _)
  exact outputPieces_eq_error (isSettled_wordSeen frame made form)
    (areNamed_after isRead areDefined) (isStop ▸ isWithin)

/-- A search fails over the stress of the form, or over a match of a change that lacks a sound. -/
theorem fails_of_changeFrom
    (isError : (frame.changeFrom (frame.wordSeen made form) (frame.prepared change) index).result =
      .error failure) :
    frame.StressFails made form failure ∨
      frame.LacksSource change failure ∧
        ∃ place, frame.IsMatch (frame.wordSeen made form) change place := by
  have isSettled := isSettled_wordSeen frame made form
  induction left : (frame.wordSeen made form).length + 1 - index using Nat.strongRecOn
    generalizing index with
  | ind left inductionHypothesis =>
      by_cases isWithin : index ≤ (frame.wordSeen made form).length
      · rcases (changeFrom_eq_error isSettled isWithin).mp isError with
          isError | ⟨-, isError⟩ | ⟨stop, isFound, isError | ⟨output, -, isError⟩⟩
        · exact .inl (matchAt?_fails isRead areDefined isWithin isError)
        · exact inductionHypothesis _ (by omega) isError rfl
        · have isMatch := ((matchAt?_eq_ok isSettled isWithin).mp isFound).1
          exact .inr ⟨(output_eq_error isRead areDefined isMatch).mp isError, index, isMatch⟩
        · exact inductionHypothesis _ (by omega) isError rfl
      · rw [changeFrom, if_neg isWithin] at isError
        cases isError

theorem changeFrom_at_match (lacks : frame.LacksSource change failure)
    (isMatch : frame.IsMatch (frame.wordSeen made form) change index) :
    (frame.changeFrom (frame.wordSeen made form) (frame.prepared change) index).result =
      .error failure := by
  have isSettled := isSettled_wordSeen frame made form
  obtain ⟨stop, stands, -⟩ := isMatch.stands
  have isFound := (matchAt?_eq_ok isSettled isMatch.isInside).mpr ⟨isMatch, stands⟩
  have isError := (output_eq_error isRead areDefined isMatch).mpr lacks
  exact (changeFrom_eq_error isSettled isMatch.isInside).mpr
    (.inr (.inr ⟨stop, isFound, .inl isError⟩))

/-- Where the stress works out, a search before a match fails if the change lacks a sound. -/
theorem changeFrom_of_lacksSource {stressed : Option Int}
    (isStress : ((frame.stressedIndex form).on made).1 = .ok stressed)
    (lacks : frame.LacksSource change failure) (isBefore : index ≤ place)
    (isMatch : frame.IsMatch (frame.wordSeen made form) change place) :
    (frame.changeFrom (frame.wordSeen made form) (frame.prepared change) index).result =
      .error failure := by
  have isSettled := isSettled_wordSeen frame made form
  have isInside := isMatch.isInside
  induction left : place - index generalizing index with
  | zero =>
      have isHere : index = place := by omega
      exact changeFrom_at_match isRead areDefined lacks (isHere ▸ isMatch)
  | succ left inductionHypothesis =>
      have isWithin : index ≤ (frame.wordSeen made form).length := by omega
      cases isFound : (frame.matchAt? (frame.wordSeen made form) (frame.prepared change)
          index).result with
      | error other =>
          have fails := matchAt?_fails isRead areDefined isWithin isFound
          cases isStress.symm.trans fails
      | ok stop? =>
          cases stop? with
          | none =>
              have isFurther : (frame.changeFrom (frame.wordSeen made form) (frame.prepared change)
                  (index + 1)).result = .error failure := inductionHypothesis (by omega) (by omega)
              exact (changeFrom_eq_error isSettled isWithin).mpr (.inr (.inl ⟨isFound, isFurther⟩))
          | some stop =>
              have isHere := ((matchAt?_eq_ok isSettled isWithin).mp isFound).1
              exact changeFrom_at_match isRead areDefined lacks isHere

end

theorem changeSounds_eq_error {made : Inventories} {form : WordForm} :
    ((frame.changeSounds change form).on made).1 = .error failure ↔
      (frame.changeFrom (frame.wordSeen made form) (frame.prepared change) 0).result =
        .error failure := by
  have searched : (frame.changeFrom (frame.wordSeen made form) (frame.prepared change)
      0).IsSettled := settled_changeFrom (isSettled_wordSeen frame made form) _ 0
  rw [changeSounds_eq, on_segmentation (agree_bind_eq searched fun _ => agree_pure rfl)]
  exact IsSettled.result_bind_pure_eq_error searched _

theorem splitSlots_append (left right : List Slot) :
    frame.splitSlots (left ++ right) = frame.splitSlots left ++ frame.splitSlots right :=
  List.flatMap_append

/-- A slot that is not literal stays one. -/
theorem splitSlots_cons_of_none (isNone : slot.literal = none) (slots : List Slot) :
    frame.splitSlots (slot :: slots) = slot :: frame.splitSlots slots := by
  simp [splitSlots, isNone]

theorem length_splitSlots_cons_of_some {run : Text} (isLiteral : slot.literal = some run)
    (slots : List Slot) :
    (frame.splitSlots (slot :: slots)).length =
      (frame.inventory.segments run).length + (frame.splitSlots slots).length := by
  simp [splitSlots, isLiteral]

/-- Where the language cuts no run of literal sounds into several, there are at most as many
slots. -/
theorem length_splitSlots_le (areSingle : ∀ slot ∈ slots, ∀ run, slot.literal = some run →
      (frame.inventory.segments run).length ≤ 1) :
    (frame.splitSlots slots).length ≤ slots.length := by
  induction slots with
  | nil => exact Nat.le_refl _
  | cons slot slots inductionHypothesis =>
      obtain ⟨isSingle, areSingle⟩ := List.forall_mem_cons.mp areSingle
      have others := inductionHypothesis areSingle
      rw [List.length_cons]
      cases isLiteral : slot.literal with
      | none =>
          rw [splitSlots_cons_of_none isLiteral, List.length_cons]
          omega
      | some run =>
          have isOne := isSingle run isLiteral
          rw [length_splitSlots_cons_of_some isLiteral]
          omega

/-- Where no run of literal sounds is empty, there are at least as many slots. -/
theorem le_length_splitSlots (areSounds : ∀ slot ∈ slots, slot.literal ≠ some []) :
    slots.length ≤ (frame.splitSlots slots).length := by
  induction slots with
  | nil => exact Nat.zero_le _
  | cons slot slots inductionHypothesis =>
      obtain ⟨isSound, areSounds⟩ := List.forall_mem_cons.mp areSounds
      have others := inductionHypothesis areSounds
      rw [List.length_cons]
      cases isLiteral : slot.literal with
      | none =>
          rw [splitSlots_cons_of_none isLiteral, List.length_cons]
          omega
      | some run =>
          have isSome : 0 < (frame.inventory.segments run).length := by
            refine Inventory.length_segments_pos fun isEmpty => isSound ?_
            rw [isLiteral, isEmpty]
          rw [length_splitSlots_cons_of_some isLiteral]
          omega

/-- Behind as many new sounds as there are old ones, a change that was read names no features:
what it lacks there are sounds of a run that the language has cut. -/
theorem unsourced?_eq_none (isRead : change.IsRead)
    (areSingle : ∀ slot ∈ change.after, ∀ run, slot.literal = some run →
      (frame.inventory.segments run).length ≤ 1) : frame.unsourced? change = none := by
  have areFew : (frame.splitSlots (change.after.take change.before.length)).length ≤
      frame.widthOf change := by
    have isShort : (frame.splitSlots (change.after.take change.before.length)).length ≤
        (change.after.take change.before.length).length :=
      length_splitSlots_le fun slot isMember => areSingle slot (List.mem_of_mem_take isMember)
    have isLong : change.before.length ≤ frame.widthOf change :=
      le_length_splitSlots isRead.before.literal_ne_nil
    rw [List.length_take] at isShort
    exact (isShort.trans (Nat.min_le_left _ _)).trans isLong
  have areLiteral : ∀ slot ∈ frame.splitSlots (change.after.drop change.before.length),
      slot.literal.isNone = false := by
    refine forall_mem_splitSlots (fun _ => rfl) fun slot isMember => ?_
    have isAfter := List.mem_of_mem_drop isMember
    have noFeatures := SoundChange.noFeatures_of_checkSounds isRead.fits slot isMember
    have isInside := (SoundChange.inside_of_checkSounds isRead.fits).2 slot isAfter
    cases isLiteral : slot.literal with
    | some run => rfl
    | none => exact absurd noFeatures (isRead.after.isFilled slot isAfter isInside isLiteral)
  unfold unsourced?
  rw [List.find?_eq_none]
  intro slot isMember
  rw [← List.take_append_drop change.before.length change.after, splitSlots_append,
    List.drop_append, List.drop_eq_nil_of_le areFew, List.nil_append] at isMember
  simp [areLiteral slot (List.mem_of_mem_drop isMember)]

/-- A sound change that was read and whose features are defined fails, where the stress of the
form works out, if and only if it matches somewhere and, as the language cuts its runs of literal
sounds, has a new sound given by its features behind as many as it has old ones.  It does not
where the language cuts no run among the new sounds into several. -/
theorem changeSounds_fails_iff {text : Text} {change : SoundChange}
    (gave : SoundChange.read text = .ok change) (frame : Frame)
    (areDefined : ∀ slot ∈ change.slots, frame.checkSlot slot = .ok ()) (made : Inventories)
    (form : WordForm) :
    (∀ failure, ((frame.changeSounds change form).on made).1 = .error failure →
      frame.StressFails made form failure ∨
        frame.LacksSource change failure ∧
          ∃ place, frame.IsMatch (frame.wordSeen made form) change place) ∧
    (∀ stressed, ((frame.stressedIndex form).on made).1 = .ok stressed → ∀ failure,
      (((frame.changeSounds change form).on made).1 = .error failure ↔
        frame.LacksSource change failure ∧
          ∃ place, frame.IsMatch (frame.wordSeen made form) change place)) ∧
    ((∀ slot ∈ change.after, ∀ run, slot.literal = some run →
        (frame.inventory.segments run).length ≤ 1) → frame.unsourced? change = none) := by
  have isRead := SoundChange.isRead_of_read gave
  have fails : ∀ failure, ((frame.changeSounds change form).on made).1 = .error failure →
      frame.StressFails made form failure ∨
        frame.LacksSource change failure ∧
          ∃ place, frame.IsMatch (frame.wordSeen made form) change place :=
    fun _ isError => fails_of_changeFrom isRead areDefined (changeSounds_eq_error.mp isError)
  refine ⟨fails, fun stressed isStress failure => ?_, unsourced?_eq_none isRead⟩
  constructor
  · intro isError
    refine (fails failure isError).resolve_left fun stressFails => ?_
    cases isStress.symm.trans stressFails
  · rintro ⟨lacks, place, isMatch⟩
    exact changeSounds_eq_error.mpr
      (changeFrom_of_lacksSource isRead areDefined isStress lacks (Nat.zero_le place) isMatch)

def clustering : SoundChange where
  before := [.sounds "a", .featured [vowelClass]]
  after := [.sounds "bc", .featured [vowelClass]]

/-- The surroundings of a rule from a language whose only sound is a vowel. -/
def vocalicFrame : Frame :=
  Graph.outerFrame {} Graph.usualMarker
    (Graph.spokenLanguage [{ spelling := "a", tags := [vowelClass] }])
    (.ofLanguage (Graph.spokenLanguage [{ spelling := "a", tags := [vowelClass] }]))

/-- The cluster is two sounds, so that the vowel behind it has no old sound left to change. -/
theorem changeSounds_fails_iff_clustering :
    SoundChange.read "aV -> bcV" = .ok clustering ∧
      (∀ slot ∈ clustering.slots, vocalicFrame.checkSlot slot = .ok ()) ∧
      ((vocalicFrame.stressedIndex { text := "aa", language := "a" }).on {}).1 = .ok none ∧
      ((vocalicFrame.changeSounds clustering { text := "aa", language := "a" }).on {}).1 =
        .error (Slot.featured [vowelClass]).withoutSource := by
  have gave : SoundChange.read "aV -> bcV" = .ok clustering := by decide +kernel
  have areDefined : ∀ slot ∈ clustering.slots, vocalicFrame.checkSlot slot = .ok () := by
    have areChecked : ∀ slot ∈ clustering.slots,
        (vocalicFrame.checkSlot slot).toOption = some () := by decide +kernel
    exact fun slot isMember => Except.toOption_eq_some.mp (areChecked slot isMember)
  have isStress : ((vocalicFrame.stressedIndex { text := "aa", language := "a" }).on {}).1 =
      .ok none := rfl
  refine ⟨gave, areDefined, isStress, ?_⟩
  have isSettled := isSettled_wordSeen vocalicFrame {} { text := "aa", language := "a" }
  have isFound : (vocalicFrame.matchAt? (vocalicFrame.wordSeen {}
      { text := "aa", language := "a" }) (vocalicFrame.prepared clustering) 0).result =
        .ok (some 2) := by
    rw [← Except.toOption_eq_some]
    decide +kernel
  have isMatch := ((matchAt?_eq_ok isSettled (Nat.zero_le _)).mp isFound).1
  have lacks : vocalicFrame.unsourced? clustering = some (.featured [vowelClass]) := by
    decide +kernel
  exact ((changeSounds_fails_iff gave vocalicFrame areDefined {} _).2.1 none isStress _).mpr
    ⟨⟨_, lacks, rfl⟩, 0, isMatch⟩

end Frame

end Diachrony
