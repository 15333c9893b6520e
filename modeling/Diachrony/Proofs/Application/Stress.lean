import Diachrony.Proofs.Application.SoundChanges
import Diachrony.Proofs.Application.SoundRules
import Diachrony.Proofs.Cutting
import Diachrony.Proofs.Paradigm.Grid
import Mathlib.Data.List.DropRight
import Mathlib.Data.List.Infix

/-!
# Where the stress goes

A sound rule and a sound change both replace the segments of a form by parts of a new text,
and both keep the stress on the part that replaced the stressed segment: the new index is the
number of parts in front of it.  The new text is cut anew, though.  So the index means that
part just where the parts in front of it are cut into as many segments as there are of them.
-/
namespace Diachrony

open Work

theorem eq_take_append_cons_drop {α : Type} {items : List α} {index : Nat} {item : α}
    (isItem : items[index]? = some item) :
    items = items.take index ++ item :: items.drop (index + 1) := by
  obtain ⟨isInside, rfl⟩ := List.getElem?_eq_some_iff.mp isItem
  rw [← List.drop_eq_getElem_cons isInside, List.take_append_drop]

namespace Frame

def cut (frame : Frame) (text : Text) : List Segment :=
  frame.inventory.segments (bareText frame.marker text)

def StartsAt (frame : Frame) (text : Text) (index offset : Nat) : Prop :=
  ∃ segment, (frame.cut text)[index]? = some segment ∧ segment.offset = offset

variable {frame : Frame}

theorem isPrefix_bareText (marker text : Text) : bareText marker text <+: text := by
  exact List.rdropWhile_prefix marker.contains text

/-- Behind some parts of a text a segment with their number starts just where that many
segments spell them out. -/
theorem startsAt_iff (spellsOut : frame.inventory.SpellsOut) {text rest : Text}
    {front : List Text} (isText : text = front.flatten ++ rest) :
    frame.StartsAt text front.length front.flatten.length ↔
      front.length < (frame.cut text).length ∧
        ((frame.cut text).take front.length).flatMap Segment.text = front.flatten := by
  have spelled : ((frame.cut text).take front.length).flatMap Segment.text <+: text := by
    have isBare : ((frame.cut text).take front.length).flatMap Segment.text <+:
        bareText frame.marker text := by
      have isPrefix := (List.take_prefix front.length (frame.cut text)).flatMap Segment.text
      rwa [cut, Inventory.flatMap_segments spellsOut] at isPrefix
    exact isBare.trans (isPrefix_bareText _ _)
  have isFront : front.flatten <+: text := ⟨rest, isText.symm⟩
  constructor
  · rintro ⟨segment, isSegment, isOffset⟩
    refine ⟨(List.getElem?_eq_some_iff.mp isSegment).1, ?_⟩
    rw [Inventory.offset_segments spellsOut isSegment] at isOffset
    rw [List.prefix_iff_eq_take.mp spelled, List.prefix_iff_eq_take.mp isFront]
    exact congrArg text.take isOffset
  · rintro ⟨isInside, same⟩
    have isSegment := List.getElem?_eq_getElem isInside
    refine ⟨_, isSegment, ?_⟩
    rw [Inventory.offset_segments spellsOut isSegment]
    exact congrArg List.length same

theorem length_kept_add_dropped (results : List (Option Text)) :
    (results.filterMap id).length + (results.filter Option.isNone).length = results.length := by
  induction results with
  | nil => rfl
  | cons result results inductionHypothesis =>
      cases result with
      | none =>
          change (results.filterMap id).length + ((results.filter Option.isNone).length + 1) =
            results.length + 1
          omega
      | some text =>
          change (results.filterMap id).length + 1 + (results.filter Option.isNone).length =
            results.length + 1
          omega

/-- The stress is lost with a segment that was dropped.  It stays on a segment that was not, and
its index is the number of those in front of it that were not dropped either. -/
theorem stressAfterDrops_eq_ok {results : List (Option Text)} {index : Nat}
    {stressed : Option Int} (isInside : index < results.length)
    (gave : stressAfterDrops results index = .ok stressed) :
    results[index]? = some none ∧ stressed = none ∨
      ∃ text, results[index]? = some (some text) ∧
        stressed = some (((results.take index).filterMap id).length : Int) := by
  have isBefore : ¬(results.length : Int) ≤ index := by omega
  have counted := length_kept_add_dropped (results.take index)
  rw [List.length_take_of_le (Nat.le_of_lt isInside)] at counted
  unfold stressAfterDrops at gave
  simp only [if_neg isBefore, placeIn?_natCast isInside, List.getElem?_eq_getElem isInside]
    at gave ⊢
  cases isResult : results[index] with
  | none =>
      rw [isResult] at gave
      cases gave
      exact .inl ⟨rfl, rfl⟩
  | some text =>
      rw [isResult] at gave
      cases gave
      have isMoved : (index : Int) - ((results.take index).filter Option.isNone).length =
          ((results.take index).filterMap id).length := by omega
      exact .inr ⟨text, rfl, congrArg some isMoved⟩

/-- The text of a changed form has a part that the stress is on, with some parts in front of it
and some behind it.  The stress counts those in front, and a segment with that number starts
where the part does just where the cut spells out the parts in front with as many
segments. -/
structure Stresses (frame : Frame) (changed : WordForm) (front : List Text) (replaced : Text)
    (back : List Text) : Prop where
  isText : ∃ ending, changed.text = (front ++ replaced :: back).flatten ++ ending ∧
    ∀ char ∈ ending, frame.marker.contains char = true
  isStressed : changed.stressedIndex = some (front.length : Int)
  starts_iff : frame.StartsAt changed.text front.length front.flatten.length ↔
    front.length < (frame.cut changed.text).length ∧
      ((frame.cut changed.text).take front.length).flatMap Segment.text = front.flatten

variable (frame) in
theorem withMarkOf_eq (form : WordForm) (text : Text) :
    ∃ ending, frame.withMarkOf form text = text ++ ending ∧
      ∀ char ∈ ending, frame.marker.contains char = true := by
  unfold withMarkOf
  split
  · exact ⟨frame.marker, rfl, fun char isMember => List.contains_iff_mem.mpr isMember⟩
  · exact ⟨[], (List.append_nil text).symm, by simp⟩

theorem stresses_withText (spellsOut : frame.inventory.SpellsOut) (form : WordForm)
    {text replaced : Text} {front back : List Text}
    (isText : text = (front ++ replaced :: back).flatten) :
    frame.Stresses (form.withText (frame.withMarkOf form text) (some (front.length : Int)))
      front replaced back := by
  obtain ⟨ending, isMarked, areMarks⟩ := withMarkOf_eq frame form text
  have inFront : frame.withMarkOf form text =
      front.flatten ++ (replaced ++ back.flatten ++ ending) := by
    rw [isMarked, isText]
    simp
  exact ⟨⟨ending, isText ▸ isMarked, areMarks⟩, rfl, startsAt_iff spellsOut inFront⟩

/-- A sound rule loses the stress with the stressed segment, or leaves it on what that segment
has become. -/
theorem stresses_of_finished (spellsOut : frame.inventory.SpellsOut) {word : Segmentation}
    {form : WordForm} {index : Nat} (isStressed : form.stressedIndex = some (index : Int))
    (isInside : index < word.length) {outcomes : List (Nat × Option Text)} {outcome : Outcome}
    (gave : frame.finished word form outcomes = .ok outcome) (isApplied : outcome.applied = true) :
    (word.resultsWith outcomes)[index]? = some none ∧ outcome.form.stressedIndex = none ∨
      ∃ replaced, (word.resultsWith outcomes)[index]? = some (some replaced) ∧
        frame.Stresses outcome.form (((word.resultsWith outcomes).take index).filterMap id)
          replaced (((word.resultsWith outcomes).drop (index + 1)).filterMap id) := by
  have sameLength : (word.resultsWith outcomes).length = word.length := by
    simp [Segmentation.resultsWith, Segmentation.length]
  rw [← sameLength] at isInside
  unfold finished at gave
  split at gave
  · cases gave
    cases isApplied
  · rw [Except.map_eq_ok] at gave
    obtain ⟨stressed, isStress, rfl⟩ := gave
    rw [WordForm.stressAfter, isStressed] at isStress
    rcases stressAfterDrops_eq_ok isInside isStress with
      ⟨isDropped, rfl⟩ | ⟨replaced, isReplaced, rfl⟩
    · exact .inl ⟨isDropped, rfl⟩
    · have isText : ((word.resultsWith outcomes).filterMap id).flatten =
          (((word.resultsWith outcomes).take index).filterMap id ++
            replaced :: ((word.resultsWith outcomes).drop (index + 1)).filterMap id).flatten := by
        conv_lhs => rw [eq_take_append_cons_drop isReplaced, List.filterMap_append]
        rfl
      exact .inr ⟨replaced, isReplaced, stresses_withText spellsOut form isText⟩

end Frame

/-- A place that is found for a segment is that of a piece which continues it. -/
theorem Piece.exists_of_placeOf? {pieces : List Piece} {index : Nat} {place : Int}
    (isFound : Piece.placeOf? pieces index = some place) :
    ∃ front piece back, pieces = front ++ piece :: back ∧ piece.source = some index ∧
      place = front.length := by
  obtain ⟨⟨piece, position⟩, isEntry, rfl⟩ := Option.map_eq_some_iff.mp isFound
  have isMember := List.mem_reverse.mp (List.mem_of_find?_eq_some isEntry)
  have isPiece : pieces[position]? = some piece := List.mk_mem_zipIdx_iff_getElem?.mp isMember
  have isInside := (List.getElem?_eq_some_iff.mp isPiece).1
  refine ⟨pieces.take position, piece, pieces.drop (position + 1),
    eq_take_append_cons_drop isPiece, ?_, ?_⟩
  · have continues := List.find?_some isEntry
    cases isSource : piece.source with
    | none => simp [isSource] at continues
    | some source =>
        have same : (source : Int) = index := by simpa [isSource] using continues
        rw [Int.ofNat_inj.mp same]
  · rw [List.length_take_of_le (Nat.le_of_lt isInside)]

theorem Piece.source_ne_of_placeOf? {pieces : List Piece} {index : Nat}
    (isNone : Piece.placeOf? pieces index = none) :
    ∀ piece ∈ pieces, piece.source ≠ some index := by
  intro piece isMember isSource
  obtain ⟨position, isPiece⟩ := List.mem_iff_getElem?.mp isMember
  have isEntry : (piece, position) ∈ pieces.zipIdx.reverse :=
    List.mem_reverse.mpr (List.mk_mem_zipIdx_iff_getElem?.mpr isPiece)
  have continues := List.find?_eq_none.mp (Option.map_eq_none_iff.mp isNone) _ isEntry
  simp [isSource] at continues

def Segmentation.continuedBy (word : Segmentation) (pieces : List Piece) : List Nat :=
  pieces.filterMap fun piece => piece.source.filter fun source => source < word.length

/-- Some pieces continue segments from one index up to another one, in their order and each of
them once. -/
structure Segmentation.Continues (word : Segmentation) (start stop : Nat)
    (pieces : List Piece) : Prop where
  areOrdered : (word.continuedBy pieces).Pairwise (· < ·)
  areBetween : ∀ source ∈ word.continuedBy pieces, start ≤ source ∧ source < stop

section

variable {word : Segmentation} {index stop : Nat} {pieces : List Piece}

theorem Segmentation.mem_continuedBy {source : Nat} :
    source ∈ word.continuedBy pieces ↔
      source < word.length ∧ ∃ piece ∈ pieces, piece.source = some source := by
  simp only [continuedBy, List.mem_filterMap, Option.filter_eq_some_iff, decide_eq_true_eq,
    ← and_assoc, exists_and_right]
  exact and_comm

theorem Segmentation.continuedBy_append (left right : List Piece) :
    word.continuedBy (left ++ right) = word.continuedBy left ++ word.continuedBy right :=
  List.filterMap_append

theorem Segmentation.Continues.append {left right : List Piece}
    (first : word.Continues index stop left) (second : word.Continues stop word.length right)
    (isBefore : index ≤ stop) : word.Continues index word.length (left ++ right) where
  areOrdered := by
    rw [continuedBy_append, List.pairwise_append]
    refine ⟨first.areOrdered, second.areOrdered, fun source isLeft other isRight => ?_⟩
    have isBetween := first.areBetween source isLeft
    have isBehind := second.areBetween other isRight
    omega
  areBetween := by
    intro source isMember
    have isInside := (mem_continuedBy.mp isMember).1
    rw [continuedBy_append, List.mem_append] at isMember
    rcases isMember with isLeft | isRight
    · exact ⟨(first.areBetween source isLeft).1, isInside⟩
    · exact ⟨isBefore.trans (second.areBetween source isRight).1, isInside⟩

/-- A segment that is continued stands in only one piece. -/
theorem Segmentation.Continues.once {front back : List Piece} {piece : Piece}
    (continues : word.Continues stop word.length (front ++ piece :: back))
    (isInside : index < word.length) (isSource : piece.source = some index) :
    ∀ other ∈ front ++ back, other.source ≠ some index := by
  have isContinued : word.continuedBy (piece :: back) = index :: word.continuedBy back :=
    List.filterMap_cons_some (by simp [isSource, isInside])
  have areOrdered := continues.areOrdered
  rw [continuedBy_append, isContinued, List.pairwise_append, List.pairwise_cons] at areOrdered
  obtain ⟨-, ⟨isBehind, -⟩, isBefore⟩ := areOrdered
  intro other isMember isSame
  have isThere (others : List Piece) (isOther : other ∈ others) : index ∈ word.continuedBy others :=
    mem_continuedBy.mpr ⟨isInside, other, isOther, isSame⟩
  rcases List.mem_append.mp isMember with isFront | isBack
  · exact Nat.lt_irrefl index (isBefore index (isThere front isFront) index List.mem_cons_self)
  · exact Nat.lt_irrefl index (isBehind index (isThere back isBack))

end

namespace Frame

variable {frame : Frame} {word : Segmentation} {change : SoundChange} {index stop place : Nat}
  {output pieces : List Piece}

theorem continues_copiedPiece (index : Nat) :
    word.Continues index (index + 1) (copiedPiece word index) where
  areOrdered := by
    unfold copiedPiece
    cases word.segmentText? index with
    | none => exact .nil
    | some text =>
        have isOne := List.pairwise_singleton (fun _ _ => False) (⟨some index, text⟩ : Piece)
        exact isOne.filterMap _ fun _ _ never => never.elim
  areBetween := by
    intro source isMember
    obtain ⟨-, piece, isCopied, isSource⟩ := Segmentation.mem_continuedBy.mp isMember
    obtain ⟨text, -, rfl⟩ := List.mem_map.mp isCopied
    cases isSource
    omega

/-- Segments that fill slots are inside the word.  Each slot takes one of them, unless the slots
go on behind the end of the word. -/
theorem Fills.stop_spec {slots : List Slot}
    (fills : frame.Fills word word.length slots index stop) (isWithin : index ≤ word.length) :
    index ≤ stop ∧ stop ≤ word.length ∧
      (stop = index + slots.length ∨ stop = word.length) := by
  induction slots generalizing index with
  | nil =>
      cases fills
      simp [isWithin]
  | cons slot slots inductionHypothesis =>
      rcases fills_cons_iff.mp fills with ⟨-, rfl, others⟩ | ⟨-, isInside, -, others⟩
      · have further := inductionHypothesis others (Nat.le_refl _)
        omega
      · have further := inductionHypothesis others isInside
        rw [List.length_cons]
        omega

theorem Writes.sources (isWritten : frame.Writes word change place output) :
    output.map Piece.source =
      (List.range output.length).map (sourceAt? place (frame.widthOf change)) := by
  refine List.ext_getElem (by simp) fun k isInside _ => ?_
  rw [List.length_map] at isInside
  have sameLength := isWritten.length_eq
  have isPiece := isWritten.get (sameLength ▸ isInside) isInside
  simpa using isPiece.1

/-- What is written for a match continues segments of the match. -/
theorem Writes.continues (isWritten : frame.Writes word change place output) :
    word.Continues place (place + frame.widthOf change) output := by
  have isContinued : word.continuedBy output = (List.range output.length).filterMap fun k =>
      (sourceAt? place (frame.widthOf change) k).filter fun source => source < word.length := by
    have fromSources := List.filterMap_map (f := Piece.source) (l := output)
      (g := Option.filter fun source => decide (source < word.length))
    rw [isWritten.sources, List.filterMap_map] at fromSources
    exact fromSources.symm
  have isSource {k source : Nat} (isHere : (sourceAt? place (frame.widthOf change) k).filter
      (fun source => decide (source < word.length)) = some source) :
      k < frame.widthOf change ∧ place + k = source :=
    sourceAt?_eq_some.mp (Option.filter_eq_some_iff.mp isHere).1
  constructor
  · rw [isContinued]
    refine List.pairwise_lt_range.filterMap _ fun k later isBefore source isHere other isLater => ?_
    have first := isSource isHere
    have second := isSource isLater
    omega
  · intro source isMember
    rw [isContinued] at isMember
    obtain ⟨k, -, isHere⟩ := List.mem_filterMap.mp isMember
    have first := isSource isHere
    omega

/-- The pieces of a search from an index on continue segments from there on. -/
theorem continues_of_changeFrom (isSettled : word.IsSettled) {matched : Bool}
    (gave : (frame.changeFrom word (frame.prepared change) index).result =
      .ok (matched, pieces)) : word.Continues index word.length pieces := by
  induction left : word.length + 1 - index using Nat.strongRecOn
    generalizing index matched pieces with
  | ind left inductionHypothesis =>
      by_cases isWithin : index ≤ word.length
      · have copies {others : List Piece} {later : Bool} (areOthers : (frame.changeFrom word
            (frame.prepared change) (index + 1)).result = .ok (later, others)) :
            word.Continues index word.length (copiedPiece word index ++ others) :=
          (continues_copiedPiece index).append
            (inductionHypothesis _ (by omega) areOthers rfl) (Nat.le_succ index)
        rcases changeFrom_steps isSettled isWithin gave with
          ⟨-, others, areOthers, rfl⟩ |
            ⟨-, stop, output, later, others, isFound, isOutput, goesOn⟩
        · exact copies areOthers
        · obtain ⟨-, stands⟩ := (matchAt?_eq_ok isSettled isWithin).mp isFound
          obtain ⟨isBehind, isInside, isStop⟩ := stands.stop_spec isWithin
          have isWritten : frame.Writes word change index output :=
            writes_of_outputPieces isSettled isOutput
          have continues : word.Continues index stop output := by
            refine ⟨isWritten.continues.areOrdered, fun source isMember => ?_⟩
            have isBetween := isWritten.continues.areBetween source isMember
            have isSource := (Segmentation.mem_continuedBy.mp isMember).1
            rw [widthOf] at isBetween
            omega
          rcases goesOn with ⟨covers, areOthers, rfl⟩ | ⟨inserts, areOthers, rfl⟩
          · exact continues.append (inductionHypothesis _ (by omega) areOthers rfl) isBehind
          · have isHere : stop = index := Nat.le_antisymm inserts isBehind
            subst isHere
            rw [List.append_assoc]
            exact continues.append (copies areOthers) (Nat.le_refl _)
      · rw [changeFrom, if_neg isWithin] at gave
        cases gave
        exact ⟨.nil, by simp [Segmentation.continuedBy]⟩

/-- A sound change loses the stress where no piece continues the stressed segment, or leaves it
on a piece that does. -/
theorem stresses_of_found (spellsOut : frame.inventory.SpellsOut) {form : WordForm}
    (isStressed : form.stressedIndex = some (index : Int)) (pieces : List Piece) :
    (∀ piece ∈ pieces, piece.source ≠ some index) ∧
        (frame.formOf form pieces).stressedIndex = none ∨
      ∃ front piece back, pieces = front ++ piece :: back ∧ piece.source = some index ∧
        frame.Stresses (frame.formOf form pieces) (front.map Piece.text) piece.text
          (back.map Piece.text) := by
  rw [formOf, isStressed, Option.bind_some]
  cases isFound : Piece.placeOf? pieces index with
  | none => exact .inl ⟨Piece.source_ne_of_placeOf? isFound, rfl⟩
  | some stress =>
      obtain ⟨front, piece, back, rfl, isSource, rfl⟩ := Piece.exists_of_placeOf? isFound
      have isText : (front ++ piece :: back).flatMap Piece.text =
          (front.map Piece.text ++ piece.text :: back.map Piece.text).flatten := by
        simp [List.flatMap_def]
      have stresses := stresses_withText spellsOut form isText
      rw [List.length_map] at stresses
      exact .inr ⟨front, piece, back, rfl, isSource, stresses⟩

/-- Where the stress of a form goes.  A form that is stressed on one of its segments keeps the
stress on what has become of this segment, under a sound rule and under a sound change, and
loses it where nothing has.  In the new text there are some parts in front of that part, and the
new index is their number.  A segment of the new text with this index starts where the part
does just where the cut of the new text spells out the parts in front of it with as many
segments; it need not, since a part may be cut into several segments or into none, and may
share a segment with its neighbour. -/
theorem stress_follows_iff (frame : Frame) (made : Inventories) {form : WordForm} {index : Nat}
    (isOwn : ∃ language, frame.inventory = .ofLanguage language)
    (isStressed : form.stressedIndex = some (index : Int))
    (isInside : index < (frame.wordSeen made form).length) :
    (∀ branches visited outcome,
      ((frame.runSounds branches form visited).on made).1 = .ok outcome →
      outcome.applied = true →
      ∃ outcomes,
        (frame.segmentOutcomes (frame.wordSeen made form) form branches
          (visited.getD (List.range (frame.wordSeen made form).length))).result =
            .ok outcomes ∧
        (((frame.wordSeen made form).resultsWith outcomes)[index]? = some none ∧
            outcome.form.stressedIndex = none ∨
          ∃ replaced,
            ((frame.wordSeen made form).resultsWith outcomes)[index]? = some (some replaced) ∧
            frame.Stresses outcome.form
              ((((frame.wordSeen made form).resultsWith outcomes).take index).filterMap id)
              replaced
              ((((frame.wordSeen made form).resultsWith outcomes).drop (index + 1)).filterMap
                id))) ∧
    ∀ change changed,
      ((frame.changeSounds change form).on made).1 = .ok changed →
      changed = form ∨ ∃ pieces,
        (frame.changeFrom (frame.wordSeen made form) (frame.prepared change) 0).result =
          .ok (true, pieces) ∧
        ((∀ piece ∈ pieces, piece.source ≠ some index) ∧ changed.stressedIndex = none ∨
          ∃ front piece back, pieces = front ++ piece :: back ∧ piece.source = some index ∧
            (∀ other ∈ front ++ back, other.source ≠ some index) ∧
            frame.Stresses changed (front.map Piece.text) piece.text
              (back.map Piece.text)) := by
  have spellsOut : frame.inventory.SpellsOut := by
    obtain ⟨language, isInventory⟩ := isOwn
    rw [isInventory]
    exact Inventory.spellsOut_ofLanguage language
  constructor
  · intro branches visited outcome gave isApplied
    obtain ⟨outcomes, areOutcomes, isFinished⟩ := runSounds_eq_ok.mp gave
    exact ⟨outcomes, areOutcomes,
      stresses_of_finished spellsOut isStressed isInside isFinished isApplied⟩
  · intro change changed gave
    obtain ⟨matched, pieces, found, rfl⟩ := changeSounds_eq_ok.mp gave
    cases matched with
    | false => exact .inl rfl
    | true =>
        refine .inr ⟨pieces, found, ?_⟩
        rcases stresses_of_found spellsOut isStressed pieces with
          isLost | ⟨front, piece, back, rfl, isSource, stresses⟩
        · exact .inl isLost
        · have continues := continues_of_changeFrom (isSettled_wordSeen frame made form) found
          exact .inr ⟨front, piece, back, rfl, isSource, continues.once isInside isSource, stresses⟩

/-- A sound becomes two. -/
def doubling : List Branch :=
  [{ condition := .holds { test := .sound .here, pattern := some { literal := some "b" } }
     instructions := [{ kind := .changeSound, argument := some "xy" }] }]

def endStressed : WordForm := { text := "ba", language := "s", stressedIndex := some 1 }

/-- The stress of "ba" is on what "a" has become, which is the third segment of "xya", but its
index is that of the second one. -/
theorem stress_follows_iff_doubling :
    (∃ language, soundlessFrame.inventory = .ofLanguage language) ∧
      endStressed.stressedIndex = some ((1 : Nat) : Int) ∧
      1 < (soundlessFrame.wordSeen {} endStressed).length ∧
      ∃ outcome, ((soundlessFrame.runSounds doubling endStressed none).on {}).1 = .ok outcome ∧
        outcome.applied = true ∧ outcome.form.text = ("xya" : Text) ∧
        soundlessFrame.Stresses outcome.form ["xy"] "a" [] ∧
        ¬soundlessFrame.StartsAt outcome.form.text 1 2 := by
  have isOwn : ∃ language, soundlessFrame.inventory = .ofLanguage language := ⟨_, rfl⟩
  have isInside : 1 < (soundlessFrame.wordSeen {} endStressed).length := by decide +kernel
  have isSeen : ((soundlessFrame.runSounds doubling endStressed none).on {}).1.toOption.map
      (fun outcome => (outcome.applied, outcome.form.text, outcome.form.stressedIndex)) =
        some (true, ("xya" : Text), some 1) := by
    decide +kernel
  obtain ⟨outcome, gave, same⟩ := Except.exists_of_toOption_map isSeen
  simp only [Prod.mk.injEq] at same
  obtain ⟨isApplied, isText, isStress⟩ := same
  obtain ⟨outcomes, areOutcomes, ⟨-, isLost⟩ | ⟨replaced, isReplaced, stresses⟩⟩ :=
    (stress_follows_iff soundlessFrame {} isOwn rfl isInside).1 doubling none outcome gave
      isApplied
  · cases isStress.symm.trans isLost
  have areDoubled : (soundlessFrame.segmentOutcomes (soundlessFrame.wordSeen {} endStressed)
      endStressed doubling (none.getD (List.range
        (soundlessFrame.wordSeen {} endStressed).length))).result.toOption =
          some [(0, some ("xy" : Text))] := by
    decide +kernel
  have same := (Except.toOption_eq_some.mp areDoubled).symm.trans areOutcomes
  have areResults : (soundlessFrame.wordSeen {} endStressed).resultsWith
      [(0, some ("xy" : Text))] = [some ("xy" : Text), some ("a" : Text)] := by
    decide +kernel
  rw [← Except.ok.inj same, areResults] at isReplaced stresses
  cases isReplaced
  refine ⟨isOwn, rfl, isInside, outcome, gave, isApplied, isText, stresses, fun starts => ?_⟩
  have isSpelled := (stresses.starts_iff.mp starts).2
  rw [isText] at isSpelled
  revert isSpelled
  decide +kernel

end Frame

end Diachrony
