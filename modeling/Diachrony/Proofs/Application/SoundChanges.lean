import Diachrony.Proofs.Application.Seen

/-!
# Sound changes rewrite the leftmost matches

A sound change is carried out by a search through the segments of a form.  What it finds are
matches on the form before the change, which do not overlap and none of which was passed over;
and what it writes is that form with each match replaced.
-/
namespace Diachrony

open Work

namespace Frame

/-- Segments fill some slots from one index up to another one.  An edge takes no segment and
stands where the edge of the word is. -/
inductive Fills (frame : Frame) (word : Segmentation) (edge : Nat) :
    List Slot → Nat → Nat → Prop
  | nil (index : Nat) : Fills frame word edge [] index index
  | edge {slot : Slot} {slots : List Slot} {stop : Nat} (isEdge : slot.boundary = true)
      (others : Fills frame word edge slots edge stop) :
      Fills frame word edge (slot :: slots) edge stop
  | sound {slot : Slot} {slots : List Slot} {index stop : Nat}
      (isSound : slot.boundary = false) (isInside : index < word.length)
      (fills : (frame.fillsSlot word slot index).result = .ok true)
      (others : Fills frame word edge slots (index + 1) stop) :
      Fills frame word edge (slot :: slots) index stop

/-- A sound change matches at a place: its old sounds stand there, and its neighbours stand
right before and right behind them. -/
structure IsMatch (frame : Frame) (word : Segmentation) (change : SoundChange) (place : Nat) :
    Prop where
  isInside : place ≤ word.length
  stands : ∃ stop, frame.Fills word word.length (frame.splitSlots change.before) place stop ∧
    ∃ finish, frame.Fills word word.length (frame.splitSlots change.following) stop finish
  follows : ∃ start, frame.Fills word 0 (frame.splitSlots change.preceding) start place

variable {frame : Frame} {word : Segmentation} {edge index stop place : Nat}
  {slot : Slot} {slots : List Slot} {change : SoundChange}

theorem fills_cons_iff :
    frame.Fills word edge (slot :: slots) index stop ↔
      slot.boundary = true ∧ index = edge ∧ frame.Fills word edge slots index stop ∨
        slot.boundary = false ∧ index < word.length ∧
          (frame.fillsSlot word slot index).result = .ok true ∧
          frame.Fills word edge slots (index + 1) stop := by
  constructor
  · intro fills
    cases fills with
    | edge isEdge others => exact .inl ⟨isEdge, rfl, others⟩
    | sound isSound isInside isFilled others =>
        exact .inr ⟨isSound, isInside, isFilled, others⟩
  · rintro (⟨isEdge, rfl, others⟩ | ⟨isSound, isInside, isFilled, others⟩)
    · exact .edge isEdge others
    · exact .sound isSound isInside isFilled others

theorem fills_nil_iff : frame.Fills word edge [] index stop ↔ index = stop := by
  constructor
  · rintro ⟨⟩
    rfl
  · rintro rfl
    exact .nil index

theorem fills_append {left right : List Slot} :
    frame.Fills word edge (left ++ right) index stop ↔
      ∃ middle, frame.Fills word edge left index middle ∧
        frame.Fills word edge right middle stop := by
  induction left generalizing index with
  | nil => simp [fills_nil_iff]
  | cons slot slots inductionHypothesis =>
      simp only [List.cons_append, fills_cons_iff, inductionHypothesis, or_and_right, exists_or,
        exists_and_left, and_assoc]

theorem Fills.unique {other : Nat} (fills : frame.Fills word edge slots index stop)
    (fillsOther : frame.Fills word edge slots index other) : stop = other := by
  induction slots generalizing index with
  | nil => exact (fills_nil_iff.mp fills).symm.trans (fills_nil_iff.mp fillsOther)
  | cons slot slots inductionHypothesis =>
      rcases fills_cons_iff.mp fills with ⟨isEdge, -, first⟩ | ⟨isSound, -, -, first⟩
      · rcases fills_cons_iff.mp fillsOther with ⟨-, -, second⟩ | ⟨isSound, -⟩
        · exact inductionHypothesis first second
        · simp [isEdge] at isSound
      · rcases fills_cons_iff.mp fillsOther with ⟨isEdge, -⟩ | ⟨-, -, -, second⟩
        · simp [isSound] at isEdge
        · exact inductionHypothesis first second

/-- Where no slot is an edge, each takes one segment. -/
theorem Fills.stop_eq (fills : frame.Fills word edge slots index stop)
    (noEdge : ∀ slot ∈ slots, slot.boundary = false) : stop = index + slots.length := by
  induction fills with
  | nil index => rfl
  | edge isEdge others inductionHypothesis =>
      rw [noEdge _ List.mem_cons_self] at isEdge
      cases isEdge
  | sound isSound isInside fills others inductionHypothesis =>
      have further := inductionHypothesis fun slot isMember =>
        noEdge slot (List.mem_cons_of_mem _ isMember)
      rw [List.length_cons]
      omega

theorem splitSlots_noEdge (noEdge : ∀ slot ∈ slots, slot.boundary = false) :
    ∀ slot ∈ frame.splitSlots slots, slot.boundary = false := by
  intro slot isMember
  obtain ⟨whole, isWhole, isPart⟩ := List.mem_flatMap.mp isMember
  cases isLiteral : whole.literal with
  | some text =>
      rw [isLiteral] at isPart
      obtain ⟨segment, -, rfl⟩ := List.mem_map.mp isPart
      rfl
  | none =>
      rw [isLiteral] at isPart
      rw [List.mem_singleton.mp isPart]
      exact noEdge whole isWhole

section

variable (isSettled : word.IsSettled)

include isSettled

theorem settled_fillsSlot (slot : Slot) (index : Nat) :
    (frame.fillsSlot word slot index).IsSettled :=
  agree_fillsSlot rfl isSettled slot index

theorem settled_matchForward? (slots : List Slot) (index : Nat) :
    (frame.matchForward? word slots index).IsSettled :=
  agree_matchForward? rfl isSettled slots index

theorem settled_matchesBackward (slots : List Slot) (index : Nat) :
    (frame.matchesBackward word slots index).IsSettled :=
  agree_matchesBackward rfl isSettled slots index

theorem matchForward?_eq_ok :
    (frame.matchForward? word slots index).result = .ok (some stop) ↔
      frame.Fills word word.length slots index stop := by
  induction slots generalizing index with
  | nil =>
      constructor
      · rintro ⟨rfl⟩
        exact .nil _
      · intro fills
        cases fills
        rfl
  | cons slot slots inductionHypothesis =>
      rw [matchForward?, fills_cons_iff]
      by_cases isEdge : slot.boundary = true
      · by_cases atEdge : index = word.length
        · simp [isEdge, atEdge, inductionHypothesis]
        · simp [isEdge, atEdge]
      · by_cases isInside : index < word.length
        · rw [if_neg isEdge, if_pos isInside,
            IsSettled.result_bind_eq_ok (settled_fillsSlot isSettled slot index) fun _ =>
              agree_ite (fun _ => settled_matchForward? isSettled _ _) fun _ => agree_pure rfl]
          simp [isEdge, isInside, inductionHypothesis]
        · simp [isEdge, isInside]

/-- Slots that are given last first are filled up to an index. -/
theorem matchesBackward_eq_ok (isWithin : index ≤ word.length) :
    (frame.matchesBackward word slots index).result = .ok true ↔
      ∃ start, frame.Fills word 0 slots.reverse start index := by
  induction slots generalizing index with
  | nil => simp [matchesBackward, fills_nil_iff]
  | cons slot slots inductionHypothesis =>
      unfold matchesBackward
      simp only [List.reverse_cons, fills_append, fills_cons_iff, fills_nil_iff]
      by_cases isEdge : slot.boundary = true
      · by_cases atEdge : index = 0
        · simp [isEdge, atEdge, inductionHypothesis]
        · simp [isEdge, atEdge]
      · rw [if_neg isEdge]
        cases index with
        | zero => simp [isEdge]
        | succ index =>
            rw [IsSettled.result_bind_eq_ok (settled_fillsSlot isSettled slot index) fun _ =>
              agree_ite (fun _ => settled_matchesBackward isSettled _ _) fun _ => agree_pure rfl]
            have isInside : index < word.length := isWithin
            have further := inductionHypothesis (Nat.le_of_lt isInside)
            constructor
            · rintro ⟨filled, isFilled, gave⟩
              cases filled with
              | true =>
                  obtain ⟨start, fills⟩ := further.mp gave
                  exact ⟨start, index, fills,
                    .inr ⟨Bool.eq_false_iff.mpr isEdge, isInside, isFilled, rfl⟩⟩
              | false => cases gave
            · rintro ⟨start, middle, fills, ⟨isEdge', -⟩ | ⟨-, -, isFilled, same⟩⟩
              · exact absurd isEdge' isEdge
              · cases same
                exact ⟨true, isFilled, further.mpr ⟨start, fills⟩⟩

end

/-- A sound change whose runs of literal sounds are cut like words, with the slots of the left
neighbours given last first. -/
def prepared (frame : Frame) (change : SoundChange) : SoundChange where
  before := frame.splitSlots change.before
  after := frame.splitSlots change.after
  preceding := (frame.splitSlots change.preceding).reverse
  following := frame.splitSlots change.following

theorem settled_matchAt? (isSettled : word.IsSettled) (change : SoundChange) (index : Nat) :
    (frame.matchAt? word change index).IsSettled :=
  agree_matchAt? rfl isSettled change index

/-- What is asked of the neighbours, once the old sounds have been found up to an index. -/
def askNeighbours (frame : Frame) (word : Segmentation) (change : SoundChange)
    (place stop : Nat) : Session (Option Nat) := do
  match ← frame.matchForward? word change.following stop with
  | none => return none
  | some _ =>
    if ← frame.matchesBackward word change.preceding place then return some stop
    else return none

theorem matchAt?_eq (change : SoundChange) (place : Nat) :
    frame.matchAt? word change place = (do
      match ← frame.matchForward? word change.before place with
      | none => return none
      | some stop => frame.askNeighbours word change place stop) :=
  rfl

theorem settled_answer (isSettled : word.IsSettled) (change : SoundChange) (place stop : Nat) :
    IsSettled (do
      if ← frame.matchesBackward word change.preceding place then return some stop
      else return none : Session (Option Nat)) :=
  agree_bind_eq (settled_matchesBackward isSettled _ _) fun _ =>
    agree_ite (fun _ => agree_pure rfl) fun _ => agree_pure rfl

theorem settled_askNeighbours (isSettled : word.IsSettled) (change : SoundChange)
    (place stop : Nat) : (frame.askNeighbours word change place stop).IsSettled := by
  refine agree_bind_eq (settled_matchForward? isSettled _ _) fun finish? => ?_
  cases finish? with
  | none => exact agree_pure rfl
  | some finish => exact settled_answer isSettled change place stop

theorem askNeighbours_eq_ok (isSettled : word.IsSettled) {found : Nat} :
    (frame.askNeighbours word change place stop).result = .ok (some found) ↔
      (∃ finish,
        (frame.matchForward? word change.following stop).result = .ok (some finish)) ∧
      (frame.matchesBackward word change.preceding place).result = .ok true ∧ stop = found := by
  have answered : (do
      if ← frame.matchesBackward word change.preceding place then return some stop
      else return none : Session (Option Nat)).result = .ok (some found) ↔
        (frame.matchesBackward word change.preceding place).result = .ok true ∧
          stop = found := by
    rw [IsSettled.result_bind_eq_ok (settled_matchesBackward isSettled _ _) fun _ =>
      agree_ite (fun _ => agree_pure rfl) fun _ => agree_pure rfl]
    simp
  refine (IsSettled.result_bind_eq_ok (settled_matchForward? isSettled _ _)
    fun finish? => ?_).trans ?_
  · cases finish? with
    | none => exact agree_pure rfl
    | some finish => exact settled_answer isSettled change place stop
  · constructor
    · rintro ⟨_ | finish, isBehind, gave⟩
      · cases gave
      · exact ⟨⟨finish, isBehind⟩, answered.mp gave⟩
    · rintro ⟨⟨finish, isBehind⟩, isAnswered⟩
      exact ⟨some finish, isBehind, answered.mpr isAnswered⟩

/-- What is found at a place has been found in three steps. -/
theorem matchAt?_eq_ok_some (isSettled : word.IsSettled) :
    (frame.matchAt? word change place).result = .ok (some stop) ↔
      (frame.matchForward? word change.before place).result = .ok (some stop) ∧
        (∃ finish,
          (frame.matchForward? word change.following stop).result = .ok (some finish)) ∧
        (frame.matchesBackward word change.preceding place).result = .ok true := by
  rw [matchAt?_eq]
  refine (IsSettled.result_bind_eq_ok (settled_matchForward? isSettled _ _)
    fun stop? => ?_).trans ?_
  · cases stop? with
    | none => exact agree_pure rfl
    | some stop => exact settled_askNeighbours isSettled change place stop
  · constructor
    · rintro ⟨_ | found, isFound, gave⟩
      · cases gave
      · obtain ⟨isBehind, isBefore, rfl⟩ := (askNeighbours_eq_ok isSettled).mp gave
        exact ⟨isFound, isBehind, isBefore⟩
    · rintro ⟨isFound, isBehind, isBefore⟩
      exact ⟨some stop, isFound, (askNeighbours_eq_ok isSettled).mpr ⟨isBehind, isBefore, rfl⟩⟩

theorem matchAt?_eq_ok (isSettled : word.IsSettled) (isWithin : place ≤ word.length) :
    (frame.matchAt? word (frame.prepared change) place).result = .ok (some stop) ↔
      frame.IsMatch word change place ∧
        frame.Fills word word.length (frame.splitSlots change.before) place stop := by
  rw [matchAt?_eq_ok_some isSettled, matchForward?_eq_ok isSettled,
    matchesBackward_eq_ok isSettled isWithin]
  simp only [matchForward?_eq_ok isSettled, prepared, List.reverse_reverse]
  constructor
  · rintro ⟨stands, behind, before⟩
    exact ⟨⟨isWithin, ⟨stop, stands, behind⟩, before⟩, stands⟩
  · rintro ⟨isMatch, stands⟩
    obtain ⟨_, standsHere, behind⟩ := isMatch.stands
    cases stands.unique standsHere
    exact ⟨stands, behind, isMatch.follows⟩

/-- A place that was looked at and where nothing was found is no match. -/
theorem not_isMatch (isSettled : word.IsSettled)
    (gave : (frame.matchAt? word (frame.prepared change) place).result = .ok none) :
    ¬frame.IsMatch word change place := by
  intro isMatch
  obtain ⟨stop, stands, -⟩ := isMatch.stands
  have found := (matchAt?_eq_ok isSettled isMatch.isInside).mpr ⟨isMatch, stands⟩
  cases gave.symm.trans found

def widthOf (frame : Frame) (change : SoundChange) : Nat :=
  (frame.splitSlots change.before).length

/-- The segment that the k-th new sound of a match continues, while there are old ones. -/
def sourceAt? (place width k : Nat) : Option Nat :=
  if k < width then some (place + k) else none

theorem sourceAt?_eq_some {width k source : Nat} :
    sourceAt? place width k = some source ↔ k < width ∧ place + k = source := by
  unfold sourceAt?
  by_cases isOld : k < width
  · simp [isOld]
  · simp [isOld]

/-- The pieces that are written for a match at a place: one for each new sound, with what
that sound gives for the segment it continues. -/
def Writes (frame : Frame) (word : Segmentation) (change : SoundChange) (place : Nat)
    (output : List Piece) : Prop :=
  List.Forall₂
    (fun entry piece =>
      piece.source = sourceAt? place (frame.widthOf change) entry.2 ∧
        (frame.slotOutput word entry.1 piece.source).result = .ok piece.text)
    (frame.splitSlots change.after).zipIdx output

theorem settled_slotOutput (isSettled : word.IsSettled) (slot : Slot) (source : Option Nat) :
    (frame.slotOutput word slot source).IsSettled :=
  agree_slotOutput rfl isSettled slot source

theorem settled_outputPieces (isSettled : word.IsSettled) (slots : List Slot)
    (index old : Nat) : (frame.outputPieces word index old slots).IsSettled :=
  agree_outputPieces rfl isSettled slots index old

/-- Behind the last old sound it no longer matters where the match is. -/
theorem outputPieces_zero (slots : List Slot) (index other : Nat) :
    frame.outputPieces word index 0 slots = frame.outputPieces word other 0 slots := by
  induction slots with
  | nil => rfl
  | cons slot slots inductionHypothesis => rw [outputPieces, outputPieces, inductionHypothesis]

theorem outputPieces_cons (width k : Nat) :
    frame.outputPieces word (place + k) (width - k) (slot :: slots) = (do
      let text ← frame.slotOutput word slot (sourceAt? place width k)
      let output ← frame.outputPieces word (place + (k + 1)) (width - (k + 1)) slots
      return ⟨sourceAt? place width k, text⟩ :: output) := by
  by_cases isOld : k < width
  · have left : width - k = width - (k + 1) + 1 := by omega
    rw [left, outputPieces, sourceAt?, if_pos isOld]
    rfl
  · have left : width - k = 0 := by omega
    have leftBehind : width - (k + 1) = 0 := by omega
    rw [left, leftBehind, outputPieces, sourceAt?, if_neg isOld,
      outputPieces_zero slots (place + (k + 1)) (place + k)]

/-- The pieces for the new sounds from the k-th one on. -/
theorem writes_of_outputPieces (isSettled : word.IsSettled) {width k : Nat}
    {output : List Piece}
    (gave : (frame.outputPieces word (place + k) (width - k) slots).result = .ok output) :
    List.Forall₂
      (fun entry piece =>
        piece.source = sourceAt? place width entry.2 ∧
          (frame.slotOutput word entry.1 piece.source).result = .ok piece.text)
      (slots.zipIdx k) output := by
  induction slots generalizing k output with
  | nil =>
      cases width - k <;> cases gave <;> exact .nil
  | cons slot slots inductionHypothesis =>
      have others :
          (frame.outputPieces word (place + (k + 1)) (width - (k + 1)) slots).IsSettled :=
        settled_outputPieces isSettled slots _ _
      rw [outputPieces_cons, IsSettled.result_bind_eq_ok (settled_slotOutput isSettled slot _)
        fun _ => agree_bind_eq others fun _ => agree_pure rfl] at gave
      obtain ⟨text, isText, gave⟩ := gave
      obtain ⟨output, areOthers, ⟨⟩⟩ :=
        (IsSettled.result_bind_eq_ok others fun _ => agree_pure rfl).mp gave
      exact .cons ⟨rfl, isText⟩ (inductionHypothesis areOthers)

/-- The pieces that copy the segments from one index up to another one. -/
def copied (word : Segmentation) (start stop : Nat) : List Piece :=
  (List.range' start (stop - start)).flatMap (copiedPiece word)

/-- A word from an index on, with spans of some width replaced at some places and everything
else copied. -/
def spliced (word : Segmentation) (width : Nat) : Nat → List (Nat × List Piece) → List Piece
  | index, [] => copied word index word.length
  | index, (place, output) :: spots =>
    copied word index place ++ output ++ spliced word width (place + width) spots

theorem copied_self (index : Nat) : copied word index index = [] := by
  simp [copied]

theorem copied_of_lt (isBefore : index < stop) :
    copied word index stop = copiedPiece word index ++ copied word (index + 1) stop := by
  have left : stop - index = stop - (index + 1) + 1 := by omega
  rw [copied, left, List.range'_succ, List.flatMap_cons]
  rfl

theorem copiedPiece_of_le (isBehind : word.length ≤ index) : copiedPiece word index = [] := by
  have isNone : word.segmentText? index = none :=
    congrArg (Option.map Segment.text) (List.getElem?_eq_none isBehind)
  rw [copiedPiece, isNone]
  rfl

/-- A segment that no place is at is copied. -/
theorem spliced_of_lt {width : Nat} {spots : List (Nat × List Piece)}
    (areBehind : ∀ spot ∈ spots, index < spot.1) :
    spliced word width index spots =
      copiedPiece word index ++ spliced word width (index + 1) spots := by
  cases spots with
  | nil =>
      by_cases isInside : index < word.length
      · exact copied_of_lt isInside
      · have isBehind : word.length ≤ index := Nat.le_of_not_lt isInside
        have ended : word.length - index = 0 := by omega
        have endedBehind : word.length - (index + 1) = 0 := by omega
        simp [spliced, copied, ended, endedBehind, copiedPiece_of_le isBehind]
  | cons spot spots =>
      have isBefore := areBehind spot List.mem_cons_self
      simp only [spliced, copied_of_lt isBefore, List.append_assoc]

/-- What a search from an index on finds: matches that do not overlap, and between which no
match was passed over, each with what is written for it. -/
structure Selects (frame : Frame) (word : Segmentation) (change : SoundChange) (index : Nat)
    (spots : List (Nat × List Piece)) : Prop where
  areBehind : ∀ spot ∈ spots, index ≤ spot.1
  areApart : spots.Pairwise fun spot later =>
    spot.1 < later.1 ∧ spot.1 + frame.widthOf change ≤ later.1
  areMatches : ∀ spot ∈ spots, frame.IsMatch word change spot.1
  areAll : ∀ place, index ≤ place → frame.IsMatch word change place →
    (∀ spot ∈ spots, ¬(spot.1 ≤ place ∧ place < spot.1 + frame.widthOf change)) →
      ∃ spot ∈ spots, spot.1 = place
  areWritten : ∀ spot ∈ spots, frame.Writes word change spot.1 spot.2

theorem selects_end (isBehind : word.length < index) : frame.Selects word change index [] where
  areBehind := by simp
  areApart := .nil
  areMatches := by simp
  areAll place isBehind isMatch _ := by
    have isInside := isMatch.isInside
    omega
  areWritten := by simp

/-- Where nothing matches, the search goes on behind. -/
theorem Selects.of_not_isMatch {spots : List (Nat × List Piece)}
    (selects : frame.Selects word change (index + 1) spots)
    (isNone : ¬frame.IsMatch word change index) : frame.Selects word change index spots where
  areBehind spot isMember := Nat.le_of_succ_le (selects.areBehind spot isMember)
  areApart := selects.areApart
  areMatches := selects.areMatches
  areAll place isBehind isMatch isOutside := by
    have isFurther : place ≠ index := fun same => isNone (same ▸ isMatch)
    exact selects.areAll place (by omega) isMatch isOutside
  areWritten := selects.areWritten

/-- Where something matches, the search goes on behind the match, and at any rate behind the
place. -/
theorem Selects.cons {spots : List (Nat × List Piece)} {next : Nat} {output : List Piece}
    (selects : frame.Selects word change next spots) (isMatch : frame.IsMatch word change index)
    (isWritten : frame.Writes word change index output)
    (isNext : next = max (index + 1) (index + frame.widthOf change)) :
    frame.Selects word change index ((index, output) :: spots) where
  areBehind := by
    intro spot isMember
    rcases List.mem_cons.mp isMember with rfl | isMember
    · exact Nat.le_refl _
    · have isBehind := selects.areBehind spot isMember
      omega
  areApart := by
    refine List.pairwise_cons.mpr ⟨fun spot isMember => ?_, selects.areApart⟩
    have isBehind := selects.areBehind spot isMember
    omega
  areMatches := List.forall_mem_cons.mpr ⟨isMatch, selects.areMatches⟩
  areAll place isBehind isMatchThere isOutside := by
    obtain ⟨outsideHere, outsideOthers⟩ := List.forall_mem_cons.mp isOutside
    by_cases isHere : place = index
    · exact ⟨_, List.mem_cons_self, isHere.symm⟩
    · obtain ⟨spot, isMember, same⟩ :=
        selects.areAll place (by omega) isMatchThere outsideOthers
      exact ⟨spot, List.mem_cons_of_mem _ isMember, same⟩
  areWritten := List.forall_mem_cons.mpr ⟨isWritten, selects.areWritten⟩

theorem settled_changeFrom (isSettled : word.IsSettled) (change : SoundChange) (index : Nat) :
    (frame.changeFrom word change index).IsSettled :=
  agree_changeFrom rfl isSettled change index

/-- How the search goes on behind a match: at its end, or behind a segment that is copied if
the match covers none. -/
def changeBehind (frame : Frame) (word : Segmentation) (change : SoundChange)
    (index stop : Nat) (output : List Piece) : Session (Bool × List Piece) := do
  if index < stop then
    let found ← frame.changeFrom word change stop
    return (true, output ++ found.2)
  else
    let found ← frame.changeFrom word change (index + 1)
    return (true, output ++ copiedPiece word index ++ found.2)

theorem changeFrom_of_le (isWithin : index ≤ word.length) :
    frame.changeFrom word change index = (do
      match ← frame.matchAt? word change index with
      | none =>
        let found ← frame.changeFrom word change (index + 1)
        return (found.1, copiedPiece word index ++ found.2)
      | some stop =>
        let output ← frame.outputPieces word index change.before.length change.after
        frame.changeBehind word change index stop output) := by
  rw [changeFrom, if_pos isWithin]
  rfl

theorem settled_changeBehind (isSettled : word.IsSettled) (change : SoundChange)
    (index stop : Nat) (output : List Piece) :
    (frame.changeBehind word change index stop output).IsSettled :=
  agree_ite
    (fun _ => agree_bind_eq (settled_changeFrom isSettled _ _) fun _ => agree_pure rfl)
    fun _ => agree_bind_eq (settled_changeFrom isSettled _ _) fun _ => agree_pure rfl

theorem changeBehind_steps (isSettled : word.IsSettled) {output pieces : List Piece}
    {matched : Bool}
    (gave : (frame.changeBehind word change index stop output).result = .ok (matched, pieces)) :
    matched = true ∧ ∃ later others,
      (index < stop ∧ (frame.changeFrom word change stop).result = .ok (later, others) ∧
          pieces = output ++ others ∨
        stop ≤ index ∧ (frame.changeFrom word change (index + 1)).result = .ok (later, others) ∧
          pieces = output ++ copiedPiece word index ++ others) := by
  have goesOn (next : Nat) : (frame.changeFrom word change next).IsSettled :=
    settled_changeFrom isSettled change next
  by_cases covers : index < stop
  · rw [changeBehind, if_pos covers] at gave
    obtain ⟨⟨later, others⟩, areOthers, ⟨⟩⟩ :=
      (IsSettled.result_bind_eq_ok (goesOn _) fun _ => agree_pure rfl).mp gave
    exact ⟨rfl, later, others, .inl ⟨covers, areOthers, rfl⟩⟩
  · rw [changeBehind, if_neg covers] at gave
    obtain ⟨⟨later, others⟩, areOthers, ⟨⟩⟩ :=
      (IsSettled.result_bind_eq_ok (goesOn _) fun _ => agree_pure rfl).mp gave
    exact ⟨rfl, later, others, .inr ⟨Nat.le_of_not_lt covers, areOthers, rfl⟩⟩

/-- What one step of the search does: it copies a segment where nothing matches, and otherwise
it writes the output and goes on behind the match, where it copies a segment that an insertion
stands before. -/
theorem changeFrom_steps (isSettled : word.IsSettled) (isWithin : index ≤ word.length)
    {matched : Bool} {pieces : List Piece}
    (gave : (frame.changeFrom word change index).result = .ok (matched, pieces)) :
    ((frame.matchAt? word change index).result = .ok none ∧
      ∃ others, (frame.changeFrom word change (index + 1)).result = .ok (matched, others) ∧
        pieces = copiedPiece word index ++ others) ∨
    matched = true ∧ ∃ stop output later others,
      (frame.matchAt? word change index).result = .ok (some stop) ∧
      (frame.outputPieces word index change.before.length change.after).result = .ok output ∧
      (index < stop ∧ (frame.changeFrom word change stop).result = .ok (later, others) ∧
          pieces = output ++ others ∨
        stop ≤ index ∧ (frame.changeFrom word change (index + 1)).result = .ok (later, others) ∧
          pieces = output ++ copiedPiece word index ++ others) := by
  have written : (frame.outputPieces word index change.before.length change.after).IsSettled :=
    settled_outputPieces isSettled _ _ _
  rw [changeFrom_of_le isWithin] at gave
  obtain ⟨_ | stop, isFound, gave⟩ :=
    (IsSettled.result_bind_eq_ok (settled_matchAt? isSettled change index) fun stop? => by
      cases stop? with
      | none =>
          exact agree_bind_eq (settled_changeFrom isSettled _ _) fun _ => agree_pure rfl
      | some stop =>
          exact agree_bind_eq written (settled_changeBehind isSettled _ _ _)).mp gave
  · obtain ⟨⟨matched, others⟩, areOthers, ⟨⟩⟩ :=
      (IsSettled.result_bind_eq_ok (settled_changeFrom isSettled change (index + 1))
        fun _ => agree_pure rfl).mp gave
    exact .inl ⟨isFound, others, areOthers, rfl⟩
  · obtain ⟨output, isOutput, gave⟩ := (IsSettled.result_bind_eq_ok written
      (settled_changeBehind isSettled change index stop)).mp gave
    obtain ⟨isMatched, later, others, goesOn⟩ := changeBehind_steps isSettled gave
    exact .inr ⟨isMatched, stop, output, later, others, isFound, isOutput, goesOn⟩

/-- A search from an index on finds its matches and writes the word with them replaced. -/
theorem selects_of_changeFrom (isSettled : word.IsSettled)
    (noEdge : ∀ slot ∈ change.before, slot.boundary = false) {matched : Bool}
    {pieces : List Piece}
    (gave : (frame.changeFrom word (frame.prepared change) index).result =
      .ok (matched, pieces)) :
    ∃ spots, frame.Selects word change index spots ∧ matched = !spots.isEmpty ∧
      pieces = spliced word (frame.widthOf change) index spots := by
  induction left : word.length + 1 - index using Nat.strongRecOn
    generalizing index matched pieces with
  | ind left inductionHypothesis =>
      by_cases isWithin : index ≤ word.length
      · rcases changeFrom_steps isSettled isWithin gave with
          ⟨isNone, others, areOthers, rfl⟩ |
            ⟨rfl, stop, output, later, others, isFound, isOutput, goesOn⟩
        · obtain ⟨spots, selects, same, rfl⟩ :=
            inductionHypothesis _ (by omega) areOthers rfl
          refine ⟨spots, selects.of_not_isMatch (not_isMatch isSettled isNone), same, ?_⟩
          exact (spliced_of_lt selects.areBehind).symm
        · obtain ⟨isMatch, stands⟩ := (matchAt?_eq_ok isSettled isWithin).mp isFound
          have isStop : stop = index + frame.widthOf change :=
            stands.stop_eq (splitSlots_noEdge noEdge)
          have isWritten : frame.Writes word change index output :=
            writes_of_outputPieces isSettled isOutput
          rcases goesOn with ⟨covers, areOthers, rfl⟩ | ⟨inserts, areOthers, rfl⟩
          · obtain ⟨spots, selects, -, rfl⟩ := inductionHypothesis _ (by omega) areOthers rfl
            refine ⟨_, selects.cons isMatch isWritten (by omega), rfl, ?_⟩
            rw [spliced, copied_self, isStop, List.nil_append]
          · obtain ⟨spots, selects, -, rfl⟩ := inductionHypothesis _ (by omega) areOthers rfl
            refine ⟨_, selects.cons isMatch isWritten (by omega), rfl, ?_⟩
            have isEmpty : frame.widthOf change = 0 := by omega
            rw [spliced, copied_self, isEmpty, List.nil_append, Nat.add_zero index,
              spliced_of_lt selects.areBehind, List.append_assoc]
      · rw [changeFrom, if_neg isWithin] at gave
        cases gave
        refine ⟨[], selects_end (Nat.lt_of_not_le isWithin), rfl, ?_⟩
        have ended : word.length - index = 0 := by omega
        simp [spliced, copied, ended]

/-- The search in a limited number of rounds, which gives nothing where these do not do. -/
def changeInRounds (frame : Frame) (word : Segmentation) (change : SoundChange) :
    Nat → Nat → Session (Option (Bool × List Piece))
  | 0, index => return if index ≤ word.length then none else some (false, [])
  | rounds + 1, index => do
    if index ≤ word.length then
      match ← frame.matchAt? word change index with
      | none =>
        let rest? ← frame.changeInRounds word change rounds (index + 1)
        return rest?.map fun rest => (rest.1, copiedPiece word index ++ rest.2)
      | some stop =>
        let output ← frame.outputPieces word index change.before.length change.after
        if index < stop then
          let rest? ← frame.changeInRounds word change rounds stop
          return rest?.map fun rest => (true, output ++ rest.2)
        else
          let rest? ← frame.changeInRounds word change rounds (index + 1)
          return rest?.map fun rest => (true, output ++ copiedPiece word index ++ rest.2)
    else return some (false, [])

/-- Each round brings the search further, so it ends within as many rounds as there are
segments left, and one for the end of the word. -/
theorem changeInRounds_eq {rounds : Nat} (areEnough : word.length + 1 - index ≤ rounds) :
    frame.changeInRounds word change rounds index =
      some <$> frame.changeFrom word change index := by
  induction rounds generalizing index with
  | zero =>
      have isBehind : ¬index ≤ word.length := by omega
      rw [changeInRounds, changeFrom, if_neg isBehind, if_neg isBehind]
      rfl
  | succ rounds inductionHypothesis =>
      have further (next : Nat) (isFurther : index < next) :
          frame.changeInRounds word change rounds next =
            some <$> frame.changeFrom word change next := inductionHypothesis (by omega)
      rw [changeInRounds, changeFrom]
      by_cases isWithin : index ≤ word.length
      · rw [if_pos isWithin, if_pos isWithin, map_bind]
        refine bind_congr fun stop? => ?_
        cases stop? with
        | none => simp [further]
        | some stop =>
            by_cases covers : index < stop
            · simp [further, covers]
            · simp [further, covers]
      · rw [if_neg isWithin, if_neg isWithin]
        rfl

def formOf (frame : Frame) (form : WordForm) (pieces : List Piece) : WordForm :=
  form.withText (frame.withMarkOf form (pieces.flatMap Piece.text))
    (form.stressedIndex.bind (Piece.placeOf? pieces))

theorem changeSounds_eq (form : WordForm) :
    frame.changeSounds change form = (do
      let word ← frame.segmentation form
      let found ← frame.changeFrom word (frame.prepared change) 0
      return if found.1 then frame.formOf form found.2 else form) := by
  refine bind_congr fun word => bind_congr fun found => ?_
  obtain ⟨matched, pieces⟩ := found
  cases matched <;> rfl

theorem changeSounds_eq_ok {form changed : WordForm} {made : Inventories} :
    ((frame.changeSounds change form).on made).1 = .ok changed ↔
      ∃ matched pieces,
        (frame.changeFrom (frame.wordSeen made form) (frame.prepared change) 0).result =
          .ok (matched, pieces) ∧
        (if matched then frame.formOf form pieces else form) = changed := by
  have searched : (frame.changeFrom (frame.wordSeen made form) (frame.prepared change)
      0).IsSettled := settled_changeFrom (isSettled_wordSeen frame made form) _ 0
  rw [changeSounds_eq, on_segmentation (agree_bind_eq searched fun _ => agree_pure rfl),
    IsSettled.result_bind_eq_ok searched fun _ => agree_pure rfl]
  simp only [Prod.exists, result_pure, Except.ok.injEq]

/-- A sound change rewrites the leftmost matches.  Where its old sounds hold no edge of the word,
a change that does not fail has found places in the form, each of them a match on the sounds
of the form before the change, whose spans do not overlap and outside of whose spans nothing
else matches.  The new form is the old one with each span replaced by what the new sounds
write there, and it is the old one itself where there is no such place.  The search for them
ends, whatever the change is: it takes at most one round for each segment and one more. -/
theorem changeSounds_rewrites (frame : Frame) (change : SoundChange) (form : WordForm)
    (made : Inventories) :
    (∀ (word : Segmentation) (searched : SoundChange),
      frame.changeInRounds word searched (word.length + 1) 0 =
        some <$> frame.changeFrom word searched 0) ∧
    ∀ changed, (∀ slot ∈ change.before, slot.boundary = false) →
      ((frame.changeSounds change form).on made).1 = .ok changed →
      ∃ spots, frame.Selects (frame.wordSeen made form) change 0 spots ∧
        changed =
          if spots.isEmpty then form
          else frame.formOf form
            (spliced (frame.wordSeen made form) (frame.widthOf change) 0 spots) := by
  refine ⟨fun word searched => changeInRounds_eq (by omega), fun changed noEdge gave => ?_⟩
  obtain ⟨matched, pieces, found, rfl⟩ := changeSounds_eq_ok.mp gave
  obtain ⟨spots, selects, rfl, rfl⟩ :=
    selects_of_changeFrom (isSettled_wordSeen frame made form) noEdge found
  exact ⟨spots, selects, by cases spots <;> rfl⟩

def merging : SoundChange where
  before := [.sounds "aa"]
  after := [.sounds "b"]

/-- The surroundings of a rule from a language that knows no sounds. -/
def soundlessFrame : Frame :=
  Graph.outerFrame {} "-" { name := "soundless", shortName := "s" }
    (.ofLanguage { name := "soundless", shortName := "s" })

/-- Of two matches that overlap, the one to the left is taken. -/
theorem changeSounds_rewrites_merging :
    (∀ slot ∈ merging.before, slot.boundary = false) ∧
      ((soundlessFrame.changeSounds merging { text := "aaa-", language := "s" }).on {}).1 =
        .ok { text := "ba-", language := "s" } ∧
      ∃ spots, spots.isEmpty = false ∧ soundlessFrame.Selects
        (soundlessFrame.wordSeen {} { text := "aaa-", language := "s" }) merging 0 spots := by
  have noEdge : ∀ slot ∈ merging.before, slot.boundary = false := by decide
  have gave : ((soundlessFrame.changeSounds merging { text := "aaa-", language := "s" }).on {}).1 =
      .ok { text := "ba-", language := "s" } := by
    rw [← Except.toOption_eq_some]
    decide +kernel
  refine ⟨noEdge, gave, ?_⟩
  obtain ⟨spots, selects, isChanged⟩ := (changeSounds_rewrites soundlessFrame merging
    { text := "aaa-", language := "s" } {}).2 _ noEdge gave
  cases areNone : spots.isEmpty with
  | true =>
      rw [areNone, if_pos rfl] at isChanged
      exact absurd isChanged (by decide)
  | false => exact ⟨spots, areNone, selects⟩

end Frame

end Diachrony
