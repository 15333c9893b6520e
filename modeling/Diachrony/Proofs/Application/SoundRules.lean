import Diachrony.Proofs.Application.Seen

/-!
# Sound rules rewrite all sounds at once

A sound rule visits the segments of a form one after the other.  What it makes of a segment
is settled by that segment and by the word as it was before the rule: `Frame.Turns` says what
becomes of one segment, and `Frame.runSounds_iff` that a run of the rule gives just what the
segments become, each by itself, in whatever order they are visited.
-/
namespace Diachrony

open Work

/-- The tags of another phoneme are those of a phoneme with one of them exchanged. -/
def Phoneme.Exchanges (phoneme : Phoneme) (source target : Text) (other : Phoneme) : Prop :=
  ∀ name, name ∈ other.tags ↔ name = target ∨ name ∈ phoneme.tags ∧ name ≠ source

theorem Phoneme.tagged_iff {phoneme other : Phoneme} {source target : Text} :
    other.tagged (target :: phoneme.tags.filter fun tag => tag != source) = true ↔
      phoneme.Exchanges source target other := by
  simp only [Phoneme.tagged, Phoneme.Exchanges, Bool.and_eq_true, List.all_eq_true,
    List.contains_iff_mem, List.mem_cons, List.mem_filter, bne_iff_ne]
  constructor
  · rintro ⟨areWanted, areThere⟩ name
    exact ⟨areWanted name, areThere name⟩
  · intro same
    exact ⟨fun name isTag => (same name).mp isTag, fun name isWanted => (same name).mpr isWanted⟩

namespace Frame

section

variable (frame : Frame)

/-- The first phoneme of the language whose tags are those of a phoneme with one of them
exchanged. -/
def IsFirstExchange (phoneme : Phoneme) (source target : Text) (found : Phoneme) : Prop :=
  ∃ front back, frame.language.phonemes = front ++ found :: back ∧
    phoneme.Exchanges source target found ∧
    ∀ other ∈ front, ¬phoneme.Exchanges source target other

/-- A segment is a phoneme with some tag, and the language has a first phoneme in which that
tag is exchanged for another. -/
def IsExchangedFor (segment : Segment) (source target : Text) (found : Phoneme) : Prop :=
  ∃ phoneme, segment.phoneme = some phoneme ∧ source ∈ phoneme.tags ∧
    frame.IsFirstExchange phoneme source target found

def Exchanges (instruction : Instruction) (source target : Text) : Prop :=
  instruction.kind = .changeClass ∧
    instruction.argument = some source ∧ frame.inventory.hasClass source = true ∧
    instruction.target = some target ∧ frame.inventory.hasClass target = true

/-- What one instruction makes of a segment that has become some text, or has been
dropped. -/
inductive Makes (segment : Segment) (current : Option Text) (instruction : Instruction) :
    Option Text → Prop
  | newSound (isKind : instruction.kind = .changeSound) :
      Makes segment current instruction instruction.argument
  | dropped (isKind : instruction.kind = .dropSound) :
      Makes segment current instruction none
  | exchanged {source target : Text} {found : Phoneme}
      (exchanges : frame.Exchanges instruction source target)
      (isExchanged : frame.IsExchangedFor segment source target found) :
      Makes segment current instruction (some found.spelling)
  | unexchanged {source target : Text} (exchanges : frame.Exchanges instruction source target)
      (hasNone : ∀ found, ¬frame.IsExchangedFor segment source target found) :
      Makes segment current instruction current
  | aboutWords (isNew : instruction.kind ≠ .changeSound) (isDrop : instruction.kind ≠ .dropSound)
      (isExchange : instruction.kind ≠ .changeClass) :
      Makes segment current instruction current

/-- What instructions make of a segment, one after the other. -/
inductive MakesAll (segment : Segment) : Option Text → List Instruction → Option Text → Prop
  | nil (current : Option Text) : MakesAll segment current [] current
  | cons {current between last : Option Text} {instruction : Instruction}
      {instructions : List Instruction}
      (first : frame.Makes segment current instruction between)
      (others : MakesAll segment between instructions last) :
      MakesAll segment current (instruction :: instructions) last

variable (word : Segmentation) (form : WordForm)

/-- What a condition comes to at a segment of a word. -/
def Decides (index : Nat) (condition : Condition) (held : Bool) : Prop :=
  (Question.satisfies frame { form, word, index := some index } condition).result = .ok held

/-- What becomes of a segment: nothing new where no branch is about it, otherwise what the
instructions of the first branch whose condition holds make of its text. -/
inductive Turns (index : Nat) (segment : Segment) : List Branch → Option (Option Text) → Prop
  | untouched : Turns index segment [] none
  | taken {branch : Branch} {branches : List Branch} {result : Option Text}
      (holds : frame.Decides word form index branch.condition true)
      (makes : frame.MakesAll segment (some segment.text) branch.instructions result) :
      Turns index segment (branch :: branches) (some result)
  | passed {branch : Branch} {branches : List Branch} {turn : Option (Option Text)}
      (fails : frame.Decides word form index branch.condition false)
      (later : Turns index segment branches turn) :
      Turns index segment (branch :: branches) turn

end

variable {frame : Frame} {word : Segmentation} {form : WordForm} {index : Nat}
  {segment : Segment}

theorem phonemeTagged?_eq_some {phoneme : Phoneme} {source target spelling : Text} :
    frame.phonemeTagged? (target :: phoneme.tags.filter fun tag => tag != source) =
        some spelling ↔
      ∃ found, frame.IsFirstExchange phoneme source target found ∧
        found.spelling = spelling := by
  simp only [phonemeTagged?, Option.map_eq_some_iff, List.find?_eq_some_iff_append,
    Phoneme.tagged_iff, IsFirstExchange, Bool.not_eq_true']
  constructor
  · rintro ⟨found, ⟨exchanges, front, back, arePhonemes, others⟩, isSpelling⟩
    refine ⟨found, ⟨front, back, arePhonemes, exchanges, fun other isOther => ?_⟩, isSpelling⟩
    rw [← Phoneme.tagged_iff, others other isOther]
    exact Bool.false_ne_true
  · rintro ⟨found, ⟨front, back, arePhonemes, exchanges, others⟩, isSpelling⟩
    refine ⟨found, ⟨exchanges, front, back, arePhonemes, fun other isOther => ?_⟩, isSpelling⟩
    rw [← Bool.not_eq_true, Phoneme.tagged_iff]
    exact others other isOther

variable (frame) in
theorem exchangeClass?_of_segment (isSegment : word.segments[index]? = some segment)
    (source target : Text) :
    ∃ replacement?, frame.exchangeClass? word index source target = .ok replacement? ∧
      ∀ spelling, replacement? = some spelling ↔
        ∃ found, frame.IsExchangedFor segment source target found ∧
          found.spelling = spelling := by
  have isThere : word.segment? index = some segment := isSegment
  cases isPhoneme : segment.phoneme with
  | none => exact ⟨none, by simp [exchangeClass?, isThere, IsExchangedFor, isPhoneme]⟩
  | some phoneme =>
      by_cases isTagged : source ∈ phoneme.tags
      · refine ⟨frame.phonemeTagged? (target :: phoneme.tags.filter fun tag => tag != source),
          by simp [exchangeClass?, isThere, isPhoneme, isTagged], fun spelling => ?_⟩
        rw [phonemeTagged?_eq_some]
        simp [IsExchangedFor, isPhoneme, isTagged]
      · exact ⟨none, by simp [exchangeClass?, isThere, isPhoneme, isTagged, IsExchangedFor]⟩

theorem checkClassName_eq_ok {name : Option Text} :
    frame.checkClassName name = .ok () ↔
      ∃ text, name = some text ∧ frame.inventory.hasClass text = true := by
  unfold checkClassName
  split <;> simp_all [Option.any_eq_true]

/-- An instruction that exchanges classes gives the spelling of the phoneme that the segment
is exchanged for, if there is such a phoneme. -/
theorem exchange_eq_ok (isSegment : word.segments[index]? = some segment)
    {current next : Option Text} {instruction : Instruction}
    (isKind : instruction.kind = .changeClass) :
    (frame.changeSegment word index current instruction).result = .ok next ↔
      ∃ source target, frame.Exchanges instruction source target ∧
        ((∃ found, frame.IsExchangedFor segment source target found ∧
            next = some found.spelling) ∨
          (∀ found, ¬frame.IsExchangedFor segment source target found) ∧ next = current) := by
  unfold changeSegment
  simp only [isKind, result_liftM_bind, Except.check_eq_ok, checkClassName_eq_ok]
  constructor
  · rintro ⟨⟨source, isSource, sourceKnown⟩, ⟨target, isTarget, targetKnown⟩, gave⟩
    obtain ⟨replacement?, gives, finds⟩ :=
      exchangeClass?_of_segment frame isSegment source target
    refine ⟨source, target, ⟨isKind, isSource, sourceKnown, isTarget, targetKnown⟩, ?_⟩
    rw [isSource, isTarget] at gave
    change (frame.exchangeClass? word index source target >>= _) = _ at gave
    rw [gives] at gave
    cases replacement? with
    | none =>
        cases gave
        refine .inr ⟨fun found isFound => ?_, rfl⟩
        cases (finds _).mpr ⟨found, isFound, rfl⟩
    | some spelling =>
        cases gave
        obtain ⟨found, isFound, rfl⟩ := (finds spelling).mp rfl
        exact .inl ⟨found, isFound, rfl⟩
  · rintro ⟨source, target, ⟨-, isSource, sourceKnown, isTarget, targetKnown⟩, makes⟩
    obtain ⟨replacement?, gives, finds⟩ :=
      exchangeClass?_of_segment frame isSegment source target
    refine ⟨⟨source, isSource, sourceKnown⟩, ⟨target, isTarget, targetKnown⟩, ?_⟩
    rw [isSource, isTarget]
    change (frame.exchangeClass? word index source target >>= _) = _
    rw [gives]
    rcases makes with ⟨found, isFound, rfl⟩ | ⟨hasNone, rfl⟩
    · rw [(finds found.spelling).mpr ⟨found, isFound, rfl⟩]
      rfl
    · cases replacement? with
      | none => rfl
      | some spelling =>
          obtain ⟨found, isFound, -⟩ := (finds spelling).mp rfl
          exact absurd isFound (hasNone found)

/-- What an instruction gives for a segment is what it makes of that segment. -/
theorem changeSegment_eq_ok (isSegment : word.segments[index]? = some segment)
    {current next : Option Text} {instruction : Instruction} :
    (frame.changeSegment word index current instruction).result = .ok next ↔
      frame.Makes segment current instruction next := by
  have isInside : index < word.length := (List.getElem?_eq_some_iff.mp isSegment).1
  constructor
  · intro gave
    by_cases isExchange : instruction.kind = .changeClass
    · obtain ⟨source, target, exchanges, ⟨found, isFound, rfl⟩ | ⟨hasNone, rfl⟩⟩ :=
        (exchange_eq_ok isSegment isExchange).mp gave
      · exact .exchanged exchanges isFound
      · exact .unexchanged exchanges hasNone
    unfold changeSegment at gave
    cases isKind : instruction.kind with
    | changeSound =>
        simp only [isKind, if_pos isInside] at gave
        cases gave
        exact .newSound isKind
    | dropSound =>
        simp only [isKind, if_pos isInside] at gave
        cases gave
        exact .dropped isKind
    | changeClass => exact absurd isKind isExchange
    | _ =>
        simp only [isKind] at gave
        cases gave
        exact .aboutWords (by simp [isKind]) (by simp [isKind]) isExchange
  · intro makes
    cases makes with
    | newSound isKind => simp [changeSegment, isKind, isInside]
    | dropped isKind => simp [changeSegment, isKind, isInside]
    | exchanged exchanges isExchanged =>
        exact (exchange_eq_ok isSegment exchanges.1).mpr
          ⟨_, _, exchanges, .inl ⟨_, isExchanged, rfl⟩⟩
    | unexchanged exchanges hasNone =>
        exact (exchange_eq_ok isSegment exchanges.1).mpr
          ⟨_, _, exchanges, .inr ⟨hasNone, rfl⟩⟩
    | aboutWords isNew isDrop isExchange =>
        unfold changeSegment
        split <;> simp_all

section

variable (isSettled : word.IsSettled)

include isSettled

theorem settled_changeSegment (current : Option Text) (instruction : Instruction) :
    (frame.changeSegment word index current instruction).IsSettled :=
  agree_changeSegment rfl rfl isSettled index current instruction

theorem settled_changeSegments (current : Option Text) (instructions : List Instruction) :
    (instructions.foldlM (frame.changeSegment word index) current).IsSettled :=
  agree_foldlM (settled_changeSegment isSettled) instructions current

theorem settled_satisfies (condition : Condition) :
    (Question.satisfies frame { form, word, index := some index } condition).IsSettled :=
  Question.agree_satisfies rfl ⟨form, word, rfl, rfl, isSettled⟩ condition

theorem settled_segmentOutcome? (branches : List Branch) :
    (frame.segmentOutcome? word form branches index).IsSettled :=
  agree_segmentOutcome? rfl rfl rfl isSettled branches index

theorem settled_segmentOutcomes (branches : List Branch) (indices : List Nat) :
    (frame.segmentOutcomes word form branches indices).IsSettled :=
  agree_segmentOutcomes rfl rfl rfl isSettled branches indices

end

theorem changeSegments_eq_ok (isSettled : word.IsSettled)
    (isSegment : word.segments[index]? = some segment) {current last : Option Text}
    {instructions : List Instruction} :
    (instructions.foldlM (frame.changeSegment word index) current).result = .ok last ↔
      frame.MakesAll segment current instructions last := by
  induction instructions generalizing current with
  | nil =>
      constructor
      · rintro ⟨rfl⟩
        exact .nil _
      · intro makes
        cases makes
        rfl
  | cons instruction instructions inductionHypothesis =>
      rw [List.foldlM_cons,
        IsSettled.result_bind_eq_ok (settled_changeSegment isSettled current instruction)
          fun between => settled_changeSegments isSettled between instructions]
      simp only [changeSegment_eq_ok isSegment, inductionHypothesis]
      constructor
      · rintro ⟨between, first, others⟩
        exact .cons first others
      · intro makes
        cases makes with
        | cons first others => exact ⟨_, first, others⟩

theorem segmentOutcome?_cons {branch : Branch} {branches : List Branch} :
    frame.segmentOutcome? word form (branch :: branches) index = (do
      if ← Question.satisfies frame { form, word, index := some index } branch.condition then
        return some (← branch.instructions.foldlM (frame.changeSegment word index)
          (word.segmentText? index))
      else frame.segmentOutcome? word form branches index) := by
  rw [segmentOutcome?, Question.firstBranch?, bind_assoc]
  refine bind_congr fun held => ?_
  cases held <;> rfl

/-- What is worked out for a segment is what becomes of it. -/
theorem segmentOutcome?_eq_ok (isSettled : word.IsSettled)
    (isSegment : word.segments[index]? = some segment) {branches : List Branch}
    {turn : Option (Option Text)} :
    (frame.segmentOutcome? word form branches index).result = .ok turn ↔
      frame.Turns word form index segment branches turn := by
  have changes (branch : Branch) :
      (branch.instructions.foldlM (frame.changeSegment word index)
        (word.segmentText? index)).IsSettled := settled_changeSegments isSettled _ _
  have isText : word.segmentText? index = some segment.text :=
    congrArg (Option.map Segment.text) isSegment
  induction branches generalizing turn with
  | nil =>
      constructor
      · rintro ⟨rfl⟩
        exact .untouched
      · intro turns
        cases turns
        rfl
  | cons branch branches inductionHypothesis =>
      rw [segmentOutcome?_cons, IsSettled.result_bind_eq_ok
        (settled_satisfies isSettled branch.condition) fun held =>
          agree_ite (fun _ => agree_bind_eq (changes branch) fun _ => agree_pure rfl) fun _ =>
            settled_segmentOutcome? isSettled branches]
      constructor
      · rintro ⟨held, decides, gave⟩
        cases held with
        | true =>
            obtain ⟨result, made, ⟨rfl⟩⟩ := (IsSettled.result_bind_eq_ok (changes branch)
              fun _ => agree_pure rfl).mp gave
            rw [isText, changeSegments_eq_ok isSettled isSegment] at made
            exact .taken decides made
        | false => exact .passed decides (inductionHypothesis.mp gave)
      · intro turns
        cases turns with
        | taken holds makes =>
            refine ⟨true, holds, (IsSettled.result_bind_eq_ok (changes branch)
              fun _ => agree_pure rfl).mpr ⟨_, ?_, rfl⟩⟩
            rw [isText, changeSegments_eq_ok isSettled isSegment]
            exact makes
        | passed fails later => exact ⟨false, fails, inductionHypothesis.mpr later⟩

/-- A segment turns into something where the condition of some branch holds. -/
theorem Turns.isSome_iff {branches : List Branch} {turn : Option (Option Text)}
    (turns : frame.Turns word form index segment branches turn) :
    turn.isSome = true ↔
      ∃ branch ∈ branches, frame.Decides word form index branch.condition true := by
  induction turns with
  | untouched => simp
  | taken holds makes =>
      exact iff_of_true rfl ⟨_, List.mem_cons_self, holds⟩
  | passed fails later inductionHypothesis =>
      rw [inductionHypothesis, List.exists_mem_cons_iff, or_iff_right]
      intro holds
      cases fails.symm.trans holds

section

variable {branches : List Branch} {indices : List Nat} {turned : Nat → Option (Option Text)}

theorem segmentOutcomes_cons_eq_ok (isSettled : word.IsSettled)
    {outcomes : List (Nat × Option Text)} :
    (frame.segmentOutcomes word form branches (index :: indices)).result = .ok outcomes ↔
      ∃ turn, (frame.segmentOutcome? word form branches index).result = .ok turn ∧
        ∃ others, (frame.segmentOutcomes word form branches indices).result = .ok others ∧
          outcomes = (turn.map (Prod.mk index)).toList ++ others := by
  have rest : (frame.segmentOutcomes word form branches indices).IsSettled :=
    settled_segmentOutcomes isSettled branches indices
  refine (IsSettled.result_bind_eq_ok (settled_segmentOutcome? isSettled branches)
    fun turn => agree_bind_eq rest fun others => ?_).trans
    (exists_congr fun turn => and_congr_right fun _ =>
      (IsSettled.result_bind_eq_ok rest fun others => ?_).trans
        (exists_congr fun others => and_congr_right fun _ => ?_))
  · cases turn <;> exact agree_pure rfl
  · cases turn <;> exact agree_pure rfl
  · cases turn <;> simp [eq_comm]

theorem segmentOutcomes_of_turned (isSettled : word.IsSettled)
    (turns : ∀ index ∈ indices,
      (frame.segmentOutcome? word form branches index).result = .ok (turned index)) :
    (frame.segmentOutcomes word form branches indices).result =
      .ok (indices.filterMap fun index => (turned index).map (Prod.mk index)) := by
  induction indices with
  | nil => rfl
  | cons index indices inductionHypothesis =>
      obtain ⟨first, others⟩ := List.forall_mem_cons.mp turns
      refine (segmentOutcomes_cons_eq_ok isSettled).mpr
        ⟨turned index, first, _, inductionHypothesis others, ?_⟩
      cases isTurned : turned index <;> simp [isTurned]

theorem exists_turn_of_segmentOutcomes (isSettled : word.IsSettled)
    {outcomes : List (Nat × Option Text)}
    (gave : (frame.segmentOutcomes word form branches indices).result = .ok outcomes) :
    ∀ index ∈ indices, ∃ turn,
      (frame.segmentOutcome? word form branches index).result = .ok turn := by
  induction indices generalizing outcomes with
  | nil => simp
  | cons index indices inductionHypothesis =>
      obtain ⟨turn, first, others, areOthers, -⟩ :=
        (segmentOutcomes_cons_eq_ok isSettled).mp gave
      exact List.forall_mem_cons.mpr ⟨⟨turn, first⟩, inductionHypothesis areOthers⟩

/-- Of the segments that were visited, what is looked up is what they have become. -/
theorem lookup_turned (indices : List Nat) (turned : Nat → Option (Option Text)) (index : Nat) :
    (indices.filterMap fun index => (turned index).map (Prod.mk index)).lookup index =
      if index ∈ indices then turned index else none := by
  induction indices with
  | nil => rfl
  | cons other indices inductionHypothesis =>
      by_cases isOther : index = other
      · subst isOther
        cases isTurned : turned index with
        | none => simp [isTurned, inductionHypothesis]
        | some result => simp [isTurned]
      · cases isTurned : turned other with
        | none => simp [isTurned, inductionHypothesis, isOther]
        | some result =>
            simp [isTurned, inductionHypothesis, isOther, List.lookup_cons,
              beq_eq_false_iff_ne.mpr isOther]

end

end Frame

/-- What the segments of a word come to, when some of them have turned into something. -/
def Segmentation.resultsOf (word : Segmentation) (turned : Nat → Option (Option Text)) :
    List (Option Text) :=
  word.segments.zipIdx.map fun (segment, index) => (turned index).getD (some segment.text)

/-- What the segments of a word come to, by what the visited ones have become. -/
def Segmentation.resultsWith (word : Segmentation) (outcomes : List (Nat × Option Text)) :
    List (Option Text) :=
  word.segments.zipIdx.map fun (segment, index) =>
    (outcomes.lookup index).getD (some segment.text)

def WordForm.stressAfter (form : WordForm) (results : List (Option Text)) :
    Except Error (Option Int) :=
  match form.stressedIndex with
  | none => .ok none
  | some index => stressAfterDrops results index

namespace Frame

/-- What a sound rule gives for a form, by what each segment of the word turns into.  The
rule applies where some condition holds at some segment; then the text is that of what the
segments come to, one behind the other, with the mark that the form ends with. -/
structure Rewrites (frame : Frame) (word : Segmentation) (form : WordForm)
    (branches : List Branch) (turned : Nat → Option (Option Text)) (outcome : Outcome) :
    Prop where
  turns : ∀ index segment, word.segments[index]? = some segment →
    frame.Turns word form index segment branches (turned index)
  applied : outcome.applied = true ↔
    ∃ index < word.length, ∃ branch ∈ branches,
      frame.Decides word form index branch.condition true
  unchanged : outcome.applied = false → outcome.form = form
  changed : outcome.applied = true →
    ∃ stressed, form.stressAfter (word.resultsOf turned) = .ok stressed ∧
      outcome.form = form.withText
        (frame.withMarkOf form ((word.resultsOf turned).flatMap fun result => result.getD []))
        stressed

section

variable {frame : Frame} {form : WordForm} {made : Inventories} {branches : List Branch}
  {visited : Option (List Nat)}

/-- What a run of a sound rule gives, once it is known what the visited segments have
become. -/
def finished (frame : Frame) (word : Segmentation) (form : WordForm)
    (outcomes : List (Nat × Option Text)) : Except Error Outcome :=
  if outcomes.isEmpty then .ok ⟨false, form⟩
  else
    (form.stressAfter (word.resultsWith outcomes)).map fun stressed =>
      ⟨true, form.withText
        (frame.withMarkOf form ((word.resultsWith outcomes).filterMap id).flatten) stressed⟩

theorem runSounds_eq :
    frame.runSounds branches form visited = (do
      let word ← frame.segmentation form
      let outcomes ← frame.segmentOutcomes word form branches
        (visited.getD (List.range word.length))
      liftM (frame.finished word form outcomes)) := by
  refine bind_congr fun word => bind_congr fun outcomes => ?_
  simp only [finished, WordForm.stressAfter, Segmentation.resultsWith]
  split
  · rfl
  · cases form.stressedIndex with
    | none => rfl
    | some index =>
        dsimp only
        cases stressAfterDrops _ index <;> rfl

/-- What the segments have become is what a run in which all of them were visited finds. -/
theorem finished_of_turned {word : Segmentation} {indices : List Nat}
    {turned : Nat → Option (Option Text)}
    (visitsAll : ∀ index, index ∈ indices ↔ index < word.length) :
    frame.finished word form
        (indices.filterMap fun index => (turned index).map (Prod.mk index)) =
      if ∀ index < word.length, turned index = none then .ok ⟨false, form⟩
      else
        (form.stressAfter (word.resultsOf turned)).map fun stressed =>
          ⟨true, form.withText (frame.withMarkOf form
            ((word.resultsOf turned).flatMap fun result => result.getD [])) stressed⟩ := by
  have sameResults : word.resultsWith (indices.filterMap fun index =>
      (turned index).map (Prod.mk index)) = word.resultsOf turned := by
    refine List.map_congr_left fun ⟨segment, index⟩ isMember => ?_
    have isInside : index < word.length := by
      simpa [Segmentation.length] using List.snd_lt_of_mem_zipIdx isMember
    simp only [lookup_turned, if_pos ((visitsAll index).mpr isInside)]
  have sameText : ((word.resultsOf turned).filterMap id).flatten =
      (word.resultsOf turned).flatMap fun result => result.getD [] := by
    induction word.resultsOf turned with
    | nil => rfl
    | cons result results inductionHypothesis =>
        cases result with
        | none => exact inductionHypothesis
        | some text => exact congrArg (text ++ ·) inductionHypothesis
  have nothing : (indices.filterMap fun index => (turned index).map (Prod.mk index)).isEmpty =
      true ↔ ∀ index < word.length, turned index = none := by
    simp [List.isEmpty_iff, List.filterMap_eq_nil_iff, visitsAll]
  simp only [finished, nothing, sameResults, sameText]

theorem runSounds_eq_ok {outcome : Outcome} :
    ((frame.runSounds branches form visited).on made).1 = .ok outcome ↔
      ∃ outcomes, (frame.segmentOutcomes (frame.wordSeen made form) form branches
          (visited.getD (List.range (frame.wordSeen made form).length))).result = .ok outcomes ∧
        frame.finished (frame.wordSeen made form) form outcomes = .ok outcome := by
  have settled (indices : List Nat) : (frame.segmentOutcomes (frame.wordSeen made form) form
      branches indices).IsSettled :=
    settled_segmentOutcomes (isSettled_wordSeen frame made form) branches indices
  rw [runSounds_eq, on_segmentation (agree_bind_eq (settled _) fun _ => agree_liftM _),
    IsSettled.result_bind_eq_ok (settled _) fun _ => agree_liftM _]
  rfl

/-- What a run gives is what the segments turn into, where it is known what they do. -/
theorem rewrites_iff {word : Segmentation} {turned : Nat → Option (Option Text)} {outcome : Outcome}
    (turns : ∀ index segment, word.segments[index]? = some segment →
      frame.Turns word form index segment branches (turned index)) :
    frame.Rewrites word form branches turned outcome ↔
      (if ∀ index < word.length, turned index = none then .ok ⟨false, form⟩
      else
        (form.stressAfter (word.resultsOf turned)).map fun stressed =>
          ⟨true, form.withText (frame.withMarkOf form
            ((word.resultsOf turned).flatMap fun result => result.getD [])) stressed⟩) =
        .ok outcome := by
  have applies : (∃ index < word.length, ∃ branch ∈ branches,
      frame.Decides word form index branch.condition true) ↔
        ¬∀ index < word.length, turned index = none := by
    push Not
    refine exists_congr fun index => and_congr_right fun isInside => ?_
    rw [← (turns index _ (List.getElem?_eq_getElem isInside)).isSome_iff, Option.isSome_iff_ne_none]
  obtain ⟨applied, result⟩ := outcome
  by_cases areNone : ∀ index < word.length, turned index = none
  · rw [if_pos areNone]
    have notApplied := (not_congr applies).mpr (not_not.mpr areNone)
    constructor
    · intro rewrites
      have isFalse : applied = false :=
        Bool.eq_false_iff.mpr fun isTrue => notApplied (rewrites.applied.mp isTrue)
      have isSame : result = form := rewrites.unchanged isFalse
      rw [isFalse, isSame]
    · rintro ⟨⟩
      exact ⟨turns, iff_of_false Bool.false_ne_true notApplied, fun _ => rfl,
        fun isTrue => nomatch isTrue⟩
  · rw [if_neg areNone, Except.map_eq_ok]
    have isApplied := applies.mpr areNone
    constructor
    · intro rewrites
      have isTrue : applied = true := rewrites.applied.mpr isApplied
      obtain ⟨stressed, isStress, isResult⟩ := rewrites.changed isTrue
      exact ⟨stressed, isStress, by rw [isTrue, ← isResult]⟩
    · rintro ⟨stressed, isStress, ⟨⟩⟩
      exact ⟨turns, iff_of_true rfl isApplied, (fun isFalse => nomatch isFalse),
        fun _ => ⟨stressed, isStress, rfl⟩⟩

end

/-- A sound rule rewrites all segments of a form at once.  A run gives an outcome just where
each segment, asked on the word before the rule and by itself, turns into something or stays as
it is, and where the outcome is what the segments come to.  The order in which the segments are
visited has no part in it. -/
theorem runSounds_iff (frame : Frame) (branches : List Branch) (form : WordForm)
    (made : Inventories) {visited : Option (List Nat)}
    (visitsAll : (visited.getD (List.range (frame.wordSeen made form).length)).Perm
      (List.range (frame.wordSeen made form).length)) (outcome : Outcome) :
    ((frame.runSounds branches form visited).on made).1 = .ok outcome ↔
      ∃ turned, frame.Rewrites (frame.wordSeen made form) form branches turned outcome := by
  have isSettled := isSettled_wordSeen frame made form
  have visits (index : Nat) : index ∈ visited.getD (List.range (frame.wordSeen made form).length) ↔
      index < (frame.wordSeen made form).length := visitsAll.mem_iff.trans List.mem_range
  rw [runSounds_eq_ok]
  constructor
  · rintro ⟨outcomes, gave, isFinished⟩
    choose! turned turns using exists_turn_of_segmentOutcomes isSettled gave
    rw [segmentOutcomes_of_turned isSettled turns] at gave
    cases gave
    rw [finished_of_turned visits] at isFinished
    refine ⟨turned, (rewrites_iff fun index segment isSegment => ?_).mpr isFinished⟩
    have isInside := (List.getElem?_eq_some_iff.mp isSegment).1
    exact (segmentOutcome?_eq_ok isSettled isSegment).mp (turns index ((visits index).mpr isInside))
  · rintro ⟨turned, rewrites⟩
    have turns : ∀ index ∈ visited.getD (List.range (frame.wordSeen made form).length),
        (frame.segmentOutcome? (frame.wordSeen made form) form branches index).result =
          .ok (turned index) := by
      intro index isVisited
      have isInside := (visits index).mp isVisited
      have isSegment := List.getElem?_eq_getElem isInside
      exact (segmentOutcome?_eq_ok isSettled isSegment).mpr (rewrites.turns index _ isSegment)
    refine ⟨_, segmentOutcomes_of_turned isSettled turns, ?_⟩
    rw [finished_of_turned visits]
    exact (rewrites_iff rewrites.turns).mp rewrites

/-- A language with a vowel and two plosives that differ in voice. -/
def plosives : Language :=
  { name := "plosives", shortName := "p"
    phonemes := [
      { spelling := "a", tags := ["vowel"] },
      { spelling := "p", tags := ["voiceless", "plosive"] },
      { spelling := "b", tags := ["plosive", "voiced"] }] }

/-- The inventory of that language, whose spellings are all of one length. -/
def plosiveInventory : Inventory :=
  { language := plosives
    spellings := plosives.phonemes.map fun phoneme => (phoneme.spelling, phoneme)
    tags := (plosives.phonemes.flatMap Phoneme.classes).eraseDups }

theorem ofLanguage_plosives : Inventory.ofLanguage plosives = plosiveInventory := by
  have sorted : (plosives.phonemes.map fun phoneme => (phoneme.spelling, phoneme)).mergeSort
      (fun left right => decide (right.1.length ≤ left.1.length)) =
        plosives.phonemes.map fun phoneme => (phoneme.spelling, phoneme) :=
    List.mergeSort_of_pairwise (by decide)
  simp only [Inventory.ofLanguage, plosiveInventory]
  congr 1

/-- The surroundings of a rule from that language. -/
def plosiveFrame : Frame := Graph.outerFrame {} "-" plosives (.ofLanguage plosives)

/-- Voiced sounds lose their voice behind vowels, and vowels are dropped. -/
def devoicing : List Branch :=
  [{ condition := .all [
        .holds { test := .sound .previous, pattern := some { soundClass := some "vowel" } },
        .holds { test := .sound .here, pattern := some { soundClass := some "voiced" } }]
     instructions := [
        { kind := .changeClass, argument := some "voiced", target := some "voiceless" }] },
   { condition := .holds { test := .sound .here, pattern := some { soundClass := some "vowel" } }
     instructions := [{ kind := .dropSound }] }]

/-- A vowel that is dropped still devoices the sound behind it, whichever is visited first. -/
theorem runSounds_iff_devoicing :
    ((some [3, 0, 2, 1]).getD
        (List.range (plosiveFrame.wordSeen {} { text := "abab-", language := "p" }).length)).Perm
          (List.range (plosiveFrame.wordSeen {} { text := "abab-", language := "p" }).length) ∧
      ∃ outcome turned, outcome.form.text = ("pp-" : Text) ∧
        plosiveFrame.Rewrites (plosiveFrame.wordSeen {} { text := "abab-", language := "p" })
          { text := "abab-", language := "p" } devoicing turned outcome := by
  have visitsAll : ((some [3, 0, 2, 1]).getD
      (List.range (plosiveFrame.wordSeen {} { text := "abab-", language := "p" }).length)).Perm
        (List.range (plosiveFrame.wordSeen {} { text := "abab-", language := "p" }).length) := by
    rw [plosiveFrame, ofLanguage_plosives]
    decide +kernel
  have isSeen : ((plosiveFrame.runSounds devoicing { text := "abab-", language := "p" }
      (some [3, 0, 2, 1])).on {}).1.toOption.map (fun outcome => outcome.form.text) =
        some ("pp-" : Text) := by
    rw [plosiveFrame, ofLanguage_plosives]
    decide +kernel
  obtain ⟨outcome, gave, isText⟩ := Except.exists_of_toOption_map isSeen
  rw [runSounds_iff plosiveFrame devoicing _ _ visitsAll outcome] at gave
  obtain ⟨turned, rewrites⟩ := gave
  exact ⟨visitsAll, outcome, turned, isText, rewrites⟩

end Frame

end Diachrony
