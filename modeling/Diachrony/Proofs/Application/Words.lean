import Diachrony.Application.Conditions
import Diachrony.Proofs.Session

/-!
# Questions about words that differ in how their stress is worked out

A word carries a session that works out its stress.  Two words that are alike but
for that session, where the two sessions agree, get the same answers to all
questions: about classes, patterns and sought sounds here, and then about
conditions and branches.
-/
namespace Diachrony

open Work

variable {σ τ : Type} {Kept : σ → τ → Prop}

namespace Segmentation

def withStress (word : Segmentation σ) (stress : Work τ (Option Int)) : Segmentation τ :=
  { inventory := word.inventory, text := word.text, segments := word.segments
    syllables := word.syllables, stress }

/-- Words that are the same but for how their stress is worked out, where the two
ways agree. -/
def Alike (Kept : σ → τ → Prop) (word : Segmentation σ) (other : Segmentation τ) : Prop :=
  ∃ stress, other = word.withStress stress ∧ AgreeOn Kept (· = ·) word.stress stress

variable {word : Segmentation σ} {other : Segmentation τ}

theorem agree_satisfies (alike : Alike Kept word other) (index : Nat)
    (term : ClassTerm) :
    AgreeOn Kept (· = ·) (word.satisfies index term) (other.satisfies index term) := by
  obtain ⟨stress, rfl, agreed⟩ := alike
  induction term with
  | tag name => exact agree_pure rfl
  | positional kind =>
      cases kind with
      | stressed => exact agree_bind_eq agreed fun _ => agree_pure rfl
      | _ => exact agree_pure rfl
  | non term inductionHypothesis =>
      exact agree_bind_eq inductionHypothesis fun _ => agree_pure rfl

theorem agree_satisfiesAll (alike : Alike Kept word other) (index : Nat)
    (terms : List ClassTerm) :
    AgreeOn Kept (· = ·) (word.satisfiesAll index terms)
      (other.satisfiesAll index terms) := by
  induction terms with
  | nil => exact agree_pure rfl
  | cons term terms inductionHypothesis =>
      refine agree_bind_eq (agree_satisfies alike index term) fun _ => ?_
      exact agree_ite (fun _ => inductionHypothesis) fun _ => agree_pure rfl

theorem agree_matchesAt (alike : Alike Kept word other) (index : Int)
    (pattern : SoundPattern) :
    AgreeOn Kept (· = ·) (word.matchesAt index pattern)
      (other.matchesAt index pattern) := by
  have all := agree_satisfiesAll alike index.toNat
  obtain ⟨stress, rfl, -⟩ := alike
  have same : (word.withStress stress).segment? index = word.segment? index := rfl
  unfold matchesAt
  rw [same]
  cases word.segment? index with
  | none => exact agree_pure rfl
  | some segment =>
      cases pattern.literal with
      | some text => exact agree_pure rfl
      | none => exact agree_lookup fun terms _ => all terms

theorem agree_matchesAmong (alike : Alike Kept word other) (pattern : SoundPattern)
    (indices : List Int) :
    AgreeOn Kept (· = ·) (word.matchesAmong pattern indices)
      (other.matchesAmong pattern indices) := by
  induction indices with
  | nil => exact agree_pure rfl
  | cons index indices inductionHypothesis =>
      refine agree_bind_eq (agree_matchesAt alike index pattern) fun _ => ?_
      exact agree_ite (fun _ => agree_pure rfl) fun _ => inductionHypothesis

theorem agree_matchesSpan (alike : Alike Kept word other) (start stop : Int)
    (pattern : SoundPattern) :
    AgreeOn Kept (· = ·) (word.matchesSpan start stop pattern)
      (other.matchesSpan start stop pattern) := by
  have among := agree_matchesAmong alike pattern (indicesFrom start stop)
  obtain ⟨stress, rfl, -⟩ := alike
  exact agree_ite (fun _ => agree_pure rfl) fun _ => among

theorem agree_placesFrom (alike : Alike Kept word other) (terms : List ClassTerm)
    (index : Nat) (segments : List Segment) :
    AgreeOn Kept (· = ·) (word.placesFrom terms index segments)
      (other.placesFrom terms index segments) := by
  induction segments generalizing index with
  | nil => exact agree_pure rfl
  | cons segment segments inductionHypothesis =>
      refine agree_bind_eq (agree_satisfiesAll alike index terms) fun _ => ?_
      exact agree_bind_eq (inductionHypothesis (index + 1)) fun _ => agree_pure rfl

theorem agree_seek (alike : Alike Kept word other) (target : SeekTarget) :
    AgreeOn Kept (· = ·) (word.seek target) (other.seek target) := by
  refine agree_bind_eq ?_ fun _ => agree_pure rfl
  unfold places
  cases target.soundClass with
  | none =>
      obtain ⟨stress, rfl, -⟩ := alike
      exact agree_pure rfl
  | some expression =>
      have from_ := agree_placesFrom alike
      obtain ⟨stress, rfl, -⟩ := alike
      exact agree_lookup fun terms _ => from_ terms 0 word.segments

end Segmentation

namespace Question

/-- The same question of words that are alike, and of forms in the same classes. -/
def Alike (Kept : σ → τ → Prop) (question : Question σ) (other : Question τ) : Prop :=
  ∃ form word, other = { form, word, index := question.index } ∧
    form.classes = question.form.classes ∧ Segmentation.Alike Kept question.word word

variable {question : Question σ} {other : Question τ} {word : Segmentation σ}
  {otherWord : Segmentation τ}

theorem agree_endsLike (alike : Segmentation.Alike Kept word otherWord)
    (pattern : SoundPattern) :
    AgreeOn Kept (· = ·) (endsLike word pattern) (endsLike otherWord pattern) := by
  have last := Segmentation.agree_matchesAt alike (word.length - 1) pattern
  obtain ⟨stress, rfl, -⟩ := alike
  unfold endsLike
  cases pattern.literal with
  | some text => exact agree_pure rfl
  | none => exact last

theorem agree_beginsLike (alike : Segmentation.Alike Kept word otherWord)
    (pattern : SoundPattern) :
    AgreeOn Kept (· = ·) (beginsLike word pattern) (beginsLike otherWord pattern) := by
  have first := Segmentation.agree_matchesAt alike 0 pattern
  obtain ⟨stress, rfl, -⟩ := alike
  unfold beginsLike
  cases pattern.literal with
  | some text => exact agree_pure rfl
  | none => exact first

theorem agree_syllableLike (alike : Segmentation.Alike Kept word otherWord)
    (syllable : Syllable) (pattern : SoundPattern) (part : SyllablePart) :
    AgreeOn Kept (· = ·) (syllableLike word syllable pattern part)
      (syllableLike otherWord syllable pattern part) := by
  have span := Segmentation.agree_matchesSpan alike syllable.start syllable.stop pattern
  have last := Segmentation.agree_matchesAt alike (syllable.stop - 1) pattern
  obtain ⟨stress, rfl, -⟩ := alike
  cases part with
  | anywhere => exact span
  | ending =>
      unfold syllableLike
      cases pattern.literal with
      | some text => exact agree_pure rfl
      | none => exact last

theorem agree_soundLike (alike : Alike Kept question other) (place : SoundPlace)
    (pattern : Option SoundPattern) :
    AgreeOn Kept (· = ·) (question.soundLike place pattern)
      (other.soundLike place pattern) := by
  obtain ⟨form, word, rfl, -, wordsAlike⟩ := alike
  have matching := Segmentation.agree_matchesAt wordsAlike
  obtain ⟨stress, rfl, -⟩ := wordsAlike
  refine agree_lookup fun index _ => ?_
  refine agree_ite (fun _ => agree_pure rfl) fun _ => ?_
  exact agree_lookup fun pattern _ => matching _ pattern

theorem agree_answer {frame : Frame σ} {otherFrame : Frame τ}
    (sameLanguage : otherFrame.language = frame.language)
    (alike : Alike Kept question other) (predicate : Predicate) :
    AgreeOn Kept (· = ·) (question.answer frame predicate)
      (other.answer otherFrame predicate) := by
  have sounds := agree_soundLike alike
  obtain ⟨form, word, rfl, sameClasses, wordsAlike⟩ := alike
  have ends := agree_endsLike wordsAlike
  have begins := agree_beginsLike wordsAlike
  have holds := agree_syllableLike wordsAlike
  have seeks := Segmentation.agree_seek wordsAlike
  have matching := Segmentation.agree_matchesAt wordsAlike
  obtain ⟨stress, rfl, agreed⟩ := wordsAlike
  have sameClass (key : Option Text) : otherFrame.wordClass key = frame.wordClass key := by
    simp only [Frame.wordClass, Frame.undefined, sameLanguage]
  have sameAnswer : form.isIn = question.form.isIn := by
    funext wordClass
    simp only [WordForm.isIn, sameClasses]
  unfold answer
  cases predicate.test with
  | otherwise => exact agree_pure rfl
  | sound place => exact agree_bind_eq (sounds place predicate.pattern) fun _ => agree_pure rfl
  | atEdge edge => cases edge <;> exact agree_lookup fun _ _ => agree_pure rfl
  | inStressedSyllable =>
      exact agree_lookup fun _ _ => agree_bind_eq agreed fun _ => agree_pure rfl
  | wordEdge edge =>
      cases edge with
      | beginning =>
          exact agree_lookup fun pattern _ =>
            agree_bind_eq (begins pattern) fun _ => agree_pure rfl
      | ending =>
          exact agree_lookup fun pattern _ =>
            agree_bind_eq (ends pattern) fun _ => agree_pure rfl
  | wordClass =>
      rw [sameClass, sameAnswer]
      exact agree_lookup fun _ _ => agree_pure rfl
  | syllableCount => exact agree_lookup fun _ _ => agree_pure rfl
  | stressOn =>
      exact agree_lookup fun _ _ => agree_bind_eq agreed fun _ => agree_pure rfl
  | syllable part =>
      refine agree_lookup fun syllable? _ => ?_
      cases syllable? with
      | none => exact agree_pure rfl
      | some syllable =>
          exact agree_lookup fun pattern _ =>
            agree_bind_eq (holds syllable pattern part) fun _ => agree_pure rfl
  | seek =>
      refine agree_lookup fun target _ => ?_
      refine agree_bind_eq (seeks target) fun index? => ?_
      cases index? with
      | none => exact agree_pure rfl
      | some index =>
          exact agree_lookup fun pattern _ =>
            agree_bind_eq (matching index pattern) fun _ => agree_pure rfl

variable {frame : Frame σ} {otherFrame : Frame τ}

theorem agree_satisfiesPredicate (sameLanguage : otherFrame.language = frame.language)
    (alike : Alike Kept question other) (predicate : Predicate) :
    AgreeOn Kept (· = ·) (question.satisfiesPredicate frame predicate)
      (other.satisfiesPredicate otherFrame predicate) := by
  refine agree_bind_eq (agree_answer sameLanguage alike predicate) fun held? => ?_
  cases held? <;> exact agree_pure rfl

mutual

theorem agree_satisfies (sameLanguage : otherFrame.language = frame.language)
    (alike : Alike Kept question other) :
    ∀ condition : Condition, AgreeOn Kept (· = ·)
      (satisfies frame question condition) (satisfies otherFrame other condition)
  | .holds predicate => by
      simp only [satisfies]
      exact agree_satisfiesPredicate sameLanguage alike predicate
  | .all members => by
      simp only [satisfies]
      exact agree_satisfiesEach sameLanguage alike members
  | .any members => by
      simp only [satisfies]
      exact agree_satisfiesSome sameLanguage alike members

theorem agree_satisfiesEach (sameLanguage : otherFrame.language = frame.language)
    (alike : Alike Kept question other) :
    ∀ members : List Condition, AgreeOn Kept (· = ·)
      (satisfiesEach frame question members) (satisfiesEach otherFrame other members)
  | [] => by
      simp only [satisfiesEach]
      exact agree_pure rfl
  | member :: members => by
      simp only [satisfiesEach]
      refine agree_bind_eq (agree_satisfies sameLanguage alike member) fun _ => ?_
      exact agree_ite (fun _ => agree_satisfiesEach sameLanguage alike members)
        fun _ => agree_pure rfl

theorem agree_satisfiesSome (sameLanguage : otherFrame.language = frame.language)
    (alike : Alike Kept question other) :
    ∀ members : List Condition, AgreeOn Kept (· = ·)
      (satisfiesSome frame question members) (satisfiesSome otherFrame other members)
  | [] => by
      simp only [satisfiesSome]
      exact agree_pure rfl
  | member :: members => by
      simp only [satisfiesSome]
      refine agree_bind_eq (agree_satisfies sameLanguage alike member) fun _ => ?_
      exact agree_ite (fun _ => agree_pure rfl)
        fun _ => agree_satisfiesSome sameLanguage alike members

end

/-- The same one of the branches is chosen. -/
theorem agree_firstBranch? (sameLanguage : otherFrame.language = frame.language)
    (alike : Alike Kept question other) (branches : List Branch) :
    AgreeOn Kept
      (fun chosen otherChosen => chosen = otherChosen ∧ ∀ branch ∈ chosen, branch ∈ branches)
      (question.firstBranch? frame branches) (other.firstBranch? otherFrame branches) := by
  induction branches with
  | nil => exact agree_pure ⟨rfl, fun branch isChosen => nomatch isChosen⟩
  | cons branch branches inductionHypothesis =>
      refine agree_bind_eq (agree_satisfies sameLanguage alike branch.condition) fun _ => ?_
      refine agree_ite (fun _ => agree_pure ⟨rfl, ?_⟩) fun _ => inductionHypothesis.mono ?_
      · rintro _ ⟨⟩
        exact List.mem_cons_self
      · rintro chosen _ ⟨rfl, areMembers⟩
        exact ⟨rfl, fun other isChosen => List.mem_cons_of_mem _ (areMembers other isChosen)⟩

end Question

end Diachrony
