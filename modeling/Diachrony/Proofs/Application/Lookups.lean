import Diachrony.Application.Conditions
import Diachrony.Proofs.Failure

/-!
# How questions about words fail

A question about a word fails where a name in it is looked up and not found, where a part
of it is missing, where it needs a sound and there is only a word, and where the stress of
the word cannot be worked out.  So what a condition fails with is settled by its predicates,
whatever the word is.
-/
namespace Diachrony

open Work

variable {Kept : Inventories → Prop} {Fails : Error → Prop}

/-- The class of a pattern that is no literal is looked up with allowed failures only. -/
def SoundPattern.Resolves (Fails : Error → Prop) (inventory : Inventory)
    (pattern : SoundPattern) : Prop :=
  pattern.literal = none → FailsOnly Fails (Segmentation.patternTerms inventory pattern)

/-- A sought class is looked up with allowed failures only. -/
def SeekTarget.Resolves (Fails : Error → Prop) (inventory : Inventory)
    (target : SeekTarget) : Prop :=
  ∀ expression, target.soundClass = some expression →
    FailsOnly Fails (inventory.classTerms expression)

/-- What a predicate needs is there, and what it looks up is found, up to allowed failures.
Only at a sound can it be asked about one. -/
def Predicate.Resolves (Fails : Error → Prop) (frame : Frame) (atSound : Bool)
    (predicate : Predicate) : Prop :=
  (predicate.test.isSegmental = true → atSound = false → Fails .soundRequired) ∧
  match predicate.test with
  | .otherwise | .atEdge _ | .inStressedSyllable => True
  | .sound _ | .wordEdge _ =>
    Given Fails "pattern" (SoundPattern.Resolves Fails frame.inventory) predicate.pattern
  | .wordClass => FailsOnly Fails (frame.wordClass predicate.value)
  | .syllableCount =>
    predicate.comparison = .atLeast → Given Fails "number" (fun _ => True) predicate.number
  | .stressOn => Given Fails "ordinal" (fun _ => True) predicate.ordinal
  | .syllable _ =>
    Given Fails "ordinal" (fun _ => True) predicate.ordinal ∧
      Given Fails "pattern" (SoundPattern.Resolves Fails frame.inventory) predicate.pattern
  | .seek =>
    Given Fails "seek" (SeekTarget.Resolves Fails frame.inventory) predicate.seek ∧
      Given Fails "pattern" (SoundPattern.Resolves Fails frame.inventory) predicate.pattern

namespace Segmentation

/-- A word that is cut by an inventory, and whose stress is worked out with allowed failures
only. -/
structure Answers (Kept : Inventories → Prop) (Fails : Error → Prop) (inventory : Inventory)
    (word : Segmentation) : Prop where
  inventory : word.inventory = inventory
  stress : word.stress.FailsOnlyFrom Kept Fails

variable {inventory : Inventory} {word : Segmentation}

theorem fails_satisfies (stress : word.stress.FailsOnlyFrom Kept Fails) (index : Nat)
    (term : ClassTerm) : (word.satisfies index term).FailsOnlyFrom Kept Fails := by
  induction term with
  | tag name => exact fails_pure _
  | positional kind =>
      cases kind with
      | stressed => exact fails_bind stress fun _ => fails_pure _
      | _ => exact fails_pure _
  | non term inductionHypothesis => exact fails_bind inductionHypothesis fun _ => fails_pure _

theorem fails_satisfiesAll (stress : word.stress.FailsOnlyFrom Kept Fails) (index : Nat)
    (terms : List ClassTerm) : (word.satisfiesAll index terms).FailsOnlyFrom Kept Fails := by
  induction terms with
  | nil => exact fails_pure _
  | cons term terms inductionHypothesis =>
      refine fails_bind (fails_satisfies stress index term) fun _ => ?_
      exact ensures_ite (fun _ => inductionHypothesis) fun _ => fails_pure _

theorem fails_matchesAt (answers : word.Answers Kept Fails inventory) (index : Int)
    {pattern : SoundPattern} (resolves : pattern.Resolves Fails inventory) :
    (word.matchesAt index pattern).FailsOnlyFrom Kept Fails := by
  unfold matchesAt
  cases word.segment? index with
  | none => exact fails_pure _
  | some segment =>
      cases isLiteral : pattern.literal with
      | some text => exact fails_pure _
      | none =>
          rw [answers.inventory]
          exact ensures_lookup (resolves isLiteral) fun terms _ =>
            fails_satisfiesAll answers.stress index.toNat terms

theorem fails_matchesAmong (answers : word.Answers Kept Fails inventory) {pattern : SoundPattern}
    (resolves : pattern.Resolves Fails inventory) (indices : List Int) :
    (word.matchesAmong pattern indices).FailsOnlyFrom Kept Fails := by
  induction indices with
  | nil => exact fails_pure _
  | cons index indices inductionHypothesis =>
      refine fails_bind (fails_matchesAt answers index resolves) fun _ => ?_
      exact ensures_ite (fun _ => fails_pure _) fun _ => inductionHypothesis

theorem fails_matchesSpan (answers : word.Answers Kept Fails inventory) (start stop : Int)
    {pattern : SoundPattern} (resolves : pattern.Resolves Fails inventory) :
    (word.matchesSpan start stop pattern).FailsOnlyFrom Kept Fails :=
  ensures_ite (fun _ => fails_pure _) fun _ => fails_matchesAmong answers resolves _

theorem ensures_placesFrom (stress : word.stress.FailsOnlyFrom Kept Fails)
    (terms : List ClassTerm) (index : Nat) (segments : List Segment) :
    (word.placesFrom terms index segments).EnsuresFrom Kept Fails fun places =>
      ∀ place ∈ places, place < index + segments.length := by
  induction segments generalizing index with
  | nil => exact ensures_pure fun _ isMember => nomatch isMember
  | cons segment segments inductionHypothesis =>
      refine fails_bind (fails_satisfiesAll stress index terms) fun found => ?_
      refine ensures_bind (inductionHypothesis (index + 1)) fun places areInside => ?_
      refine ensures_pure fun place isMember => ?_
      have further : place ∈ places → place < index + (segments.length + 1) := by
        intro isMember
        have isInside := areInside place isMember
        omega
      cases found with
      | false => exact further isMember
      | true =>
          rcases List.mem_cons.mp isMember with rfl | isMember
          · exact Nat.lt_add_of_pos_right (Nat.succ_pos _)
          · exact further isMember

/-- What is sought is found inside the word, or not at all. -/
theorem ensures_seek (answers : word.Answers Kept Fails inventory) {target : SeekTarget}
    (resolves : target.Resolves Fails inventory) :
    (word.seek target).EnsuresFrom Kept Fails fun index? =>
      ∀ index, index? = some index → index < word.length := by
  have areInside : (word.places target.soundClass).EnsuresFrom Kept Fails fun places =>
      ∀ place ∈ places, place < word.length := by
    unfold places
    cases isSought : target.soundClass with
    | none => exact ensures_pure fun place isMember => List.mem_range.mp isMember
    | some expression =>
        rw [answers.inventory]
        refine ensures_lookup (resolves expression isSought) fun terms _ => ?_
        exact (ensures_placesFrom answers.stress terms 0 word.segments).mono
          fun places areInside place isMember => by simpa [length] using areInside place isMember
  refine ensures_bind areInside fun places areInside => ensures_pure fun index isFound => ?_
  obtain ⟨place, -, isPlace⟩ := Option.bind_eq_some_iff.mp isFound
  exact areInside index (List.mem_of_getElem? isPlace)

theorem fails_seek (answers : word.Answers Kept Fails inventory) {target : SeekTarget}
    (resolves : target.Resolves Fails inventory) :
    (word.seek target).FailsOnlyFrom Kept Fails :=
  (ensures_seek answers resolves).failsOnly

end Segmentation

namespace Question

variable {frame : Frame} {inventory : Inventory} {word : Segmentation} {question : Question}
  {pattern : SoundPattern}

theorem fails_endsLike (answers : word.Answers Kept Fails inventory)
    (resolves : pattern.Resolves Fails inventory) :
    (endsLike word pattern).FailsOnlyFrom Kept Fails := by
  unfold endsLike
  cases pattern.literal with
  | some text => exact fails_pure _
  | none => exact Segmentation.fails_matchesAt answers _ resolves

theorem fails_beginsLike (answers : word.Answers Kept Fails inventory)
    (resolves : pattern.Resolves Fails inventory) :
    (beginsLike word pattern).FailsOnlyFrom Kept Fails := by
  unfold beginsLike
  cases pattern.literal with
  | some text => exact fails_pure _
  | none => exact Segmentation.fails_matchesAt answers _ resolves

theorem fails_syllableLike (answers : word.Answers Kept Fails inventory) (syllable : Syllable)
    (resolves : pattern.Resolves Fails inventory) (part : SyllablePart) :
    (syllableLike word syllable pattern part).FailsOnlyFrom Kept Fails := by
  cases part with
  | anywhere => exact Segmentation.fails_matchesSpan answers _ _ resolves
  | ending =>
      unfold syllableLike
      cases pattern.literal with
      | some text => exact fails_pure _
      | none => exact Segmentation.fails_matchesAt answers _ resolves

theorem ensures_position {β : Type} {Next : β → Prop} {next : Nat → Session β}
    (atSound : question.index = none → Fails .soundRequired)
    (second : ∀ index, question.index = some index → (next index).EnsuresFrom Kept Fails Next) :
    ((liftM question.position : Session Nat) >>= next).EnsuresFrom Kept Fails Next := by
  unfold position
  cases isIndex : question.index with
  | some index => exact second index isIndex
  | none => exact ensures_throw (atSound isIndex)

theorem fails_soundLike (answers : question.word.Answers Kept Fails inventory)
    (atSound : question.index = none → Fails .soundRequired) (place : SoundPlace)
    {pattern? : Option SoundPattern}
    (given : Given Fails "pattern" (SoundPattern.Resolves Fails inventory) pattern?) :
    (question.soundLike place pattern?).FailsOnlyFrom Kept Fails := by
  refine ensures_position atSound fun index _ => ?_
  refine ensures_ite (fun _ => fails_pure _) fun _ => ?_
  exact ensures_needed given fun _ _ resolves => Segmentation.fails_matchesAt answers _ resolves

theorem ensures_syllableAt? {β : Type} {Next : β → Prop} {ordinal : Option Int}
    {next : Option Syllable → Session β}
    (given : Given Fails "ordinal" (fun _ => True) ordinal)
    (second : ∀ syllable?, (next syllable?).EnsuresFrom Kept Fails Next) :
    ((liftM (question.syllableAt? ordinal) : Session (Option Syllable)) >>= next).EnsuresFrom Kept
      Fails Next := by
  unfold syllableAt?
  cases ordinal with
  | some number => exact second _
  | none => exact ensures_throw given

theorem fails_answer {predicate : Predicate}
    (answers : question.word.Answers Kept Fails frame.inventory)
    (resolves : predicate.Resolves Fails frame question.index.isSome) :
    (question.answer frame predicate).FailsOnlyFrom Kept Fails := by
  obtain ⟨atSound, resolves⟩ := resolves
  have position (isSegmental : predicate.test.isSegmental = true) :
      question.index = none → Fails .soundRequired :=
    fun isNone => atSound isSegmental (by rw [isNone]; rfl)
  unfold answer
  revert resolves position
  cases predicate.test with
  | otherwise => exact fun _ _ => fails_pure _
  | sound place =>
      intro given position
      exact fails_bind (fails_soundLike answers (position rfl) place given) fun _ => fails_pure _
  | atEdge edge =>
      intro _ position
      cases edge <;> exact ensures_position (position rfl) fun _ _ => fails_pure _
  | inStressedSyllable =>
      intro _ position
      exact ensures_position (position rfl) fun _ _ => fails_bind answers.stress fun _ => fails_pure _
  | wordEdge edge =>
      intro given _
      cases edge with
      | beginning =>
          exact ensures_needed given fun _ _ resolves =>
            fails_bind (fails_beginsLike answers resolves) fun _ => fails_pure _
      | ending =>
          exact ensures_needed given fun _ _ resolves =>
            fails_bind (fails_endsLike answers resolves) fun _ => fails_pure _
  | wordClass => exact fun resolves _ => ensures_lookup resolves fun _ _ => fails_pure _
  | syllableCount =>
      intro given _
      refine ensures_lookup ?_ fun _ _ => fails_pure _
      unfold compareCount
      cases isComparison : predicate.comparison with
      | equal | different => exact failsOnly_ok _
      | atLeast =>
          have given := given isComparison
          cases isNumber : predicate.number with
          | some number => exact failsOnly_ok _
          | none =>
              rw [isNumber] at given
              exact failsOnly_error given
  | stressOn =>
      exact fun given _ => ensures_syllableAt? given fun _ =>
        fails_bind answers.stress fun _ => fails_pure _
  | syllable part =>
      rintro ⟨givenOrdinal, givenPattern⟩ _
      refine ensures_syllableAt? givenOrdinal fun syllable? => ?_
      cases syllable? with
      | none => exact fails_pure _
      | some syllable =>
          exact ensures_needed givenPattern fun _ _ resolves =>
            fails_bind (fails_syllableLike answers syllable resolves part) fun _ => fails_pure _
  | seek =>
      rintro ⟨givenTarget, givenPattern⟩ _
      refine ensures_needed givenTarget fun target _ resolves => ?_
      refine fails_bind (Segmentation.fails_seek answers resolves) fun index? => ?_
      cases index? with
      | none => exact fails_pure _
      | some index =>
          exact ensures_needed givenPattern fun _ _ resolves =>
            fails_bind (Segmentation.fails_matchesAt answers _ resolves) fun _ => fails_pure _

theorem fails_satisfiesPredicate {predicate : Predicate}
    (answers : question.word.Answers Kept Fails frame.inventory)
    (resolves : predicate.Resolves Fails frame question.index.isSome) :
    (question.satisfiesPredicate frame predicate).FailsOnlyFrom Kept Fails := by
  refine fails_bind (fails_answer answers resolves) fun held? => ?_
  cases held? <;> exact fails_pure _

mutual

theorem fails_satisfies (answers : question.word.Answers Kept Fails frame.inventory) :
    ∀ condition : Condition,
      (∀ predicate ∈ condition.predicates,
        predicate.Resolves Fails frame question.index.isSome) →
      (satisfies frame question condition).FailsOnlyFrom Kept Fails
  | .holds predicate => by
      intro resolve
      simp only [satisfies]
      exact fails_satisfiesPredicate answers (resolve predicate (List.mem_singleton_self _))
  | .all members => by
      intro resolve
      simp only [satisfies]
      exact fails_satisfiesEach answers members resolve
  | .any members => by
      intro resolve
      simp only [satisfies]
      exact fails_satisfiesSome answers members resolve

theorem fails_satisfiesEach (answers : question.word.Answers Kept Fails frame.inventory) :
    ∀ members : List Condition,
      (∀ predicate ∈ Condition.memberPredicates members,
        predicate.Resolves Fails frame question.index.isSome) →
      (satisfiesEach frame question members).FailsOnlyFrom Kept Fails
  | [], _ => by
      simp only [satisfiesEach]
      exact fails_pure _
  | member :: members, resolve => by
      obtain ⟨first, others⟩ := List.forall_mem_append.mp resolve
      simp only [satisfiesEach]
      refine fails_bind (fails_satisfies answers member first) fun _ => ?_
      exact ensures_ite (fun _ => fails_satisfiesEach answers members others) fun _ => fails_pure _

theorem fails_satisfiesSome (answers : question.word.Answers Kept Fails frame.inventory) :
    ∀ members : List Condition,
      (∀ predicate ∈ Condition.memberPredicates members,
        predicate.Resolves Fails frame question.index.isSome) →
      (satisfiesSome frame question members).FailsOnlyFrom Kept Fails
  | [], _ => by
      simp only [satisfiesSome]
      exact fails_pure _
  | member :: members, resolve => by
      obtain ⟨first, others⟩ := List.forall_mem_append.mp resolve
      simp only [satisfiesSome]
      refine fails_bind (fails_satisfies answers member first) fun _ => ?_
      exact ensures_ite (fun _ => fails_pure _) fun _ => fails_satisfiesSome answers members others

end

/-- The branch that is chosen is one of those that were asked. -/
theorem ensures_firstBranch? (answers : question.word.Answers Kept Fails frame.inventory)
    {branches : List Branch}
    (resolve : ∀ branch ∈ branches, ∀ predicate ∈ branch.condition.predicates,
      predicate.Resolves Fails frame question.index.isSome) :
    (question.firstBranch? frame branches).EnsuresFrom Kept Fails fun branch? =>
      ∀ branch, branch? = some branch → branch ∈ branches := by
  induction branches with
  | nil => exact ensures_pure fun _ isNone => nomatch isNone
  | cons branch branches inductionHypothesis =>
      obtain ⟨first, others⟩ := List.forall_mem_cons.mp resolve
      refine fails_bind (fails_satisfies answers branch.condition first) fun _ => ?_
      refine ensures_ite (fun _ => ensures_pure ?_) fun _ => ?_
      · rintro _ ⟨rfl⟩
        exact List.mem_cons_self
      · exact (inductionHypothesis others).mono fun _ areChosen branch isChosen =>
          List.mem_cons_of_mem _ (areChosen branch isChosen)

end Question

end Diachrony
