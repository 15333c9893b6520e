import Diachrony.Proofs.Derivation.Trace

/-!
# Derivations in parts

A sequence may be cut in two in front of any step that is not dispreferred: such a step
opens a position, so no position lies on both sides of the cut.  Nothing but the form, and
the inventories that were made, goes from one position to the next.  So the second part is
derived from what the first part makes, unless the first part halts, and its trace stands
behind that of the first one.

The inventories go along as well.  Where a language goes by the short name of another one, the
first part may leave an inventory that the second part needs, and then two derivations of which
each begins with none do not come to the derivation of the whole.
-/
namespace Diachrony

open Work

/-- An entry about a step that has some other steps in front of it. -/
def TraceEntry.behind (count : Nat) (entry : TraceEntry) : TraceEntry :=
  { entry with index := count + entry.index }

/-- A derivation through some steps, and one from its result through the steps behind
them, taken together. -/
def Derivation.andThen (first : Derivation) (count : Nat) (second : Derivation) :
    Derivation where
  source := first.source
  result := second.result
  entries := first.entries ++ second.entries.map (.behind count)
  appliedRules := first.appliedRules ++ second.appliedRules
  haltedAt := second.haltedAt.map (count + ·)

namespace SequenceStep

def entryBehind (count : Nat) (entry : Nat × SequenceStep) : Nat × SequenceStep :=
  (count + entry.1, entry.2)

def Position.behind (count : Nat) (position : Position) : Position :=
  ⟨entryBehind count position.anchor, position.fallbacks.map (entryBehind count)⟩

theorem Position.steps_behind (count : Nat) (position : Position) :
    (position.behind count).steps = position.steps.map (entryBehind count) :=
  rfl

theorem numbered_append (first second : List SequenceStep) :
    numbered (first ++ second) =
      numbered first ++ (numbered second).map (entryBehind first.length) := by
  have shifted : second.zipIdx (0 + first.length) =
      second.zipIdx.map (Prod.map id (first.length + ·)) := by
    rw [Nat.zero_add]
    exact List.zipIdx_eq_map_add
  unfold numbered
  rw [List.zipIdx_append, shifted, List.map_append, List.map_map, List.map_map]
  rfl

theorem addToPositions_apply (entry : Nat × SequenceStep)
    (divided : List (Nat × SequenceStep) × List Position) :
    addToPositions entry divided =
      if entry.2.dispreferred then (entry :: divided.1, divided.2)
      else ([], ⟨entry, divided.1⟩ :: divided.2) :=
  rfl

theorem foldr_addToPositions_behind (count : Nat) (entries : List (Nat × SequenceStep)) :
    (entries.map (entryBehind count)).foldr addToPositions ([], []) =
      ((entries.foldr addToPositions ([], [])).1.map (entryBehind count),
        (entries.foldr addToPositions ([], [])).2.map (Position.behind count)) := by
  induction entries with
  | nil => rfl
  | cons entry entries inductionHypothesis =>
      have same : (entryBehind count entry).2 = entry.2 := rfl
      rw [List.map_cons, List.foldr_cons, List.foldr_cons, inductionHypothesis,
        addToPositions_apply, addToPositions_apply, same]
      split <;> rfl

/-- Divided steps as positions: of those that wait for an anchor, the first is one itself. -/
def gathered : List (Nat × SequenceStep) × List Position → List Position
  | ([], positions) => positions
  | (anchor :: fallbacks, positions) => ⟨anchor, fallbacks⟩ :: positions

theorem positions_eq_gathered (steps : List SequenceStep) :
    positions steps = gathered ((numbered steps).foldr addToPositions ([], [])) :=
  rfl

/-- Positions that stand already stay as they are. -/
theorem foldr_addToPositions_append (entries : List (Nat × SequenceStep))
    (positions : List Position) :
    entries.foldr addToPositions ([], positions) =
      ((entries.foldr addToPositions ([], [])).1,
        (entries.foldr addToPositions ([], [])).2 ++ positions) := by
  induction entries with
  | nil => rfl
  | cons entry entries inductionHypothesis =>
      rw [List.foldr_cons, List.foldr_cons, inductionHypothesis, addToPositions_apply,
        addToPositions_apply]
      split <;> rfl

/-- No step waits for an anchor in front of steps of which the first one is an anchor. -/
theorem foldr_addToPositions_of_opens {steps : List SequenceStep}
    (opens : ∀ step ∈ steps.head?, step.dispreferred = false) :
    (numbered steps).foldr addToPositions ([], []) = ([], positions steps) := by
  rw [positions_eq_gathered]
  have noneWaits : ((numbered steps).foldr addToPositions ([], [])).1 = [] := by
    cases steps with
    | nil => rfl
    | cons step steps =>
        have isAnchor : step.dispreferred = false := opens step rfl
        unfold numbered
        rw [List.zipIdx_cons, List.map_cons, List.foldr_cons]
        simp [addToPositions, isAnchor]
  revert noneWaits
  generalize (numbered steps).foldr addToPositions ([], []) = divided
  obtain ⟨waiting, later⟩ := divided
  rintro rfl
  rfl

theorem positions_append {first second : List SequenceStep}
    (opens : ∀ step ∈ second.head?, step.dispreferred = false) :
    positions (first ++ second) =
      positions first ++ (positions second).map (Position.behind first.length) := by
  have divided : (numbered (first ++ second)).foldr addToPositions ([], []) =
      (((numbered first).foldr addToPositions ([], [])).1,
        ((numbered first).foldr addToPositions ([], [])).2 ++
          (positions second).map (Position.behind first.length)) := by
    rw [numbered_append, List.foldr_append, foldr_addToPositions_behind,
      foldr_addToPositions_of_opens opens]
    exact foldr_addToPositions_append _ _
  rw [positions_eq_gathered, positions_eq_gathered first, divided]
  generalize (numbered first).foldr addToPositions ([], []) = before
  obtain ⟨waiting, later⟩ := before
  cases waiting <;> rfl

variable {graph : Graph} {marker : Text}

theorem tryInTurn_behind (count : Nat) (form : WordForm) (steps : List (Nat × SequenceStep)) :
    tryInTurn graph marker form (steps.map (entryBehind count)) =
      (tryInTurn graph marker form steps >>= fun (tried, choice?) =>
        pure (tried.map (.behind count), choice?)) := by
  induction steps with
  | nil => rfl
  | cons entry steps inductionHypothesis =>
      obtain ⟨index, step⟩ := entry
      unfold tryInTurn
      rw [List.map_cons, bind_assoc]
      refine bind_congr fun attempt => ?_
      cases attempt with
      | taken rule isAlternative next =>
          simp only [pure_bind, List.map_cons, List.map_map]
          rfl
      | declined error =>
          simp only [inductionHypothesis, bind_assoc, pure_bind]
          rfl

theorem derivePositions_cons (source form : WordForm) (entries : List TraceEntry)
    (rules : List Int) (position : Position) (positions : List Position) :
    derivePositions graph marker source form entries rules (position :: positions) =
      tryInTurn graph marker form position.steps >>= fun (tried, choice?) =>
        match choice? with
        | some choice =>
          derivePositions graph marker source choice.form (entries ++ tried)
            (rules ++ [choice.rule]) positions
        | none =>
          if position.isSkippable then
            derivePositions graph marker source form (entries ++ tried) rules positions
          else
            pure ⟨source, form, entries ++ haltedEntries tried, rules, some position.anchor.1⟩ := by
  conv_lhs => unfold derivePositions
  refine bind_congr fun tried => ?_
  obtain ⟨tried, choice?⟩ := tried
  cases choice? <;> rfl

theorem haltedEntries_behind (count : Nat) (entries : List TraceEntry) :
    haltedEntries (entries.map (.behind count)) = (haltedEntries entries).map (.behind count) := by
  cases entries <;> rfl

/-- What a derivation comes to behind another one. -/
theorem derivePositions_behind (graph : Graph) (first : Derivation) (count : Nat)
    (source form : WordForm) (entries : List TraceEntry) (rules : List Int) (positions : List Position) :
    derivePositions graph marker first.source form (first.entries ++ entries.map (.behind count))
        (first.appliedRules ++ rules) (positions.map (Position.behind count)) =
      (derivePositions graph marker source form entries rules positions >>= fun second =>
        pure (first.andThen count second)) := by
  induction positions generalizing form entries rules with
  | nil => rfl
  | cons position positions inductionHypothesis =>
      have sameSkippable : (position.behind count).isSkippable = position.isSkippable := rfl
      rw [List.map_cons, derivePositions_cons, derivePositions_cons, Position.steps_behind,
        tryInTurn_behind, bind_assoc, bind_assoc]
      refine bind_congr fun tried => ?_
      obtain ⟨tried, choice?⟩ := tried
      rw [pure_bind]
      cases choice? with
      | some choice =>
          simp only [List.append_assoc, ← List.map_append, inductionHypothesis]
      | none =>
          dsimp only
          rw [sameSkippable]
          by_cases isSkippable : position.isSkippable = true
          · rw [if_pos isSkippable, if_pos isSkippable, List.append_assoc, ← List.map_append]
            exact inductionHypothesis form _ rules
          · rw [if_neg isSkippable, if_neg isSkippable, List.append_assoc, haltedEntries_behind,
              ← List.map_append]
            rfl

/-- Further positions are derived from what comes of those before them, unless it halts. -/
theorem derivePositions_append (source form : WordForm) (entries : List TraceEntry)
    (rules : List Int) (before after : List Position) :
    derivePositions graph marker source form entries rules (before ++ after) =
      (derivePositions graph marker source form entries rules before >>= fun first =>
        if first.isComplete then
          derivePositions graph marker first.source first.result first.entries first.appliedRules
            after
        else pure first) := by
  induction before generalizing form entries rules with
  | nil => rfl
  | cons position before inductionHypothesis =>
      rw [List.cons_append, derivePositions_cons, derivePositions_cons, bind_assoc]
      refine bind_congr fun tried => ?_
      obtain ⟨tried, choice?⟩ := tried
      cases choice? with
      | some choice => exact inductionHypothesis choice.form _ _
      | none =>
          dsimp only
          by_cases isSkippable : position.isSkippable = true
          · rw [if_pos isSkippable, if_pos isSkippable]
            exact inductionHypothesis form _ rules
          · rw [if_neg isSkippable, if_neg isSkippable]
            rfl

end SequenceStep

namespace Graph

open SequenceStep

variable {graph : Graph} {marker : Text}

/-- A sequence is derived part by part, if the second part does not begin with a dispreferred
step and is derived by the interpreter that has derived the first one, with the inventories that
it has made.  Where every language goes by the short name it is stored under, the parts may be
derived by any interpreters. -/
theorem derive_append (graph : Graph) (sequence : RuleSequence) (first : List SequenceStep)
    {second : List SequenceStep} (opens : ∀ step ∈ second.head?, step.dispreferred = false)
    (form : WordForm) (marker : Text) :
    (graph.derive { sequence with steps := first ++ second } form marker = do
      let before ← graph.derive { sequence with steps := first } form marker
      if before.isComplete then
        let after ← graph.derive { sequence with steps := second } before.result marker
        return before.andThen first.length after
      else return before) ∧
    (KeepShortNames graph.languages → ∀ made other another : Inventories,
      made.AreOf graph.languages → other.AreOf graph.languages → another.AreOf graph.languages →
      ((graph.derive { sequence with steps := first ++ second } form marker).on made).1 = do
        let before ← ((graph.derive { sequence with steps := first } form marker).on other).1
        if before.isComplete then
          let after ←
            ((graph.derive { sequence with steps := second } before.result marker).on another).1
          return before.andThen first.length after
        else return before) := by
  have inParts : graph.derive { sequence with steps := first ++ second } form marker = do
      let before ← graph.derive { sequence with steps := first } form marker
      if before.isComplete then
        let after ← graph.derive { sequence with steps := second } before.result marker
        return before.andThen first.length after
      else return before := by
    unfold derive
    dsimp only
    rw [positions_append opens, derivePositions_append]
    refine bind_congr fun before => ?_
    by_cases isComplete : before.isComplete = true
    · rw [if_pos isComplete, if_pos isComplete]
      have goesOn := @derivePositions_behind marker graph before first.length before.result
        before.result [] [] (positions second)
      rw [List.map_nil, List.append_nil, List.append_nil] at goesOn
      exact goesOn
    · rw [if_neg isComplete, if_neg isComplete]
  refine ⟨inParts, fun shortNames made other another madeOwned otherOwned anotherOwned => ?_⟩
  have agreed (steps : List SequenceStep) (form : WordForm) :=
    agree_derive (Alike.refl shortNames) { sequence with steps } form marker
  rw [(agreed _ form).result_eq madeOwned, (agreed _ form).result_eq otherOwned, inParts,
    result_bind (agreed first form)]
  · refine bind_congr fun before => ?_
    by_cases isComplete : before.isComplete = true
    · rw [if_pos isComplete, if_pos isComplete, (agreed second before.result).result_eq anotherOwned,
        result_bind (agreed second before.result) fun _ => agree_pure rfl]
      rfl
    · rw [if_neg isComplete, if_neg isComplete]
      rfl
  · exact fun before => agree_ite
      (fun _ => agree_bind_eq (agreed second before.result) fun _ => agree_pure rfl)
      fun _ => agree_pure rfl

/-- Cut in front of its last step, at which the derivation halts. -/
theorem derive_append_reservedRules :
    (∀ step ∈ ([{ rule := 2 }] : List SequenceStep).head?, step.dispreferred = false) ∧
    ∃ before after,
      ((twoRules 1 "b").derive { reservedRules with steps := reservedRules.steps.take 2 }
        { text := "xk", language := "b" }).result = .ok before ∧
      ((twoRules 1 "b").derive { reservedRules with steps := [{ rule := 2 }] }
        before.result).result = .ok after ∧
      after.haltedAt = some 0 ∧
      ((twoRules 1 "b").derive reservedRules { text := "xk", language := "b" }).result =
        .ok (before.andThen 2 after) := by
  have opens : ∀ step ∈ ([{ rule := 2 }] : List SequenceStep).head?, step.dispreferred = false := by
    decide
  have seen : (do
      let before ← ((twoRules 1 "b").derive
        { reservedRules with steps := reservedRules.steps.take 2 }
        { text := "xk", language := "b" }).result.toOption
      let after ← ((twoRules 1 "b").derive { reservedRules with steps := [{ rule := 2 }] }
        before.result).result.toOption
      return (before.haltedAt, after.haltedAt)) = some (none, some 0) := by
    decide +kernel
  obtain ⟨before, isBefore, seen⟩ := Option.bind_eq_some_iff.mp seen
  obtain ⟨after, isAfter, seen⟩ := Option.bind_eq_some_iff.mp seen
  obtain ⟨isComplete, isHalted⟩ := Prod.mk.inj (Option.some.inj seen)
  rw [Except.toOption_eq_some] at isBefore isAfter
  have shortNames : KeepShortNames (twoRules 1 "b").languages :=
    (keepsNames_of_entries (by decide) (by decide)).shortNames
  have owned := Inventories.areOf_empty (twoRules 1 "b").languages
  have inParts := (derive_append (twoRules 1 "b") reservedRules (reservedRules.steps.take 2)
    opens { text := "xk", language := "b" } usualMarker).2 shortNames {} {} {} owned owned owned
  refine ⟨opens, before, after, isBefore, isAfter, isHalted, ?_⟩
  change ((twoRules 1 "b").derive _ _).result =
    (((twoRules 1 "b").derive _ _).result >>= _) at inParts
  rw [isBefore] at inParts
  have goesOn : before.isComplete = true := by
    rw [Derivation.isComplete, isComplete]
    rfl
  refine inParts.trans ?_
  change (if before.isComplete then
    ((twoRules 1 "b").derive _ before.result).result >>= _ else _) = _
  rw [if_pos goesOn, isAfter]
  rfl

/-- Where a language goes by the name of another one, the first of two rules, which does not apply,
may make the inventory by which the second one applies.  By itself the second rule does nothing. -/
theorem derive_need_not_append :
    (∀ step ∈ (bothRules.steps.drop 1).head?, step.dispreferred = false) ∧
    ∃ whole before after,
      ((twoRules 1 "a").derive bothRules { text := "kx", language := "a" }).result = .ok whole ∧
      ((twoRules 1 "a").derive { bothRules with steps := bothRules.steps.take 1 }
        { text := "kx", language := "a" }).result = .ok before ∧
      before.isComplete = true ∧
      ((twoRules 1 "a").derive { bothRules with steps := bothRules.steps.drop 1 }
        before.result).result = .ok after ∧
      whole.result ≠ after.result ∧
      whole.appliedRules ≠ before.appliedRules ++ after.appliedRules := by
  have madeWhole : ((twoRules 1 "a").derive bothRules
      { text := "kx", language := "a" }).result.toOption.map (fun whole =>
        (whole.result.text, whole.appliedRules)) = some (("kxt", [2]) : Text × List Int) := by
    decide +kernel
  have madeParts : (do
      let before ← ((twoRules 1 "a").derive { bothRules with steps := bothRules.steps.take 1 }
        { text := "kx", language := "a" }).result.toOption
      let after ← ((twoRules 1 "a").derive { bothRules with steps := bothRules.steps.drop 1 }
        before.result).result.toOption
      return (before.isComplete, after.result.text, before.appliedRules ++ after.appliedRules)) =
      some ((true, "kx", []) : Bool × Text × List Int) := by
    decide +kernel
  obtain ⟨whole, isWhole, made⟩ := Except.exists_of_toOption_map madeWhole
  obtain ⟨text, rules⟩ := Prod.mk.inj made
  obtain ⟨before, isBefore, madeParts⟩ := Option.bind_eq_some_iff.mp madeParts
  obtain ⟨after, isAfter, madeParts⟩ := Option.bind_eq_some_iff.mp madeParts
  obtain ⟨isComplete, madeParts⟩ := Prod.mk.inj (Option.some.inj madeParts)
  obtain ⟨textInParts, rulesInParts⟩ := Prod.mk.inj madeParts
  rw [Except.toOption_eq_some] at isBefore isAfter
  refine ⟨by decide, whole, before, after, isWhole, isBefore, isComplete, isAfter,
    fun same => ?_, ?_⟩
  · rw [← same, text] at textInParts
    exact absurd textInParts (by decide)
  · rw [rules, rulesInParts]
    exact List.cons_ne_nil _ _

end Graph

end Diachrony
