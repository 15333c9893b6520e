import Diachrony.Proofs.Derivation.Recording
import Diachrony.Proofs.Failure

/-!
# Checking what was just recorded

Reapplying a sequence compares two forms with the derived word: the one that the recorded
rules make of the base, and the one that the sequence makes of it now.  Right after a
derivation was recorded these two are one form, unless no rule was recorded at all: then
there is nothing that the recorded rules make, and the derivation counts as one that was
never right.
-/
namespace Diachrony

open Work

namespace Graph

def isMade (graph : Graph) (marker : Text) (word : Word) : Option Text → Except Error Bool
  | some text => graph.isWritten word text marker
  | none => .ok false

/-- The check of a derivation, from what its rules and what its sequence make. -/
def compareMade (graph : Graph) (marker : Text) (derived base : Word) (before? : Option Text)
    (derivation : Derivation) : Except Error DerivationCheck := do
  let is ←
    if derivation.isComplete then graph.isWritten derived derivation.result.text marker
    else .ok false
  let was ← graph.isMade marker derived before?
  return {
    word := derived.id
    base := base.id
    expected := some derivation.result.text
    actual := derived.text
    consistency := .classify was is }

variable {graph after : Graph} {marker : Text}

theorem checkDerivation_eq (link : Link) (sequence : RuleSequence) :
    graph.checkDerivation link sequence marker = (do
      let derived ← graph.word link.source
      let base ← graph.word link.target
      let before? ← graph.replayLink link base marker
      let derivation ← graph.derive sequence base.form marker
      graph.compareMade marker derived base before? derivation) := by
  unfold checkDerivation compareMade isMade
  refine bind_congr fun derived => bind_congr fun base => bind_congr fun before? =>
    bind_congr fun derivation => ?_
  cases before? with
  | none =>
      cases derivation.isComplete with
      | true => cases graph.isWritten derived derivation.result.text marker <;> rfl
      | false => rfl
  | some before =>
      dsimp only
      cases graph.isWritten derived before marker <;> cases derivation.isComplete
      case error.true | ok.true =>
        cases graph.isWritten derived derivation.result.text marker <;> rfl
      case error.false | ok.false => rfl

section

variable {other : Graph} {marker : Text} {link : Link} (alike : Alike graph other)

include alike

theorem Alike.language (name : Text) : other.language name = graph.language name := by
  unfold Graph.language
  rw [alike.languages]

theorem compareMade_eq_of_alike (derived base : Word) (before? : Option Text)
    (derivation : Derivation) :
    other.compareMade marker derived base before? derivation =
      graph.compareMade marker derived base before? derivation := by
  have areWritten : ∀ word text,
      other.isWritten word text marker = graph.isWritten word text marker := by
    intro word text
    unfold isWritten
    rw [alike.language]
  have areMade : ∀ text?,
      other.isMade marker derived text? = graph.isMade marker derived text? := by
    intro text?
    cases text? with
    | none => rfl
    | some text => exact areWritten derived text
  unfold compareMade
  rw [areWritten, areMade]

theorem agree_replayLink_of_alike (link : Link) (base : Word) (marker : Text) :
    Agree graph.languages (· = ·) (graph.replayLink link base marker)
        (other.replayLink link base marker) := by
  refine agree_ite (fun _ => agree_pure rfl) fun _ => ?_
  exact agree_bind_eq (agree_replay alike link.rules base.form marker) fun _ => agree_pure rfl

theorem agree_checkDerivation_of_alike (sequence : RuleSequence)
    (sameSource : other.words.get? link.source = graph.words.get? link.source)
    (sameTarget : other.words.get? link.target = graph.words.get? link.target) (marker : Text) :
    Agree graph.languages (· = ·) (graph.checkDerivation link sequence marker)
      (other.checkDerivation link sequence marker) := by
  rw [checkDerivation_eq, checkDerivation_eq]
  have sameDerived : other.word link.source = graph.word link.source := by
    unfold word
    rw [sameSource]
  have sameBase : other.word link.target = graph.word link.target := by
    unfold word
    rw [sameTarget]
  rw [sameDerived, sameBase]
  refine agree_lookup fun derived _ => agree_lookup fun base _ => ?_
  refine agree_bind_eq (agree_replayLink_of_alike alike link base marker) fun before? => ?_
  refine agree_bind_eq (agree_derive alike sequence base.form marker) fun derivation => ?_
  rw [compareMade_eq_of_alike alike]
  exact agree_liftM _

/-- The check of a link depends on the languages, the rules and the two words, and on nothing
else in a graph. -/
theorem agree_checkLink_of_alike (sequence : RuleSequence)
    (sameSource : other.words.get? link.source = graph.words.get? link.source)
    (sameTarget : other.words.get? link.target = graph.words.get? link.target) (marker : Text) :
    Agree graph.languages (· = ·) (graph.checkLink link sequence marker)
      (other.checkLink link sequence marker) := by
  have checks := agree_checkDerivation_of_alike alike sequence sameSource sameTarget marker
  refine agree_bind_eq (agree_settle checks) fun result => ?_
  cases result <;> exact agree_pure rfl

end

section

variable (shortNames : KeepShortNames graph.languages)

include shortNames

theorem agree_replayLink (link : Link) (base : Word) (marker : Text) :
    Agree graph.languages (· = ·) (graph.replayLink link base marker)
        (graph.replayLink link base marker) :=
  agree_replayLink_of_alike (Alike.refl shortNames) link base marker

theorem agree_deriveAndCompare (sequence : RuleSequence) (derived base : Word)
    (before? : Option Text) :
    Agree graph.languages (· = ·)
      (graph.derive sequence base.form marker >>= fun derivation =>
        liftM (graph.compareMade marker derived base before? derivation))
      (graph.derive sequence base.form marker >>= fun derivation =>
        liftM (graph.compareMade marker derived base before? derivation)) :=
  agree_bind_eq (agree_derive (Alike.refl shortNames) sequence base.form marker) fun _ =>
      agree_liftM _

theorem agree_checkDerivation (link : Link) (sequence : RuleSequence) (marker : Text) :
    Agree graph.languages (· = ·) (graph.checkDerivation link sequence marker)
      (graph.checkDerivation link sequence marker) :=
  agree_checkDerivation_of_alike (Alike.refl shortNames) sequence rfl rfl marker

theorem agree_checkLink (link : Link) (sequence : RuleSequence) (marker : Text) :
    Agree graph.languages (· = ·) (graph.checkLink link sequence marker)
      (graph.checkLink link sequence marker) :=
  agree_checkLink_of_alike (Alike.refl shortNames) sequence rfl rfl marker

theorem result_checkDerivation {link : Link} {sequence : RuleSequence} {derived base : Word}
    {before? : Option Text} {derivation : Derivation}
    (isDerived : graph.word link.source = .ok derived)
    (isBase : graph.word link.target = .ok base)
    (replayed : (graph.replayLink link base marker).result = .ok before?)
    (gave : (graph.derive sequence base.form marker).result = .ok derivation) :
    (graph.checkDerivation link sequence marker).result =
      graph.compareMade marker derived base before? derivation := by
  rw [checkDerivation_eq, isDerived, isBase]
  change ((graph.replayLink link base marker >>= _ : Session DerivationCheck)).result = _
  rw [result_bind (agree_replayLink shortNames link base marker)
    (agree_deriveAndCompare shortNames sequence derived base), replayed]
  change ((graph.derive sequence base.form marker >>= _ : Session DerivationCheck)).result = _
  rw [result_bind (agree_derive (Alike.refl shortNames) sequence base.form marker) fun _ =>
    agree_liftM _,
    gave]
  rfl

theorem result_checkLink (link : Link) (sequence : RuleSequence) :
    (graph.checkLink link sequence marker).result =
      match (graph.checkDerivation link sequence marker).result with
      | .ok check => .ok check
      | .error failure =>
        if failure.isRecordable then
          .ok ⟨link.source, link.target, none, [], .inconsistent, some failure⟩
        else .error failure := by
  have settles := agree_settle (agree_checkDerivation shortNames link sequence marker)
  unfold checkLink
  rw [result_bind settles fun result => by cases result <;> exact agree_pure rfl, result_settle]
  cases (graph.checkDerivation link sequence marker).result with
  | ok check => rfl
  | error failure =>
      by_cases isRecordable : failure.isRecordable = true
      · simp only [Error.settle, isRecordable, if_true]
        rfl
      · simp only [Error.settle, isRecordable, if_false, Bool.false_eq_true]
        rfl

theorem result_replayLink {link : Link} {base : Word} {result : WordForm}
    (leads : graph.Leads marker base.form link.rules result) :
    (graph.replayLink link base marker).result =
      .ok (if link.rules.isEmpty then none else some result.text) := by
  unfold replayLink
  by_cases areNone : link.rules.isEmpty = true
  · rw [if_pos areNone, if_pos areNone]
    rfl
  · rw [if_neg areNone, if_neg areNone,
      result_bind (agree_replay (Alike.refl shortNames) _ _ marker)
      fun _ => agree_pure rfl, leads.replay shortNames]
    rfl

end

theorem isRecordable_of_found {α : Type} {kind : EntityKind} {identifier : Text}
    {value? : Option α} {failure : Error} (isError : found kind identifier value? = .error failure) :
    failure.isRecordable = true := by
  cases value? with
  | some value => cases isError
  | none =>
      cases isError
      rfl

theorem isRecordable_of_isWritten {word : Word} {text : Text} {failure : Error}
    (isError : graph.isWritten word text marker = .error failure) :
    failure.isRecordable = true := by
  unfold isWritten at isError
  cases isFound : graph.language word.language with
  | ok language =>
      rw [isFound] at isError
      cases isError
  | error missing =>
      rw [isFound] at isError
      cases isError
      exact isRecordable_of_found isFound

/-- Where the rules on a link make what the sequence makes, there is one comparison with the
derived word for both, except that a link without rules has none to begin with. -/
theorem exists_check_of_leads (shortNames : KeepShortNames graph.languages) (link : Link)
    {sequence : RuleSequence} {base : Word} {derivation : Derivation}
    (isBase : graph.word link.target = .ok base)
    (derived : (graph.derive sequence base.form marker).result = .ok derivation)
    (isComplete : derivation.isComplete = true)
    (leads : graph.Leads marker base.form link.rules derivation.result) :
    ∃ check, ∃ isSame : Bool, (graph.checkLink link sequence marker).result = .ok check ∧
      check.consistency = .classify (!link.rules.isEmpty && isSame) isSame := by
  have inconsistent {failure : Error} (isRecordable : failure.isRecordable = true)
      (failed : (graph.checkDerivation link sequence marker).result = .error failure) :
      ∃ check, ∃ isSame : Bool, (graph.checkLink link sequence marker).result = .ok check ∧
        check.consistency = .classify (!link.rules.isEmpty && isSame) isSame := by
    have checked : (graph.checkLink link sequence marker).result =
        .ok ⟨link.source, link.target, none, [], .inconsistent, some failure⟩ := by
      rw [result_checkLink shortNames, failed]
      exact if_pos isRecordable
    exact ⟨_, false, checked, by rw [Bool.and_false]; rfl⟩
  cases isDerived : graph.word link.source with
  | error failure =>
      refine inconsistent (isRecordable_of_found isDerived) ?_
      rw [checkDerivation_eq, isDerived]
      rfl
  | ok word =>
      have checked := result_checkDerivation shortNames isDerived isBase
        (result_replayLink shortNames leads) derived
      unfold compareMade at checked
      rw [isComplete, if_pos rfl] at checked
      cases written : graph.isWritten word derivation.result.text marker with
      | error failure =>
          rw [written] at checked
          exact inconsistent (isRecordable_of_isWritten written) checked
      | ok isSame =>
          have compared : graph.isMade marker word
              (if link.rules.isEmpty then none else some derivation.result.text) =
                .ok (!link.rules.isEmpty && isSame) := by
            by_cases areNone : link.rules.isEmpty = true
            · simp [areNone, isMade]
            · simp [areNone, isMade, written]
          rw [written, compared] at checked
          have found : (graph.checkLink link sequence marker).result =
              .ok ⟨word.id, base.id, some derivation.result.text, word.text,
                .classify (!link.rules.isEmpty && isSame) isSame, none⟩ := by
            rw [result_checkLink shortNames, checked]
            rfl
          exact ⟨_, isSame, found, rfl⟩

/-- A check never fails with an error that can be recorded: that is a result of it. -/
theorem fails_checkLink (link : Link) (sequence : RuleSequence) :
    (graph.checkLink link sequence marker).FailsOnlyFrom Inventories.Any fun failure =>
      failure.isRecordable = false := by
  refine fails_bind (fun made _ => ⟨?_, trivial⟩) fun result => ?_
  · rw [on_settle]
    cases ((graph.checkDerivation link sequence marker).on made).1 with
    | ok check => trivial
    | error failure =>
        by_cases isRecordable : failure.isRecordable = true
        · simp only [Error.settle, isRecordable, if_true]
          trivial
        · simp [Error.settle, isRecordable, Meets]
  · cases result <;> exact fails_pure _

theorem mem_derivationsBy_withLink {link : Link} (isDerived : link.kind = .derived)
    (derivation : Derivation) (sequence : RuleSequence) :
    link.recording derivation sequence ∈
      (graph.withLink (link.recording derivation sequence)).derivationsBy sequence := by
  unfold derivationsBy
  rw [List.mem_mergeSort, List.mem_filter]
  constructor
  · have isFound : (graph.withLink (link.recording derivation sequence)).links.get?
        (link.recording derivation sequence).key = some (link.recording derivation sequence) := by
      simp [withLink]
    exact Table.mem_values_of_get? isFound
  · simp [Link.recording, isDerived]

/-- A sequence that is reapplied reports of each derivation what its check gives, unless the
check of another one fails for good. -/
theorem reapply_reports (shortNames : KeepShortNames graph.languages) {sequence : RuleSequence}
    {link : Link} {check : DerivationCheck} (isMember : link ∈ graph.derivationsBy sequence)
    (checked : (graph.checkLink link sequence marker).result = .ok check) {made : Inventories}
    (areOf : made.AreOf graph.languages) :
    Meets
      (fun failure => failure.isRecordable = false ∧
        ∃ other ∈ graph.derivationsBy sequence, other ≠ link ∧
          (graph.checkLink other sequence marker).result = .error failure)
      (fun checks => (link, check) ∈ (graph.derivationsBy sequence).zip checks)
      ((graph.reapply sequence marker).on made).1 := by
  have checks (other : Link) := agree_checkLink shortNames other sequence marker
  have failsOnly : ∀ other ∈ graph.derivationsBy sequence,
      (graph.checkLink other sequence marker).FailsOnlyFrom Inventories.Any fun failure =>
        failure.isRecordable = false := fun other _ => fails_checkLink other sequence
  have only := (fails_mapM failsOnly).ensures made
  have reapplied : ((graph.reapply sequence marker).on made).1 = _ :=
    (agree_mapM checks _).result_eq areOf
  rw [result_mapM checks] at reapplied
  change Meets _ _ ((graph.reapply sequence marker).on made).1 at only
  revert only
  rw [reapplied]
  cases outcome : (graph.derivationsBy sequence).mapM fun other =>
      (graph.checkLink other sequence marker).result with
  | ok checks => exact fun _ => Except.mem_zip_of_mapM outcome isMember checked
  | error failure =>
      intro notRecordable
      obtain ⟨other, isOther, failed⟩ := Except.exists_error_of_mapM outcome
      refine ⟨notRecordable, other, isOther, ?_, failed⟩
      rintro rfl
      cases checked.symm.trans failed

/-- A derivation that ran to its end and is recorded, is checked alike from then on: as one
that is right or one that is not, where some rule applied, and otherwise as one that was
never right.  That other derivations of the sequence are checked as well makes a difference
only where such a check ends the whole one. -/
theorem recorded_derivation_keeps_standing (keepsNames : graph.KeepsNames) {source target id : Int}
    {derivation : Derivation}
    (recorded : (Edit.recordDerivation source target id marker).on graph = (.ok derivation, after))
    (isComplete : derivation.isComplete = true) :
    ∃ sequence link check, after.sequences.get? id = some sequence ∧
      link ∈ after.derivationsBy sequence ∧ link.source = source ∧ link.target = target ∧
      link.rules = derivation.appliedRules ∧
      (derivation.appliedRules ≠ [] →
        check.consistency = .consistent ∨ check.consistency = .inconsistent) ∧
      (derivation.appliedRules = [] →
        check.consistency = .becomesConsistent ∨ check.consistency = .inconsistent) ∧
      ∀ made : Inventories, made.AreOf after.languages →
        ((after.checkLink link sequence marker).on made).1 = .ok check ∧
        match ((after.reapply sequence marker).on made).1 with
        | .ok checks => (link, check) ∈ (after.derivationsBy sequence).zip checks
        | .error failure => failure.isRecordable = false ∧
          ∃ other ∈ after.derivationsBy sequence, other ≠ link ∧
            (after.checkLink other sequence marker).result = .error failure := by
  obtain ⟨sequence, link, base, isStored, isLink, isTarget, isBase, derived, left⟩ :=
    recordDerivation_eq_ok recorded
  rw [if_pos isComplete] at left
  obtain ⟨-, ofSource⟩ := List.mem_filter.mp isLink
  obtain ⟨isSource, isDerived⟩ : link.source = source ∧ LinkKind.derived = link.kind := by
    simpa [isKind] using ofSource
  have alike := alike_withLink keepsNames.shortNames (link.recording derivation sequence)
  have isMember : _ ∈ (graph.withLink (link.recording derivation sequence)).derivationsBy _ :=
    mem_derivationsBy_withLink isDerived.symm derivation sequence
  rw [← left] at alike isMember
  have shortNames : KeepShortNames after.languages := alike.languages ▸ alike.shortNames
  have derivedAfter : (after.derive sequence base.form marker).result = .ok derivation := by
    rw [← derived]
    exact ((agree_derive alike sequence base.form marker).result_eq
      (Inventories.areOf_empty _)).symm
  have baseAfter : after.word target = .ok base := by
    rw [left]
    simp only [withLink, Graph.word, isBase, found]
  obtain ⟨check, isSame, checked, standing⟩ :=
    exists_check_of_leads shortNames (link.recording derivation sequence)
      (isTarget ▸ baseAfter) derivedAfter isComplete
      ((derive_leads keepsNames derived).of_alike alike)
  refine ⟨sequence, link.recording derivation sequence, check, by rw [left]; exact isStored,
    isMember, isSource, isTarget, rfl, fun someRule => ?_, fun noRule => ?_, fun made areOf => ⟨?_, ?_⟩⟩
  · have notEmpty : (link.recording derivation sequence).rules.isEmpty = false := by
      simpa [Link.recording] using someRule
    rw [standing, notEmpty]
    cases isSame with
    | true => exact .inl rfl
    | false => exact .inr rfl
  · have isEmpty : (link.recording derivation sequence).rules.isEmpty = true := by
      simpa [Link.recording] using noRule
    rw [standing, isEmpty]
    cases isSame with
    | true => exact .inl rfl
    | false => exact .inr rfl
  · rw [(agree_checkLink shortNames _ _ marker).result_eq areOf, checked]
  · have reports := reapply_reports shortNames isMember checked areOf
    cases outcome : ((after.reapply sequence marker).on made).1 <;> rw [outcome] at reports <;>
      exact reports

theorem recorded_derivation_keeps_standing_twoRules :
    (twoRules 1 "b").KeepsNames ∧ ∃ derivation after sequence link check,
      (Edit.recordDerivation 5 4 3).on (twoRules 1 "b") = (.ok derivation, after) ∧
      derivation.isComplete = true ∧ derivation.appliedRules = [1] ∧
      link ∈ after.derivationsBy sequence ∧ link.source = 5 ∧ link.target = 4 ∧
      (check.consistency = .consistent ∨ check.consistency = .inconsistent) ∧
      ((after.checkLink link sequence).on {}).1 = .ok check := by
  have keepsNames : (twoRules 1 "b").KeepsNames :=
    keepsNames_of_entries (by decide) (by decide)
  have seen : (((Edit.recordDerivation 5 4 3).on (twoRules 1 "b")).1.toOption.map
      fun derivation => (derivation.isComplete, derivation.appliedRules)) = some (true, [1]) := by
    decide +kernel
  obtain ⟨derivation, gave, same⟩ := Except.exists_of_toOption_map seen
  obtain ⟨isComplete, applied⟩ := Prod.mk.inj same
  have ran : (Edit.recordDerivation 5 4 3).on (twoRules 1 "b") = (.ok derivation, _) :=
    Prod.ext gave rfl
  obtain ⟨sequence, link, check, -, isMember, isSource, isTarget, -, stands, -, checked⟩ :=
    recorded_derivation_keeps_standing keepsNames ran isComplete
  refine ⟨keepsNames, derivation, _, sequence, link, check, ran, isComplete, applied, isMember,
    isSource, isTarget, stands ?_, (checked {} (Inventories.areOf_empty _)).1⟩
  rw [applied]
  exact List.cons_ne_nil _ _

/-- A derivation is recorded, and reapplying its sequence finds one that was not right and
is now. -/
def RecordsAndCorrects (graph : Graph) : Prop :=
  ∃ derivation after sequence checks,
    (Edit.recordDerivation 5 4 3).on graph = (.ok derivation, after) ∧
    derivation.isComplete = true ∧ after.sequences.get? 3 = some sequence ∧
    (after.reapply sequence).result = .ok checks ∧
    checks.map DerivationCheck.consistency = [.becomesConsistent]

/-- What is found when a derivation is recorded and its sequence is reapplied. -/
def standingsRecorded (graph : Graph) : Option (Bool × List Consistency) := do
  let (recorded, after) := (Edit.recordDerivation 5 4 3).on graph
  let derivation ← recorded.toOption
  let sequence ← after.sequences.get? 3
  let checks ← (after.reapply sequence).result.toOption
  return (derivation.isComplete, checks.map DerivationCheck.consistency)

theorem recordsAndCorrects_of_seen
    (seen : graph.standingsRecorded = some (true, [.becomesConsistent])) :
    graph.RecordsAndCorrects := by
  obtain ⟨derivation, isDerivation, seen⟩ := Option.bind_eq_some_iff.mp seen
  obtain ⟨sequence, isSequence, seen⟩ := Option.bind_eq_some_iff.mp seen
  obtain ⟨checks, areChecks, same⟩ := Option.bind_eq_some_iff.mp seen
  obtain ⟨isComplete, standings⟩ := Prod.mk.inj (Option.some.inj same)
  exact ⟨derivation, _, sequence, checks, Prod.ext (Except.toOption_eq_some.mp isDerivation) rfl,
    isComplete, isSequence, Except.toOption_eq_some.mp areChecks, standings⟩

/-- Neither of two optional rules applies to a word, and the derived word is the same one. -/
def unchangedWord : Graph :=
  { twoRules 1 "b" with
    words := ⟨[(4, { id := 4, text := "k", language := "b" }),
      (5, { id := 5, text := "k", language := "a" })]⟩ }

def misnumberedRule : Graph :=
  { twoRules 1 "b" with
    rules := ⟨[(1, edgeRule 2 "b" .beginning "s"), (2, edgeRule 2 "b" .beginning "t")]⟩
    sequences := ⟨[(3, { bothRules with steps := [{ rule := 1 }] })]⟩ }

/-- A language goes by the short name of another one, which has another vowel. -/
def misnamedLanguage : Graph :=
  { twoRules 1 "b" with
    languages := ⟨[
      ("a", { name := "A", shortName := "a", phonemes := [{ spelling := "e", tags := ["vowel"] }] }),
      ("b", { name := "B", shortName := "a", phonemes := [{ spelling := "x", tags := ["vowel"] }] })]⟩
    words := ⟨[(4, { id := 4, text := "ex", language := "a" }),
      (5, { id := 5, text := "exs", language := "a" })]⟩ }

theorem recorded_derivation_may_come_right :
    unchangedWord.RecordsAndCorrects ∧ misnumberedRule.RecordsAndCorrects ∧
      misnamedLanguage.RecordsAndCorrects := by
  refine ⟨recordsAndCorrects_of_seen ?_, recordsAndCorrects_of_seen ?_,
    recordsAndCorrects_of_seen ?_⟩ <;> decide +kernel

end Graph

end Diachrony
