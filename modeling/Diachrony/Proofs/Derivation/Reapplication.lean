import Diachrony.Proofs.Derivation.Rechecking
import Diachrony.Proofs.Graph.Linking

/-!
# What reapplying a sequence reports

A sequence is reapplied to each derivation that records it, in the order of their words.  Each
of them is reported once, and stands in one way; one that cannot be checked is reported with its
error, among those that are not right.  All checks share the inventories that are made on the
way.  As long as every language goes by its own short name, these bear on nothing, and a check
is the same whatever other derivations there are.
-/
namespace Diachrony

open Work

namespace DerivationCheck

theorem wordsStanding_cons (check : DerivationCheck) (checks : List DerivationCheck)
    (consistency : Consistency) :
    wordsStanding (check :: checks) consistency =
      if check.consistency = consistency then check.word :: wordsStanding checks consistency
      else wordsStanding checks consistency := by
  unfold wordsStanding
  rw [List.filter_cons]
  by_cases isStanding : check.consistency = consistency
  · rw [if_pos (beq_iff_eq.mpr isStanding), if_pos isStanding, List.map_cons]
  · rw [if_neg (beq_iff_eq.not.mpr isStanding), if_neg isStanding]

/-- Each check has its word in one of the four lists. -/
theorem perm_wordsStanding (checks : List DerivationCheck) :
    (wordsStanding checks .consistent ++ wordsStanding checks .becomesConsistent ++
      wordsStanding checks .becomesInconsistent ++ wordsStanding checks .inconsistent).Perm
        (checks.map DerivationCheck.word) := by
  rw [List.perm_iff_count]
  intro word
  induction checks with
  | nil => rfl
  | cons check checks inductionHypothesis =>
      simp only [List.count_append, wordsStanding_cons, List.map_cons, List.count_cons]
        at inductionHypothesis ⊢
      cases check.consistency <;>
        simp only [reduceCtorEq, if_true, if_false, List.count_cons] <;> omega

/-- What is kept of checks while one after the other is made: the words that stand in each way,
the errors, and the checks themselves. -/
@[ext]
structure Tally where
  words : Consistency → List Int
  errors : List Error
  checks : List DerivationCheck

namespace Tally

def add (tally : Tally) (check : DerivationCheck) : Tally where
  words consistency :=
    if check.consistency = consistency then tally.words consistency ++ [check.word]
    else tally.words consistency
  errors := tally.errors ++ check.error.toList
  checks := tally.checks ++ [check]

def ofChecks (checks : List DerivationCheck) : Tally :=
  checks.foldl add ⟨fun _ => [], [], []⟩

def allWords (tally : Tally) : List Int :=
  tally.words .consistent ++ tally.words .becomesConsistent ++
    tally.words .becomesInconsistent ++ tally.words .inconsistent

theorem words_add (tally : Tally) (check : DerivationCheck) (checks : List DerivationCheck)
    (consistency : Consistency) :
    (tally.add check).words consistency ++ wordsStanding checks consistency =
      tally.words consistency ++ wordsStanding (check :: checks) consistency := by
  rw [wordsStanding_cons, add]
  dsimp only
  split
  · rw [List.append_assoc, List.singleton_append]
  · rfl

theorem errors_add (tally : Tally) (check : DerivationCheck) (checks : List DerivationCheck) :
    (tally.add check).errors ++ checks.filterMap DerivationCheck.error =
      tally.errors ++ (check :: checks).filterMap DerivationCheck.error := by
  cases isError : check.error with
  | none => simp [add, isError]
  | some failure => simp [add, isError]

theorem foldl_add (checks : List DerivationCheck) (tally : Tally) :
    checks.foldl add tally =
      ⟨fun consistency => tally.words consistency ++ wordsStanding checks consistency,
        tally.errors ++ checks.filterMap DerivationCheck.error, tally.checks ++ checks⟩ := by
  induction checks generalizing tally with
  | nil => ext <;> simp [wordsStanding]
  | cons check checks inductionHypothesis =>
      rw [List.foldl_cons, inductionHypothesis]
      refine Tally.ext (funext fun consistency => ?_) ?_ ?_
      · exact words_add tally check checks consistency
      · exact errors_add tally check checks
      · exact (List.append_cons _ _ _).symm

theorem ofChecks_eq (checks : List DerivationCheck) :
    ofChecks checks = ⟨wordsStanding checks, checks.filterMap DerivationCheck.error, checks⟩ :=
  foldl_add checks _

/-- Each check has its word in one of the four lists. -/
theorem perm_allWords (checks : List DerivationCheck) :
    (ofChecks checks).allWords.Perm (checks.map DerivationCheck.word) := by
  rw [ofChecks_eq]
  exact perm_wordsStanding checks

end Tally

end DerivationCheck

deriving instance DecidableEq for Link, RuleSequence

def Link.ComesBefore (left right : Link) : Prop :=
  left.source < right.source ∨ left.source = right.source ∧ left.target < right.target

instance (left right : Link) : Decidable (left.ComesBefore right) :=
  inferInstanceAs (Decidable (_ ∨ _))

namespace Graph

open DerivationCheck (Tally wordsStanding)

variable {graph other : Graph} {marker : Text} {sequence : RuleSequence} {link : Link}
  {check : DerivationCheck} {checks : List DerivationCheck}

/-- The derived links that record a sequence, in the order in which they are stored. -/
def linksRecording (graph : Graph) (sequence : RuleSequence) : List Link :=
  graph.links.values.filter fun link =>
    link.sequence == some sequence.id && link.kind == .derived

theorem perm_derivationsBy :
    (graph.derivationsBy sequence).Perm (graph.linksRecording sequence) :=
  List.mergeSort_perm _ _

/-- Links that are stored in the order of their words are in this order. -/
theorem derivationsBy_eq_linksRecording
    (inOrder : (graph.linksRecording sequence).Pairwise Link.ComesBefore) :
    graph.derivationsBy sequence = graph.linksRecording sequence := by
  refine List.mergeSort_of_pairwise (inOrder.imp fun isBefore => ?_)
  simp only [Bool.or_eq_true, Bool.and_eq_true, decide_eq_true_eq, beq_iff_eq]
  exact isBefore.imp_right fun ⟨sameSource, isBelow⟩ => ⟨sameSource, Int.le_of_lt isBelow⟩

theorem isDerived_of_mem_derivationsBy (isMember : link ∈ graph.derivationsBy sequence) :
    link.kind = .derived := by
  have isChosen := (List.mem_filter.mp (perm_derivationsBy.mem_iff.mp isMember)).2
  rw [Bool.and_eq_true] at isChosen
  exact beq_iff_eq.mp isChosen.2

/-- No derivation comes behind one that its words come before. -/
theorem derivationsBy_comeSorted :
    (graph.derivationsBy sequence).Pairwise fun left right => ¬right.ComesBefore left := by
  have inOrder : (graph.derivationsBy sequence).Pairwise fun left right =>
      (left.source < right.source || left.source == right.source && left.target ≤ right.target) =
        true := by
    refine List.pairwise_mergeSort (fun first second third => ?_) (fun first second => ?_) _
    · simp only [Bool.or_eq_true, Bool.and_eq_true, decide_eq_true_eq, beq_iff_eq]
      omega
    · simp only [Bool.or_eq_true, Bool.and_eq_true, decide_eq_true_eq, beq_iff_eq]
      omega
  refine inOrder.imp fun inOrder => ?_
  simp only [Bool.or_eq_true, Bool.and_eq_true, decide_eq_true_eq, beq_iff_eq] at inOrder
  unfold Link.ComesBefore
  omega

/-- Where each link is stored once, no two derivations have the same words. -/
theorem derivationsBy_comeInOrder (keepsLinks : graph.KeepsLinks) :
    (graph.derivationsBy sequence).Pairwise Link.ComesBefore := by
  have areApart : graph.links.values.Pairwise fun left right => left.key ≠ right.key := by
    have nodup := keepsLinks.nodup
    rw [keepsLinks.keys_eq] at nodup
    exact List.pairwise_map.mp nodup
  have areApart : (graph.derivationsBy sequence).Pairwise fun left right => left.key ≠ right.key :=
    (perm_derivationsBy.pairwise_iff fun differ => Ne.symm differ).mpr (areApart.filter _)
  refine (derivationsBy_comeSorted.and areApart).imp_of_mem
    fun {left right} isLeft isRight ⟨notBehind, differ⟩ => ?_
  have sameKind : left.kind = right.kind :=
    (isDerived_of_mem_derivationsBy isLeft).trans (isDerived_of_mem_derivationsBy isRight).symm
  have notSame : ¬(left.source = right.source ∧ left.target = right.target) := by
    rintro ⟨sameSource, sameTarget⟩
    refine differ ?_
    unfold Link.key
    rw [sameSource, sameTarget, sameKind]
  unfold Link.ComesBefore at notBehind ⊢
  omega

/-- What is reported of a derivation: what was found when it was checked, or the error that the
check ended with. -/
inductive Reports (graph : Graph) (marker : Text) (sequence : RuleSequence) (link : Link) :
    DerivationCheck → Prop
  | found {check : DerivationCheck} {made left : Inventories} :
      (graph.checkDerivation link sequence marker).on made = (.ok check, left) →
          check.error = none →
        Reports graph marker sequence link check
  | failed {failure : Error} {made left : Inventories} :
      (graph.checkDerivation link sequence marker).on made = (.error failure, left) →
        Reports graph marker sequence link
          ⟨link.source, link.target, none, [], .inconsistent, some failure⟩

theorem error_of_checkDerivation {made left : Inventories}
    (gave : (graph.checkDerivation link sequence marker).on made = (.ok check, left)) :
    check.error = none := by
  rw [checkDerivation_eq] at gave
  obtain ⟨derived, _, -, gave⟩ := on_bind_eq_ok.mp gave
  obtain ⟨base, _, -, gave⟩ := on_bind_eq_ok.mp gave
  obtain ⟨before?, _, -, gave⟩ := on_bind_eq_ok.mp gave
  obtain ⟨derivation, _, -, gave⟩ := on_bind_eq_ok.mp gave
  have gave : graph.compareMade marker derived base before? derivation = .ok check :=
    congrArg Prod.fst gave
  unfold compareMade at gave
  dsimp only at gave
  split at gave
  all_goals
    obtain ⟨is, -, gave⟩ := Except.bind_eq_ok.mp gave
    obtain ⟨was, -, gave⟩ := Except.bind_eq_ok.mp gave
    cases gave
    rfl

theorem reports_of_checkLink {made left : Inventories}
    (gave : (graph.checkLink link sequence marker).on made = (.ok check, left)) :
    graph.Reports marker sequence link check := by
  obtain ⟨result, between, settled, gave⟩ := on_bind_eq_ok.mp gave
  obtain ⟨ended, -⟩ := on_settle_eq_ok.mp settled
  cases result with
  | ok found =>
      cases gave
      exact .found ended (error_of_checkDerivation ended)
  | error failure =>
      cases gave
      exact .failed ended

theorem Reports.inconsistent_of_error (reports : graph.Reports marker sequence link check)
    (failed : check.error ≠ none) : check.consistency = .inconsistent := by
  cases reports with
  | found gave isNone => exact absurd isNone failed
  | failed gave => rfl

/-- Reapplying a sequence reports of each derivation. -/
theorem reports_of_reapply {made left : Inventories}
    (gave : (graph.reapply sequence marker).on made = (.ok checks, left)) :
    List.Forall₂ (graph.Reports marker sequence) (graph.derivationsBy sequence) checks :=
  (forall₂_of_on_mapM gave).imp fun _ _ ⟨_, _, gave⟩ => reports_of_checkLink gave

theorem result_checkLink_of_reapply (shortNames : KeepShortNames graph.languages)
    (gave : (graph.reapply sequence marker).result = .ok checks) :
    List.Forall₂ (fun link check => (graph.checkLink link sequence marker).result = .ok check)
      (graph.derivationsBy sequence) checks := by
  unfold reapply at gave
  rw [result_mapM fun link => agree_checkLink shortNames link sequence marker] at gave
  exact Except.forall₂_of_mapM gave

/-- Whenever a sequence can be reapplied, the derivations that record it are reported in the order
of their words, each once: with what was found, or else with an error, as one that is not right.
Each check has its word in one of the four lists of their tally, which has the errors in the order
of the checks.  If each language goes by the short name it is stored under, the check of a
derivation is what checking it by itself gives, and so it is the same in any graph with the same
languages and rules in which it has the same words. -/
theorem reapply_checks_each (gave : (graph.reapply sequence marker).result = .ok checks) :
    (graph.derivationsBy sequence).Perm (graph.linksRecording sequence) ∧
    (graph.derivationsBy sequence).Pairwise (fun left right => ¬right.ComesBefore left) ∧
    (graph.KeepsLinks → (graph.derivationsBy sequence).Pairwise Link.ComesBefore) ∧
    List.Forall₂ (graph.Reports marker sequence) (graph.derivationsBy sequence) checks ∧
    Tally.ofChecks checks =
      ⟨wordsStanding checks, checks.filterMap DerivationCheck.error, checks⟩ ∧
    (Tally.ofChecks checks).allWords.Perm (checks.map DerivationCheck.word) ∧
    (Tally.ofChecks checks).allWords.length = checks.length ∧
    (∀ check ∈ checks, check.error ≠ none → check.consistency = .inconsistent) ∧
    (KeepShortNames graph.languages → ∀ link check,
      (link, check) ∈ (graph.derivationsBy sequence).zip checks →
        (graph.checkLink link sequence marker).result = .ok check ∧
        ∀ (other : Graph) later, other.languages = graph.languages → other.rules = graph.rules →
          other.words.get? link.source = graph.words.get? link.source →
          other.words.get? link.target = graph.words.get? link.target →
          (other.reapply sequence marker).result = .ok later → ∀ checkLater,
            (link, checkLater) ∈ (other.derivationsBy sequence).zip later → checkLater = check) := by
  have reports := reports_of_reapply (Prod.ext gave rfl)
  refine ⟨perm_derivationsBy, derivationsBy_comeSorted, derivationsBy_comeInOrder, reports,
    Tally.ofChecks_eq checks, Tally.perm_allWords checks, ?_, fun check isMember failed => ?_,
    fun shortNames link check isChecked => ?_⟩
  · exact (Tally.perm_allWords checks).length_eq.trans (List.length_map _)
  · obtain ⟨place, isBelow, rfl⟩ := List.mem_iff_getElem.mp isMember
    have isThere : place < (graph.derivationsBy sequence).length := reports.length_eq ▸ isBelow
    exact (reports.get isThere isBelow).inconsistent_of_error failed
  · have checked := List.forall₂_zip (result_checkLink_of_reapply shortNames gave) isChecked
    refine ⟨checked, fun other later languages rules sameSource sameTarget gaveLater checkLater
      isCheckedLater => ?_⟩
    have alike : Alike graph other := ⟨languages, rules, shortNames⟩
    have shortNamesLater : KeepShortNames other.languages := languages ▸ shortNames
    have checkedLater :=
      List.forall₂_zip (result_checkLink_of_reapply shortNamesLater gaveLater) isCheckedLater
    have same := (agree_checkLink_of_alike alike sequence sameSource sameTarget marker).result_eq
      (Inventories.areOf_empty _)
    exact Except.ok.inj (checkedLater.symm.trans (same.symm.trans checked))

def optionalRule : RuleSequence where
  id := 3
  name := "q"
  fromLanguage := "a"
  toLanguage := "a"
  steps := [{ rule := 1, optional := true }]

/-- A sequence that three links record, of which one is no derivation.  Of the two that are, the
rule that the first one records fails, since the language has no open vowels, and that of the second
one applies. -/
def recordingGraph : Graph := .ofRun [
  .addLanguage
    { name := "A", shortName := "a", phonemes := [{ spelling := "x", tags := ["vowel"] }] }
    Mutation.isNamed_a,
  .addRule [("name", .text "t"), ("from_language", .text "a"), ("to_language", .null),
    ("text", .text "word ends with vowel:\n- append 't'"), ("id", .null)] none,
  .addRule [("name", .text "u"), ("from_language", .text "a"), ("to_language", .null),
    ("text", .text "word ends with open:\n- append 'u'"), ("id", .null)] none,
  .addSequence (.text "t?") [("name", .text "q"), ("from_language", .text "a"),
    ("to_language", .text "a"), ("id", .null)],
  .addWord [("text", .text "kx"), ("language", .text "a"), ("id", .null)],
  .addWord [("text", .text "kxt"), ("language", .text "a"), ("id", .null)],
  .addLink [("from_id", .integer 4), ("to_id", .integer 5), ("type", .text "derived"),
    ("rule_ids", .list [.integer 2]), ("sequence_id", .integer 3)],
  .addLink [("from_id", .integer 5), ("to_id", .integer 4), ("type", .text "derived"),
    ("rule_ids", .list [.integer 1]), ("sequence_id", .integer 3)],
  .addLink [("from_id", .integer 4), ("to_id", .integer 5), ("type", .text "related"),
    ("rule_ids", .list []), ("sequence_id", .integer 3)]]

/-- The results of checks, as far as they can be compared. -/
def standings (graph : Graph) (sequence : RuleSequence) (links : List Link) :
    Option (List Consistency) :=
  (links.mapM fun link => graph.checkLink link sequence).result.toOption.map fun checks =>
    checks.map DerivationCheck.consistency

theorem exists_of_standings {standings : List Consistency}
    (inOrder : (graph.linksRecording sequence).Pairwise Link.ComesBefore)
    (areSeen : graph.standings sequence (graph.linksRecording sequence) = some standings) :
    ∃ checks, (graph.reapply sequence).result = .ok checks ∧
      checks.map DerivationCheck.consistency = standings := by
  unfold reapply
  rw [derivationsBy_eq_linksRecording inOrder]
  exact Except.exists_of_toOption_map areSeen

theorem reapply_checks_each_recordingGraph :
    recordingGraph.sequences.get? 3 = some optionalRule ∧
    ∃ checks, (recordingGraph.reapply optionalRule).result = .ok checks ∧
      checks.map DerivationCheck.consistency = [.inconsistent, .consistent] ∧
      List.Forall₂ (recordingGraph.Reports usualMarker optionalRule)
        (recordingGraph.derivationsBy optionalRule) checks := by
  have areSeen : recordingGraph.standings optionalRule (recordingGraph.linksRecording optionalRule) =
      some [.inconsistent, .consistent] := by decide +kernel
  obtain ⟨checks, gave, areStandings⟩ := exists_of_standings (by decide +kernel) areSeen
  exact ⟨by decide +kernel, checks, gave, areStandings, (reapply_checks_each gave).2.2.2.1⟩

/-- When the first of two derivations is deleted, the other one is found to stand in another
way. -/
def DeletingChangesCheck (graph : Graph) (sequence : RuleSequence) : Prop :=
  ∃ after checks later link check checkLater, graph.sequences.get? 3 = some sequence ∧
    (Edit.deleteLink ⟨4, 5, .derived⟩).on graph = (.ok (), after) ∧
    (graph.reapply sequence).result = .ok checks ∧
    (after.reapply sequence).result = .ok later ∧
    (link, check) ∈ (graph.derivationsBy sequence).zip checks ∧
    (link, checkLater) ∈ (after.derivationsBy sequence).zip later ∧
    checkLater.consistency ≠ check.consistency

theorem deletingChangesCheck_of_seen {after : Graph} {gone left : Link}
    {standing standingGone standingLater : Consistency}
    (isStored : graph.sequences.get? 3 = some sequence)
    (ran : (Edit.deleteLink ⟨4, 5, .derived⟩).on graph = (.ok (), after))
    (areRecording : graph.linksRecording sequence = [gone, left]) (inOrder : gone.ComesBefore left)
    (isLeft : after.linksRecording sequence = [left])
    (areSeen : graph.standings sequence [gone, left] = some [standingGone, standing])
    (isSeen : after.standings sequence [left] = some [standingLater])
    (differ : standingLater ≠ standing) : DeletingChangesCheck graph sequence := by
  have areInOrder : (graph.linksRecording sequence).Pairwise Link.ComesBefore := by
    rw [areRecording]
    exact List.pairwise_pair.mpr inOrder
  have isInOrder : (after.linksRecording sequence).Pairwise Link.ComesBefore := by
    rw [isLeft]
    exact List.pairwise_singleton _ _
  obtain ⟨checks, gave, areStandings⟩ := exists_of_standings areInOrder (areRecording ▸ areSeen)
  obtain ⟨later, gaveLater, isStanding⟩ := exists_of_standings isInOrder (isLeft ▸ isSeen)
  obtain ⟨checkGone, others, rfl, -, areOthers⟩ := List.map_eq_cons_iff.mp areStandings
  obtain ⟨check, rest, rfl, rfl, areNone⟩ := List.map_eq_cons_iff.mp areOthers
  obtain ⟨checkLater, restLater, rfl, rfl, -⟩ := List.map_eq_cons_iff.mp isStanding
  refine ⟨after, _, _, left, check, checkLater, isStored, ran, gave, gaveLater, ?_, ?_, differ⟩
  · rw [derivationsBy_eq_linksRecording areInOrder, areRecording]
    exact List.mem_cons_of_mem _ List.mem_cons_self
  · rw [derivationsBy_eq_linksRecording isInOrder, isLeft]
    exact List.mem_cons_self

/-- Two languages, of which the second one alone has a vowel and is given the short name of the
first one, and two derivations with a rule of the first language.  Only the first of them records
rules, one of the second language. -/
def sharedName : Graph := .ofRun [
  .addLanguage { name := "A", shortName := "a" } Mutation.isNamed_a,
  .addLanguage
    { name := "B", shortName := "b", phonemes := [{ spelling := "x", tags := ["vowel"] }] }
    Mutation.isNamed_b,
  .addRule [("name", .text "s"), ("from_language", .text "b"), ("to_language", .text "a"),
    ("text", .text "word begins with vowel:\n- append 's'"), ("id", .null)] none,
  .addRule [("name", .text "t"), ("from_language", .text "a"), ("to_language", .null),
    ("text", .text "word ends with vowel:\n- append 't'"), ("id", .null)] none,
  .addSequence (.text "t?") [("name", .text "q"), ("from_language", .text "a"),
    ("to_language", .text "a"), ("id", .null)],
  .addWord [("text", .text "kx"), ("language", .text "a"), ("id", .null)],
  .addWord [("text", .text "kx"), ("language", .text "a"), ("id", .integer 5)],
  .addLink [("from_id", .integer 4), ("to_id", .integer 5), ("type", .text "derived"),
    ("rule_ids", .list [.integer 1]), ("sequence_id", .integer 3)],
  .addLink [("from_id", .integer 5), ("to_id", .integer 4), ("type", .text "derived"),
    ("rule_ids", .list []), ("sequence_id", .integer 3)],
  .setLanguage "b" "short_name" (.text "a")]

def endingRule : RuleSequence := { optionalRule with steps := [{ rule := 2, optional := true }] }

/-- The derivation that records a rule of the second language. -/
def firstDerivation : Link := { source := 4, target := 5, rules := [1], sequence := some 3 }

def secondDerivation : Link := { source := 5, target := 4, sequence := some 3 }

/-- Without the first derivation, the second language is never needed, and the rule does not find
a vowel. -/
theorem check_may_change_with_another : DeletingChangesCheck sharedName endingRule := by
  obtain ⟨isStored, areRecording, areSeen⟩ :
      sharedName.sequences.get? 3 = some endingRule ∧
      sharedName.linksRecording endingRule = [firstDerivation, secondDerivation] ∧
      sharedName.standings endingRule [firstDerivation, secondDerivation] =
        some [.becomesInconsistent, .inconsistent] := by decide +kernel
  obtain ⟨isDeleted, isLeft, isSeen⟩ :
      ((Edit.deleteLink ⟨4, 5, .derived⟩).on sharedName).1.toOption = some () ∧
      ((Edit.deleteLink ⟨4, 5, .derived⟩).on sharedName).2.linksRecording endingRule =
        [secondDerivation] ∧
      ((Edit.deleteLink ⟨4, 5, .derived⟩).on sharedName).2.standings endingRule
        [secondDerivation] = some [.becomesConsistent] := by decide +kernel
  have ran := Edit.on_of_toOption isDeleted
  exact deletingChangesCheck_of_seen isStored ran areRecording (by decide) isLeft areSeen isSeen
    (by decide)

end Graph

end Diachrony
