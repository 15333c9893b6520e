import Diachrony.Sequence.Derivation

/-!
Consistency of what a graph records.

A derived link records the rules that once led from one word to the other, and
the sequence they were part of. Re-applying the sequence compares what those
rules make of the word with what the sequence makes of it now. Issues are things
about single words that do not fit together.
-/
namespace Diachrony

/-- How a recorded derivation stands: whether the recorded rules made the derived
word, and whether the sequence makes it now. -/
inductive Consistency where
  | consistent | becomesConsistent | becomesInconsistent | inconsistent
  deriving DecidableEq

namespace Consistency

def name : Consistency → Text
  | consistent => "consistent"
  | becomesConsistent => "becomes_consistent"
  | becomesInconsistent => "becomes_inconsistent"
  | inconsistent => "inconsistent"

/-- The standing of a derivation that was, and is, right or not. -/
def classify (was is : Bool) : Consistency :=
  match was, is with
  | true, true => consistent
  | false, true => becomesConsistent
  | true, false => becomesInconsistent
  | false, false => inconsistent

end Consistency

/-- The check of one recorded derivation: what the sequence makes, what the
derived word is, and how the two stand. -/
structure DerivationCheck where
  word : Int
  base : Int
  expected : Option Text
  actual : Text
  consistency : Consistency
  error : Option Error := none

namespace Graph

/-- Runs rules over a form one after the other, whether they apply or not. -/
def replay (graph : Graph) (form : WordForm) (rules : List Int)
    (marker : Text := usualMarker) : Session WordForm :=
  rules.foldlM (fun form id => do return (← graph.apply (← graph.rule id) form marker).form) form

def replayLink (graph : Graph) (link : Link) (base : Word) (marker : Text := usualMarker) :
    Session (Option Text) :=
  if link.rules.isEmpty then return none
  else do return some (← graph.replay base.form link.rules marker).text

/-- Whether a word is written in a given way, as comparisons see it. Its language
has to exist. -/
def isWritten (graph : Graph) (word : Word) (text : Text) (marker : Text := usualMarker) :
    Except Error Bool := do
  let _ ← graph.language word.language
  return comparable marker word.text == comparable marker text

def checkDerivation (graph : Graph) (link : Link) (sequence : RuleSequence)
    (marker : Text := usualMarker) : Session DerivationCheck := do
  let derived ← graph.word link.source
  let base ← graph.word link.target
  let before? ← graph.replayLink link base marker
  let derivation ← graph.derive sequence base.form marker
  let is ←
    if derivation.isComplete then graph.isWritten derived derivation.result.text marker
    else pure false
  let was ← match before? with
    | some before => graph.isWritten derived before marker
    | none => pure false
  return {
    word := derived.id
    base := base.id
    expected := some derivation.result.text
    actual := derived.text
    consistency := .classify was is }

/-- Checks a link; an error counts as an inconsistency. -/
def checkLink (graph : Graph) (link : Link) (sequence : RuleSequence)
    (marker : Text := usualMarker) : Session DerivationCheck := do
  match ← Work.settle (graph.checkDerivation link sequence marker) with
  | .ok check => return check
  | .error failure =>
    return {
      word := link.source
      base := link.target
      expected := none
      actual := []
      consistency := .inconsistent
      error := some failure }

def reapply (graph : Graph) (sequence : RuleSequence) (marker : Text := usualMarker) :
    Session (List DerivationCheck) :=
  (graph.derivationsBy sequence).mapM fun link => graph.checkLink link sequence marker

end Graph

def DerivationCheck.wordsStanding (checks : List DerivationCheck)
    (consistency : Consistency) : List Int :=
  (checks.filter fun check => check.consistency == consistency).map DerivationCheck.word

/-- What may not fit together about a word. -/
inductive IssueKind where
  | derivedLinkWithoutRules | partOfSpeechOnDerived | missingPartOfSpeech
  | unknownPartOfSpeech | glossOnDerived | missingGloss
  deriving DecidableEq

def IssueKind.name : IssueKind → Text
  | derivedLinkWithoutRules => "derived_link_without_rules"
  | partOfSpeechOnDerived => "pos_on_derived_word"
  | missingPartOfSpeech => "missing_pos"
  | unknownPartOfSpeech => "unknown_pos"
  | glossOnDerived => "gloss_on_derived_word"
  | missingGloss => "missing_gloss"

def IssueKind.description : IssueKind → Text
  | derivedLinkWithoutRules => "Derived link with no rules for word "
  | partOfSpeechOnDerived => "POS specified for derived word "
  | missingPartOfSpeech => "No POS specified for word "
  | unknownPartOfSpeech => "POS not in list for word "
  | glossOnDerived => "Gloss specified for derived word "
  | missingGloss => "No gloss specified for word "

structure Issue where
  word : Word
  kind : IssueKind

def Issue.description (issue : Issue) : Text :=
  issue.kind.description ++ issue.word.text

namespace Graph

def isDerived (graph : Graph) (word : Word) : Bool :=
  !(graph.linksFrom word.id (some .derived)).isEmpty ||
    !(graph.linksFrom word.id (some .variant)).isEmpty

/-- Whether a word may do without a part of speech and a gloss of its own. -/
def inheritsMeaning (graph : Graph) (word : Word) : Bool :=
  graph.isDerived word || !(graph.compoundsOf word.id).isEmpty

def partOfSpeechIssue (graph : Graph) (word : Word) : Except Error (Option IssueKind) :=
  if graph.isDerived word && word.partOfSpeech.isSome then
    .ok (some .partOfSpeechOnDerived)
  else if word.partOfSpeech.isNone && !graph.inheritsMeaning word then
    .ok (some .missingPartOfSpeech)
  else do
    let language ← graph.language word.language
    let isUnknown := word.partOfSpeech.any fun part =>
      !language.partsOfSpeech.isEmpty && !language.partsOfSpeech.contains part
    return if isUnknown then some .unknownPartOfSpeech else none

def glossIssue (graph : Graph) (word : Word) : Option IssueKind :=
  if graph.isDerived word && word.gloss.isSome then some .glossOnDerived
  else if word.gloss.isNone && !graph.inheritsMeaning word then some .missingGloss
  else none

def linkIssues (graph : Graph) (word : Word) : List IssueKind :=
  ((graph.linksFrom word.id (some .derived)).filter fun link => link.rules.isEmpty).map
    fun _ => .derivedLinkWithoutRules

def wordIssues (graph : Graph) (word : Word) : Except Error (List Issue) := do
  let kinds := (← graph.partOfSpeechIssue word).toList ++ (graph.glossIssue word).toList ++
    graph.linkIssues word
  return kinds.map fun kind => ⟨word, kind⟩

def issues (graph : Graph) (language : Option Text := none) :
    Except Error (List Issue) := do
  return (← (graph.wordsOf language).mapM graph.wordIssues).flatten

end Graph

end Diachrony
