import Diachrony.GivenId
import Diachrony.ReadingFault

/-!
Errors, as causes. Each has a code and a status, some concern one field of what
was entered, and all have particulars; the wording stands in `Error.message`
and in the functions it is made of.

Operations on many things go on after an error of one of them. They record the
errors that are `isRecordable`: those that say what is wrong with a rule, a name
or a change. The others say that data or an index is broken, and stop everything.
-/
namespace Diachrony

open Text (quoted joinWith ofInt ofNat absent)

inductive SequenceFault where
  | malformedStep (found : Text)
  | noSuchRule (name : Text)
  deriving DecidableEq

inductive ParadigmFault where
  | noColumns
  | tooManyCells (row : Text) (cells columns : Nat)
  | noSuchRule (name : Text)
  deriving DecidableEq

inductive NameKind where
  | phonemeClass | wordClass | categoryValue
  deriving DecidableEq

inductive EntityKind where
  | language | phoneme | word | rule | sequence | paradigm | link
  deriving DecidableEq

/-- The ways in which a change would leave a graph inconsistent. -/
inductive Conflict where
  | duplicateLanguage (name : Text)
  | duplicateWord (id : Data)
  | ruleRegistered (name : Data) (id : GivenId)
  | duplicateRule (name : Data)
  | ruleRenamed (name : Text)
  | ruleUsed (name user : Text)
  | ruleDesignated (name language : Text)
  | ruleOutsideSequence (rule ruleFrom ruleTo sequence sequenceFrom sequenceTo : Text)
      (step : Nat)
  | alternativeMismatch (alternative rule sequence : Text) (step : Nat)
  | missingRuleInParadigm (paradigm : Text) (rule : Int)
  | duplicateLink (source target : Data)
  | paradigmLanguage (paradigm : Text) (paradigmId : Int) (language : Text)
      (word : Int) (wordLanguage : Text)
  | paradigmPartOfSpeech (paradigm : Text) (paradigmId word : Int)
      (partOfSpeech : Option Text)
  | categoryPartOfSpeech (category partOfSpeech language : Text)

/-- An error. -/
inductive Error where
  | inRule (fault : ReadingFault) (rule : Data) (line : Option Nat)
  | inSequence (fault : SequenceFault) (line : Nat) (sequence : Data)
  | inParadigm (fault : ParadigmFault) (line : Nat)
  | undefinedName (kind : NameKind) (reference : Option Text) (language : Text)
      (rule : Option Text)
  | recursiveRule (rule : Text) (chain : List Text)
  | notFound (kind : EntityKind) (identifier : Text)
  | inconsistent (conflict : Conflict)
  | unreadableArchive (reason : Text)
  | invalidValue (field : Text)
  | unusableValue (field : Text)
  | valueWithoutParts (field : Text)
  | missingField (field : Text)
  | unpairedField
  | unknownLinkType (name : Text)
  | unknownKind (name : Text)
  | notAboutWords (verb : Text)
  | soundRequired
  | missingPart (part : Text)
  | unnamedOrdinal (number : Option Int)
  | noSuchSound (index : Int)
  | noSuchCell (row column : Int) (paradigm : Text)
  | noSuchRow
  | noSuchColumn
  | indexTooLarge
  | unreadableNumber (found : Text)

def SequenceFault.message : SequenceFault → Text
  | malformedStep found => "malformed step ".toList ++ quoted found
  | noSuchRule name => "no such rule ".toList ++ quoted name

def ParadigmFault.message : ParadigmFault → Text
  | noColumns => "paradigm has no columns"
  | tooManyCells row cells columns =>
    "row ".toList ++ quoted row ++ " has ".toList ++ ofNat cells ++
      " cells for ".toList ++ ofNat columns ++ " columns".toList
  | noSuchRule name => "no such rule ".toList ++ quoted name

def NameKind.label : NameKind → Text
  | phonemeClass => "phoneme class"
  | wordClass => "word class"
  | categoryValue => "category value"

def EntityKind.label : EntityKind → Text
  | language => "Language"
  | phoneme => "Phoneme"
  | word => "Word"
  | rule => "Rule"
  | sequence => "RuleSequence"
  | paradigm => "Paradigm"
  | link => "Link"

/-- A way from one language or word to another. -/
def arrow (source target : Text) : Text := source ++ " -> ".toList ++ target

def bracketedArrow (source target : Text) : Text :=
  " (".toList ++ arrow source target ++ ")".toList

namespace Conflict

def message : Conflict → Text
  | duplicateLanguage name => "Duplicate language ".toList ++ name
  | duplicateWord id => "Duplicate word id ".toList ++ id.label
  | ruleRegistered name id =>
    "Rule ".toList ++ name.label ++ " already registered with id ".toList ++ id.label
  | duplicateRule name => "Duplicate rule ".toList ++ name.label
  | ruleRenamed _ => "Rules cannot be renamed"
  | ruleUsed name user =>
    "Rule ".toList ++ name ++ " is used by rule ".toList ++ user
  | ruleDesignated name language =>
    "Rule ".toList ++ name ++ " is designated by language ".toList ++ language
  | ruleOutsideSequence rule ruleFrom ruleTo sequence sequenceFrom sequenceTo _ =>
    "Rule ".toList ++ rule ++ bracketedArrow ruleFrom ruleTo ++
      " does not fit sequence ".toList ++ sequence ++
      bracketedArrow sequenceFrom sequenceTo
  | alternativeMismatch alternative rule _ _ =>
    "Alternative ".toList ++ alternative ++
      " does not match languages of rule ".toList ++ rule
  | missingRuleInParadigm paradigm rule =>
    "Paradigm ".toList ++ paradigm ++ " refers to missing rule ".toList ++ ofInt rule
  | duplicateLink source target =>
    "Duplicate link ".toList ++ arrow source.label target.label
  | paradigmLanguage paradigm _ language _ wordLanguage =>
    "Paradigm ".toList ++ paradigm ++ " is for language ".toList ++ language ++
      ", word is ".toList ++ wordLanguage
  | paradigmPartOfSpeech paradigm _ _ partOfSpeech =>
    "Paradigm ".toList ++ paradigm ++ " does not apply to part of speech ".toList ++
      partOfSpeech.getD absent
  | categoryPartOfSpeech category partOfSpeech _ =>
    "Category ".toList ++ category ++ " does not apply to part of speech ".toList ++
      partOfSpeech

def particulars : Conflict → List (Text × Data)
  | duplicateLanguage name => [("language", .text name)]
  | duplicateWord id => [("word", id)]
  | ruleRegistered name _ | duplicateRule name => [("rule", name)]
  | ruleRenamed name | ruleUsed name _
  | ruleDesignated name _ => [("rule", .text name)]
  | ruleOutsideSequence _ _ _ sequence _ _ step
  | alternativeMismatch _ _ sequence step =>
    [("sequence", .text sequence), ("step", .integer step)]
  | missingRuleInParadigm paradigm _ => [("paradigm", .text paradigm)]
  | duplicateLink source target =>
    [("from_id", source), ("to_id", target)]
  | paradigmLanguage _ paradigmId _ word _ | paradigmPartOfSpeech _ paradigmId word _ =>
    [("paradigm", .integer paradigmId), ("word", .integer word)]
  | categoryPartOfSpeech _ _ language => [("language", .text language)]

end Conflict

namespace Error

/-- The place in front of a reading fault: the rule, if it has a name, and the
line. -/
def located (rule : Data) (line : Option Nat) (reason : Text) : Text :=
  let rulePart := if rule.isBlank then [] else [rule.label]
  let linePart := line.toList.map fun number => "line ".toList ++ ofNat number
  joinWith ": " (rulePart ++ linePart ++ [reason])

def message : Error → Text
  | inRule fault rule line => located rule line fault.message
  | inSequence fault line _ => located .null (some line) fault.message
  | inParadigm fault line => located .null (some line) fault.message
  | undefinedName kind reference language rule =>
    "Undefined ".toList ++ kind.label ++ ' ' :: quoted (reference.getD absent) ++
      " in language ".toList ++ language ++
      match rule with
      | some rule => " (rule ".toList ++ rule ++ ")".toList
      | none => []
  | recursiveRule rule chain =>
    "Rule ".toList ++ rule ++ " applies itself: ".toList ++
      joinWith " -> " (chain ++ [rule])
  | notFound kind identifier =>
    kind.label ++ " not found: ".toList ++ identifier
  | inconsistent conflict => conflict.message
  | unreadableArchive reason => "load failed: ".toList ++ reason
  | invalidValue field => "invalid value for ".toList ++ field
  | unusableValue field => "a value of no use for ".toList ++ field
  | valueWithoutParts field => "a value without parts for ".toList ++ field
  | missingField field => "missing field ".toList ++ field
  | unpairedField => "a field that is no pair of a name and a value"
  | unknownLinkType name => "unknown link type ".toList ++ name
  | unknownKind name => "unknown kind ".toList ++ name
  | notAboutWords verb => quoted verb ++ " is not a word-level instruction".toList
  | soundRequired => "a sound condition was asked of a whole word"
  | missingPart part => "missing ".toList ++ part
  | unnamedOrdinal number => "no name for the ordinal ".toList ++ (Data.ofInt? number).label
  | noSuchSound index => "no sound at index ".toList ++ ofInt index
  | noSuchCell row column paradigm =>
    "Invalid cell (".toList ++ ofInt row ++ ", ".toList ++ ofInt column ++
      ") for paradigm ".toList ++ paradigm
  | noSuchRow => "list index out of range"
  | noSuchColumn => "list assignment index out of range"
  | indexTooLarge => "cannot fit 'int' into an index-sized integer"
  | unreadableNumber found => "not a number: ".toList ++ found

def code? : Error → Option Text
  | inRule (.noSuchRule _) .. => some "unresolved_rule"
  | inRule (.ordinalNotAlone _) .. | inRule (.numberTooLong _) .. => none
  | inRule .. => some "rule_parse_failed"
  | inSequence .. => some "sequence_parse_failed"
  | inParadigm .. => some "paradigm_parse_failed"
  | undefinedName .phonemeClass .. => some "undefined_phoneme_class"
  | undefinedName .wordClass .. => some "undefined_word_class"
  | undefinedName .categoryValue .. => some "undefined_category"
  | recursiveRule .. => some "recursive_rule"
  | notFound .. => some "entity_not_found"
  | inconsistent _ => some "integrity_violation"
  | unreadableArchive _ => some "storage_error"
  | _ => none

/-- Whether an error is recorded by operations that go on with other things. -/
def isRecordable (error : Error) : Bool := error.code?.isSome

def status : Error → Nat
  | inRule .. | inSequence .. | inParadigm .. => 400
  | undefinedName .. | recursiveRule .. => 422
  | notFound .. => 404
  | inconsistent _ => 409
  | _ => 500

def field? : Error → Option Text
  | inRule .. => some "logic"
  | inSequence .. => some "steps"
  | inParadigm .. => some "cells"
  | _ => none

def lineData : Option Nat → Data
  | some line => .integer line
  | none => .null

def references : ReadingFault → List (Text × Data)
  | .noSuchRule name => [("reference", .text name)]
  | _ => []

def particulars : Error → List (Text × Data)
  | inRule fault rule line =>
    ("rule", rule) :: ("line", lineData line) ::
      ("reason", .text fault.message) :: references fault
  | inSequence fault line sequence =>
    [("sequence", sequence), ("line", .integer line),
      ("reason", .text fault.message)]
  | inParadigm fault line =>
    [("line", .integer line), ("reason", .text fault.message)]
  | undefinedName kind reference language rule =>
    [("kind", .text kind.label), ("reference", .ofText? reference),
      ("language", .text language), ("rule", .ofText? rule)]
  | recursiveRule rule chain => [("rule", .text rule), ("chain", .ofTexts chain)]
  | notFound kind identifier =>
    [("entity_type", .text kind.label), ("identifier", .text identifier)]
  | inconsistent conflict => conflict.particulars
  | _ => []

/-- Attributes an undefined name to the rule that uses it. The first rule that
an error is attributed to stays. -/
def attributedTo (rule : Text) : Error → Error
  | undefinedName kind reference language none =>
    undefinedName kind reference language (some rule)
  | error => error

/-- Takes a recordable error as a result; the others stay errors. -/
def settle {α : Type} (result : Except Error α) : Except Error (Except Error α) :=
  match result with
  | .ok value => .ok (.ok value)
  | .error error => if error.isRecordable then .ok (.error error) else .error error

end Error

end Diachrony
