import Diachrony.Language
import Diachrony.Link
import Diachrony.Paradigm
import Diachrony.Sequence
import Diachrony.Table
import Diachrony.Word

/-!
The graph: languages, words, rules and what connects them. This module holds the
graph and the ways of looking things up in it; the modules under
`Diachrony.Graph` change it.

Rules are referred to by name before they exist, so names have a table of their
own: a name may be reserved for an id under which no rule is stored yet. Anything that can
be looked up may be reserved, though only a rule whose name is a text can be stored.
-/
namespace Diachrony

open Text (ofInt)

/-- A graph. Everything is kept in the order in which it came in, and `nextId`
is above every id that was handed out. -/
structure Graph where
  nextId : Int := 1
  languages : Table Text Language := {}
  words : Table Int Word := {}
  rules : Table Int Rule := {}
  ruleNames : Table Key GivenId := {}
  sequences : Table Int RuleSequence := {}
  paradigms : Table Int Paradigm := {}
  links : Table LinkKey Link := {}
  compounds : Table Int Compound := {}

namespace Graph

/-- What is stored, or the complaint that it is not there. -/
def found {α : Type} (kind : EntityKind) (identifier : Text) : Option α → Except Error α
  | some value => .ok value
  | none => .error (.notFound kind identifier)

/-- What is stored in a table under a value that stands for a number. -/
def under {α : Type} (kind : EntityKind) (table : Table Int α) (data : Data) :
    Except Error α :=
  match data.key? with
  | some key =>
    found kind data.label do
      let .number number := key | none
      table.get? number
  | none => .error (.unusableValue kind.label)

def language (graph : Graph) (shortName : Text) : Except Error Language :=
  found .language shortName (graph.languages.get? shortName)

/-- The short name that a value stands for, under which a language is stored. -/
def languageName (graph : Graph) : Data → Except Error Text
  | .text shortName => do
    let _ ← graph.language shortName
    return shortName
  | data =>
    .error (if data.key?.isSome then .notFound .language data.label
      else .unusableValue "language")

def wordUnder (graph : Graph) (data : Data) : Except Error Word :=
  under .word graph.words data

def ruleUnder (graph : Graph) (data : Data) : Except Error Rule :=
  under .rule graph.rules data

def sequenceUnder (graph : Graph) (data : Data) : Except Error RuleSequence :=
  under .sequence graph.sequences data

def paradigmUnder (graph : Graph) (data : Data) : Except Error Paradigm :=
  under .paradigm graph.paradigms data

def word (graph : Graph) (id : Int) : Except Error Word :=
  found .word (ofInt id) (graph.words.get? id)

def rule (graph : Graph) (id : Int) : Except Error Rule :=
  found .rule (ofInt id) (graph.rules.get? id)

/-- The rule that is stored under a name, or that some other key is reserved for. A name
that is only reserved has none. -/
def namedRule? (graph : Graph) (name : Key) : Option Rule := do
  graph.rules.get? (← (← graph.ruleNames.get? name).number?)

/-- The rule under a name; a name that is only reserved has none. -/
def ruleByName (graph : Graph) (name : Text) : Except Error Rule :=
  found .rule name (graph.namedRule? (.text name))

/-- Finds the rules, stored or expected, that names refer to. -/
def resolver (graph : Graph) : Resolver := fun name =>
  (graph.ruleNames.get? (.text name)).map fun id =>
    ⟨id.number?.getD 0, name, id.isFlag⟩

def ruleRef (graph : Graph) (name : Text) : Except Error RuleRef :=
  match graph.resolver name with
  | some rule => .ok rule
  | none => .error (.inRule (.noSuchRule name) .null none)

def ruleName (graph : Graph) (id : Int) : Except Error Text := do
  return (← graph.rule id).name

def sequence (graph : Graph) (id : Int) : Except Error RuleSequence :=
  found .sequence (ofInt id) (graph.sequences.get? id)

def sequenceByName (graph : Graph) (name : Text) : Except Error RuleSequence :=
  found .sequence name (graph.sequences.values.find? fun sequence => sequence.name == name)

def paradigm (graph : Graph) (id : Int) : Except Error Paradigm :=
  found .paradigm (ofInt id) (graph.paradigms.get? id)

def isOf (language : Option Text) (name : Text) : Bool :=
  language.all (· == name)

def wordsOf (graph : Graph) (language : Option Text := none) : List Word :=
  graph.words.values.filter fun word => isOf language word.language

def findWords (graph : Graph) (text language : Text) : List Word :=
  graph.words.values.filter fun word => word.language == language && word.text == text

def paradigmsOf (graph : Graph) (language : Option Text := none) : List Paradigm :=
  graph.paradigms.values.filter fun paradigm => isOf language paradigm.language

def isKind (kind : Option LinkKind) (link : Link) : Bool :=
  kind.all (· == link.kind)

def linksFrom (graph : Graph) (word : Int) (kind : Option LinkKind := none) : List Link :=
  graph.links.values.filter fun link => link.source == word && isKind kind link

def linksTo (graph : Graph) (word : Int) (kind : Option LinkKind := none) : List Link :=
  graph.links.values.filter fun link => link.target == word && isKind kind link

def compoundsOf (graph : Graph) (word : Int) : List Compound :=
  graph.compounds.values.filter fun compound => compound.whole == word

end Graph

end Diachrony
