import Diachrony.Graph.Rules
import Diachrony.Graph.Sequences
import Diachrony.Graph.Words
import Diachrony.Proofs.Notation.Relinking
import Diachrony.Proofs.Table

/-!
# Orderly graphs

In an orderly graph everything is stored under what it says its id is, below the ids to
come; what it refers to is stored, and the text of a rule is read as the logic that the
rule has.  One thing may go astray: the step of a sequence may be left with a rule that is
not there any more, under an id that no name and no later rule will get.
-/
namespace Diachrony

open Table (IsKept)

/-- The counter is above the id, and the language is there. -/
structure Word.BelongsIn (graph : Graph) (word : Word) : Prop where
  counted : word.id < graph.nextId
  language : graph.languages.contains word.language = true

/-- The name stands for the id, and the text is read as the logic. -/
structure Rule.BelongsIn (graph : Graph) (rule : Rule) : Prop where
  counted : rule.id < graph.nextId
  fromLanguage : graph.languages.contains rule.fromLanguage = true
  toLanguage : graph.languages.contains rule.toLanguage = true
  named : graph.ruleNames.get? (.text rule.name) = some (.whole rule.id)
  reads : Logic.read graph.resolver (rule.sourceText.getD []) = .ok rule.logic

/-- An id that was handed out to a rule which is gone. -/
structure Graph.IsLost (graph : Graph) (id : Int) : Prop where
  counted : id < graph.nextId
  notStored : graph.rules.contains id = false
  notNamed : ∀ key, graph.ruleNames.get? key ≠ some (.whole id)

/-- The rules of a step are there; the first one fits the sequence, and the other one goes
between the same languages. -/
def SequenceStep.FitsIn (graph : Graph) (sequence : RuleSequence) (step : SequenceStep) : Prop :=
  ∃ rule, graph.rules.get? step.rule = some rule ∧ sequence.fits rule = true ∧
    ∀ id, step.alternative = some id →
      ∃ other, graph.rules.get? id = some other ∧ other.matchesLanguages rule = true

/-- A step that fits, or one that was left with a rule that is not there. -/
inductive SequenceStep.BelongsIn (graph : Graph) (sequence : RuleSequence) (step : SequenceStep) :
    Prop
  | fits : step.FitsIn graph sequence → BelongsIn graph sequence step
  | left : graph.IsLost step.rule → step.alternative = none → BelongsIn graph sequence step

/-- The languages are there, and so is what the steps need. -/
structure RuleSequence.BelongsIn (graph : Graph) (sequence : RuleSequence) : Prop where
  counted : sequence.id < graph.nextId
  fromLanguage : graph.languages.contains sequence.fromLanguage = true
  toLanguage : graph.languages.contains sequence.toLanguage = true
  steps : ∀ step ∈ sequence.steps, step.BelongsIn graph sequence

/-- The id is above zero, and the language and the rules of the cells are there. -/
structure Paradigm.BelongsIn (graph : Graph) (paradigm : Paradigm) : Prop where
  positive : 0 < paradigm.id
  counted : paradigm.id < graph.nextId
  language : graph.languages.contains paradigm.language = true
  rules : ∀ id ∈ paradigm.grid.rules, graph.rules.contains id = true

/-- Words, rules and sequence are there. -/
structure Link.BelongsIn (graph : Graph) (link : Link) : Prop where
  source : graph.words.contains link.source = true
  target : graph.words.contains link.target = true
  rules : ∀ id ∈ link.rules, graph.rules.contains id = true
  sequence : ∀ id, link.sequence = some id → graph.sequences.contains id = true

/-- The counter is above the id, and the words are there. -/
structure Compound.BelongsIn (graph : Graph) (compound : Compound) : Prop where
  counted : compound.id < graph.nextId
  words : ∀ id ∈ compound.whole :: compound.components, graph.words.contains id = true

namespace Graph

/-- The names of a graph stand for different ids, each below the ids to come. -/
structure NamesAreKept (graph : Graph) : Prop where
  whole : ∀ key id, graph.ruleNames.get? key = some id →
    ∃ number, id = .whole number ∧ number < graph.nextId
  distinct : ∀ key other id, graph.ruleNames.get? key = some id →
    graph.ruleNames.get? other = some id → key = other

/-- The tables of a graph hold what belongs in another one. -/
structure IsKeptIn (world graph : Graph) : Prop where
  languages : IsKept Language.shortName (fun language => language.shortName ≠ []) graph.languages
  words : IsKept Word.id (Word.BelongsIn world) graph.words
  rules : IsKept Rule.id (Rule.BelongsIn world) graph.rules
  sequences : IsKept RuleSequence.id (RuleSequence.BelongsIn world) graph.sequences
  paradigms : IsKept Paradigm.id (Paradigm.BelongsIn world) graph.paradigms
  links : IsKept Link.key (Link.BelongsIn world) graph.links
  compounds : IsKept Compound.id (Compound.BelongsIn world) graph.compounds

/-- Everything in a graph belongs there. -/
structure IsOrderly (graph : Graph) : Prop where
  counting : 0 < graph.nextId
  names : graph.NamesAreKept
  tables : graph.IsKeptIn graph

theorem isOrderly_empty : IsOrderly {} where
  counting := Int.zero_lt_one
  names := ⟨(fun _ _ isNamed => nomatch isNamed), (fun _ _ _ isNamed => nomatch isNamed)⟩
  tables := ⟨.empty, .empty, .empty, .empty, .empty, .empty, .empty⟩

/-- A graph that has come of another one by additions: what was there still is, and what
is new in the tables of rules and of names has new ids. -/
structure Extends (before after : Graph) : Prop where
  counting : before.nextId ≤ after.nextId
  languages : ∀ name, before.languages.contains name = true → after.languages.contains name = true
  rules : ∀ id rule, before.rules.get? id = some rule → ∃ other, after.rules.get? id = some other ∧
    other.fromLanguage = rule.fromLanguage ∧ other.toLanguage = rule.toLanguage
  ruleNames : ∀ key id, before.ruleNames.get? key = some id → after.ruleNames.get? key = some id
  sequences : ∀ id, before.sequences.contains id = true → after.sequences.contains id = true
  newNames : ∀ key id, after.ruleNames.get? key = some (.whole id) →
    before.ruleNames.get? key = some (.whole id) ∨ before.nextId ≤ id
  newRules : ∀ id, after.rules.contains id = true → before.rules.contains id = true ∨
    ∃ key, after.ruleNames.get? key = some (.whole id)

/-- Nothing is new among the rules and their names. -/
theorem extends_of_same {before after : Graph} (counting : before.nextId ≤ after.nextId)
    (languages : ∀ name, before.languages.contains name = true → after.languages.contains name = true)
    (sequences : ∀ id, before.sequences.contains id = true → after.sequences.contains id = true)
    (sameRules : after.rules = before.rules) (sameNames : after.ruleNames = before.ruleNames) :
    before.Extends after where
  counting := counting
  languages := languages
  rules := fun _ rule isFound => ⟨rule, sameRules ▸ isFound, rfl, rfl⟩
  ruleNames := fun _ _ isNamed => sameNames ▸ isNamed
  sequences := sequences
  newNames := fun _ _ isNamed => .inl (sameNames ▸ isNamed)
  newRules := fun _ isStored => .inl (sameRules ▸ isStored)

end Graph

section

variable {before after : Graph} (grown : before.Extends after)

include grown

theorem Graph.Extends.contains_rule {id : Int} (isStored : before.rules.contains id = true) :
    after.rules.contains id = true := by
  obtain ⟨rule, isFound⟩ := Table.exists_of_contains isStored
  obtain ⟨other, isOther, -⟩ := grown.rules id rule isFound
  exact Table.contains_of_get? isOther

theorem Graph.Extends.resolver {name : Text} {rule : RuleRef}
    (isFound : before.resolver name = some rule) : after.resolver name = some rule := by
  obtain ⟨id, isNamed, same⟩ := Option.map_eq_some_iff.mp isFound
  exact Option.map_eq_some_iff.mpr ⟨id, grown.ruleNames _ _ isNamed, same⟩

theorem Graph.IsLost.grow {id : Int} (isLost : before.IsLost id) : after.IsLost id where
  counted := Int.lt_of_lt_of_le isLost.counted grown.counting
  notStored := by
    rw [← Bool.not_eq_true]
    intro isStored
    rcases grown.newRules id isStored with isStored | ⟨key, isNamed⟩
    · rw [isLost.notStored] at isStored
      cases isStored
    · rcases grown.newNames key id isNamed with isNamed | isNew
      · exact isLost.notNamed key isNamed
      · exact absurd isLost.counted (Int.not_lt.mpr isNew)
  notNamed := by
    intro key isNamed
    rcases grown.newNames key id isNamed with isNamed | isNew
    · exact isLost.notNamed key isNamed
    · exact absurd isLost.counted (Int.not_lt.mpr isNew)

theorem Word.BelongsIn.grow {word : Word} (belongs : word.BelongsIn before) : word.BelongsIn after :=
  ⟨Int.lt_of_lt_of_le belongs.counted grown.counting, grown.languages _ belongs.language⟩

theorem Rule.BelongsIn.grow {rule : Rule} (belongs : rule.BelongsIn before) :
    rule.BelongsIn after where
  counted := Int.lt_of_lt_of_le belongs.counted grown.counting
  fromLanguage := grown.languages _ belongs.fromLanguage
  toLanguage := grown.languages _ belongs.toLanguage
  named := grown.ruleNames _ _ belongs.named
  reads := Logic.read_mono before.isByName_resolver (fun _ _ isFound => grown.resolver isFound)
    belongs.reads

theorem SequenceStep.BelongsIn.grow {sequence : RuleSequence} {step : SequenceStep}
    (belongs : step.BelongsIn before sequence) : step.BelongsIn after sequence := by
  cases belongs with
  | left isLost noOther => exact .left (isLost.grow grown) noOther
  | fits fitsIn =>
      obtain ⟨rule, isFound, fits, areOthers⟩ := fitsIn
      obtain ⟨found, isFoundAfter, sameFrom, sameTo⟩ := grown.rules _ rule isFound
      refine .fits ⟨found, isFoundAfter, ?_, fun id isOther => ?_⟩
      · unfold RuleSequence.fits at fits ⊢
        rw [sameFrom, sameTo]
        exact fits
      · obtain ⟨other, isOtherFound, areAlike⟩ := areOthers id isOther
        obtain ⟨otherAfter, isOtherAfter, otherFrom, otherTo⟩ := grown.rules id other isOtherFound
        refine ⟨otherAfter, isOtherAfter, ?_⟩
        unfold Rule.matchesLanguages at areAlike ⊢
        rw [otherFrom, otherTo, sameFrom, sameTo]
        exact areAlike

theorem RuleSequence.BelongsIn.grow {sequence : RuleSequence} (belongs : sequence.BelongsIn before) :
    sequence.BelongsIn after where
  counted := Int.lt_of_lt_of_le belongs.counted grown.counting
  fromLanguage := grown.languages _ belongs.fromLanguage
  toLanguage := grown.languages _ belongs.toLanguage
  steps := fun step isMember => (belongs.steps step isMember).grow grown

theorem Paradigm.BelongsIn.grow {paradigm : Paradigm} (belongs : paradigm.BelongsIn before) :
    paradigm.BelongsIn after where
  positive := belongs.positive
  counted := Int.lt_of_lt_of_le belongs.counted grown.counting
  language := grown.languages _ belongs.language
  rules := fun id isMember => grown.contains_rule (belongs.rules id isMember)

variable (words : ∀ id, before.words.contains id = true → after.words.contains id = true)

include words

theorem Link.BelongsIn.grow {link : Link} (belongs : link.BelongsIn before) :
    link.BelongsIn after where
  source := words _ belongs.source
  target := words _ belongs.target
  rules := fun id isMember => grown.contains_rule (belongs.rules id isMember)
  sequence := fun id isSequence => grown.sequences id (belongs.sequence id isSequence)

theorem Compound.BelongsIn.grow {compound : Compound} (belongs : compound.BelongsIn before) :
    compound.BelongsIn after where
  counted := Int.lt_of_lt_of_le belongs.counted grown.counting
  words := fun id isMember => words id (belongs.words id isMember)

/-- What belongs in a graph belongs in it when it has grown. -/
theorem Graph.IsKeptIn.grow {graph : Graph} (kept : before.IsKeptIn graph) : after.IsKeptIn graph where
  languages := kept.languages
  words := kept.words.mono fun _ belongs => belongs.grow grown
  rules := kept.rules.mono fun _ belongs => belongs.grow grown
  sequences := kept.sequences.mono fun _ belongs => belongs.grow grown
  paradigms := kept.paradigms.mono fun _ belongs => belongs.grow grown
  links := kept.links.mono fun _ belongs => belongs.grow grown words
  compounds := kept.compounds.mono fun _ belongs => belongs.grow grown words

end

end Diachrony
