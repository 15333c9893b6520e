import Diachrony.Data
import Diachrony.Logic

/-!
Rules: a logic with a name, on the way from one language to another.
-/
namespace Diachrony

/-- A rule. The categories are cited with dots; the source text is what the
logic was read from, if it was. -/
structure Rule where
  id : Int
  name : Text
  fromLanguage : Text
  toLanguage : Text
  logic : Logic
  addedCategories : Option Text := none
  replacedCategories : Option Text := none
  sourceText : Option Text := none
  source : Option Text := none
  notes : Option Text := none

def Rule.ref (rule : Rule) : RuleRef := { id := rule.id, name := rule.name }

/-- A rule before it has an id. Name and source text are what was given for them. The
logic, if it is not there, is read from the source text. -/
structure RuleDraft where
  name : Data
  fromLanguage : Text
  toLanguage : Text
  logic : Option Logic := none
  sourceText : Data := .null

def RuleDraft.rule (draft : RuleDraft) (id : Int) (name : Text) (sourceText : Option Text)
    (logic : Logic) : Rule :=
  { id, logic, name, sourceText
    fromLanguage := draft.fromLanguage
    toLanguage := draft.toLanguage }

def citedCategories : Option Text → List Text
  | none => []
  | some text =>
    (Text.splitAt '.' (Text.trim text)).filter fun value => !value.isEmpty

/-- A table of rule names: the first entry under a name counts. -/
abbrev RuleNames := List (Text × Int)

namespace RuleNames

def resolver (names : RuleNames) : Resolver := fun name =>
  (names.lookup name).map fun id => { id, name }

def nameOf? (names : RuleNames) (id : Int) : Option Text :=
  (names.find? fun entry => entry.2 == id).map Prod.fst

end RuleNames

end Diachrony
