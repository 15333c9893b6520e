import Diachrony.Application.Frame

/-!
Grammatical category values of forms.

A value is cited by its abbreviation or its name and looked up in some languages,
of which the first that has it decides. Adding keeps what is there; replacing
first takes out what the form has for the same category.
-/
namespace Diachrony

/-- The value that a citation stands for in the first of some languages that has
it. There is at least one language. -/
def resolveCategory (first : Language) (others : List Language) (key : Text) :
    Except Error CategoryValue :=
  match (first :: others).findSome? fun language => language.categoryEntry? key with
  | some (category, entry) => .ok ⟨category.name, entry.abbreviation⟩
  | none => .error (.undefinedName .categoryValue (some key) first.shortName none)

def addCategory (categories : List CategoryValue) (value : CategoryValue) :
    List CategoryValue :=
  if categories.contains value then categories else categories ++ [value]

def replaceCategory (categories : List CategoryValue) (value : CategoryValue) :
    List CategoryValue :=
  addCategory
    (categories.filter fun assigned => assigned.category != value.category) value

def changeCategories
    (change : List CategoryValue → CategoryValue → List CategoryValue)
    (first : Language) (others : List Language) (form : WordForm) (keys : List Text) :
    Except Error WordForm := do
  let values ← keys.mapM (resolveCategory first others)
  return { form with categories := values.foldl change form.categories }

/-- The languages in which the categories of a rule are looked up: the one it
leads to, and the one it is from if that is another one. -/
def Frame.categoryLanguages {σ : Type} (frame : Frame σ) (rule : Rule) :
    Except Error (Language × List Language) := do
  let target ← frame.graph.language rule.toLanguage
  return (target, if rule.fromLanguage = rule.toLanguage then [] else [frame.language])

/-- Gives a form the categories that a rule declares: the replaced ones and then
the added ones. -/
def Frame.declareCategories {σ : Type} (frame : Frame σ) (rule : Rule) (form : WordForm) :
    Except Error WordForm := do
  let (target, others) ← frame.categoryLanguages rule
  let replaced ← changeCategories replaceCategory target others form
    (citedCategories rule.replacedCategories)
  changeCategories addCategory target others replaced
    (citedCategories rule.addedCategories)

end Diachrony
