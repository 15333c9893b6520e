import Diachrony.Application

/-!
Earlier forms: what a rule may have made a form from.

Instructions are undone on texts alone, which proposes too much; a proposal is
kept only if the rule, applied to it, makes the form in question. Texts are kept
as sorted sets.
-/
namespace Diachrony

open Text (sortedSet endsWith startsWith before? after? offsetsOf replaceAt replaceAll)

namespace Reversal

def spellingsInClass (language : Language) (pattern : SoundPattern) :
    Session (List Text) := do
  let inventory ← Work.inventory language
  let terms ← Segmentation.patternTerms inventory pattern
  (language.phonemes.map Phoneme.spelling).filterM fun spelling => do
    let alone := Segmentation.unstressed inventory spelling
    if alone.length = 1 then alone.satisfiesAll 0 terms else return false

def spellingsOf (language : Language) (pattern : SoundPattern) : Session (List Text) :=
  match pattern.literal with
  | some text => return [text]
  | none => spellingsInClass language pattern

def spellingsOfAll (language : Language) (patterns : List SoundPattern) :
    Session (List Text) := do
  return sortedSet (← patterns.mapM (spellingsOf language)).flatten

def insertions (piece text : Text) : List Text :=
  (List.range (text.length + 1)).map fun offset => replaceAt offset 0 piece text

/-- The texts with a piece put in the place of any one occurrence of another. -/
def exchanges (old new text : Text) : List Text :=
  (offsetsOf old text).map fun offset => replaceAt offset old.length new text

def exchangesOrAll (old new text : Text) : List Text :=
  replaceAll old new text :: exchanges old new text

/-- The texts without what an instruction attached at one side; the copy of a sound
counts as one character. -/
def withoutAffix (side : Side) (instruction : Instruction) (text : Text) : List Text :=
  match instruction.seek, instruction.argument, side with
  | some _, _, .after => if text.isEmpty then [] else [text.dropLast]
  | some _, _, .before => if text.isEmpty then [] else [text.tail]
  | none, some (char :: affix), .after => (before? (char :: affix) text).toList
  | none, some (char :: affix), .before => (after? (char :: affix) text).toList
  | none, _, _ => []

def withoutInserted (piece text : Text) : List Text :=
  if piece.isEmpty then [] else exchanges piece [] text

def withOldEnding (language : Language) (branch : Option Branch) (ending text : Text) :
    Session (List Text) :=
  match branch, before? ending text with
  | some branch, some stem => do
    let patterns := branch.condition.predicates.filterMap Predicate.endingPattern?
    return (← spellingsOfAll language patterns).map fun spelling => stem ++ spelling
  | _, _ => return []

def literalSounds? (slots : List Slot) : Option Text :=
  (slots.mapM Slot.literal).map List.flatten

/-- The texts before a sound change. A change with features leaves the text as it
is, for the rule itself to decide. -/
def withOldSounds (change : SoundChange) (text : Text) : List Text :=
  match literalSounds? change.before, literalSounds? change.after with
  | some old, some [] => text :: insertions old text
  | some old, some new => text :: exchangesOrAll new old text
  | _, _ => [text]

/-- The texts before one instruction of a sound rule, if one of some spellings
was changed by it. -/
def withOldSpelling (spellings : List Text) (text : Text) (instruction : Instruction) :
    List Text :=
  match instruction.kind, instruction.argument with
  | .changeSound, some (char :: new) =>
    spellings.flatMap fun spelling => exchangesOrAll (char :: new) spelling text
  | .dropSound, _ => spellings.flatMap fun spelling => insertions spelling text
  | _, _ => []

/-- The texts before a branch of a sound rule that changed something. -/
def beforeBranch (language : Language) (text : Text) (branch : Branch) :
    Session (List Text) := do
  let patterns := branch.condition.predicates.filterMap Predicate.soundPattern?
  let spellings ← spellingsOfAll language patterns
  return branch.instructions.flatMap (withOldSpelling spellings text)

/-- What undoing needs: the language in which class names are looked up, and the
texts before the rule with an id. -/
structure Undoing where
  language : Language
  beforeRule : Int → Text → Session (List Text)

/-- The texts before an instruction. Instructions that leave the text alone are
undone by leaving it alone. -/
def undo (undoing : Undoing) (branch : Option Branch) (text : Text)
    (instruction : Instruction) : Session (List Text) := do
  match instruction.kind with
  | .attach side => return withoutAffix side instruction text
  | .insert _ => return withoutInserted (instruction.argument.getD []) text
  | .changeEnding =>
    withOldEnding undoing.language branch (instruction.argument.getD []) text
  | .applyRule =>
    return text :: (← undoing.beforeRule (← needed "rule" instruction.rule).id text)
  | .applySoundRule => undoing.beforeRule (← needed "rule" instruction.rule).id text
  | .soundChange =>
    return withOldSounds (← needed "sound change" instruction.change) text
  | _ => return [text]

def undoAll (undoing : Undoing) (branch : Option Branch) :
    List Instruction → List Text → Session (List Text)
  | [], texts => return sortedSet texts
  | instruction :: instructions, texts => do
    let earlier ← texts.mapM fun text => undo undoing branch text instruction
    undoAll undoing branch instructions (sortedSet earlier.flatten)

def beforeLogic (undoing : Undoing) (logic : Logic) (text : Text) :
    Session (List Text) :=
  match logic with
  | .sequential instructions => undoAll undoing none instructions.reverse [text]
  | .branching opening branches => do
    let earlier ←
      if logic.isSegmental then branches.mapM (beforeBranch undoing.language text)
      else branches.mapM fun branch =>
        undoAll undoing (some branch) branch.instructions.reverse [text]
    undoAll undoing none opening.reverse (sortedSet (text :: earlier.flatten))

/-- The texts before a rule. A rule that is being undone already leaves the text
as it is. -/
def beforeRule (graph : Graph) (language : Language) (seen : List RuleRef)
    (rule : Rule) (text : Text) : Session (List Text) :=
  beforeLogic
    { language
      beforeRule := fun id text =>
        match _stored : graph.rules.get? id with
        | none => throw (.notFound .rule (Text.ofInt id))
        | some called =>
          if _isSeen : (seen ++ [rule.ref]).any fun other => other.id == called.id then
            return [text]
          else beforeRule graph language (seen ++ [rule.ref]) called text }
    rule.logic text
termination_by (inactiveRules graph.rules.values (seen ++ [rule.ref])).length
decreasing_by
  exact inactiveRules_length_lt (Table.mem_values_of_get? _stored)
    (by simpa using _isSeen)

/-- The form in which a rule is tried on an earlier text: in the language the rule
is from, without the categories the rule declares. -/
def candidate (rule : Rule) (form : WordForm) (text : Text) : WordForm :=
  let declared :=
    citedCategories rule.addedCategories ++ citedCategories rule.replacedCategories
  { text
    language := rule.fromLanguage
    categories := form.categories.filter fun assigned => !declared.contains assigned.value
    classes := form.classes
    gloss := form.gloss
    partOfSpeech := form.partOfSpeech }

/-- Keeps the candidates that pass a test, up to a number of them, and asks no
more of the others. One that passes is kept whatever the number. -/
def keepPassing {m : Type → Type} [Monad m] (passes : WordForm → m Bool) :
    Int → List WordForm → m (List WordForm)
  | _, [] => return []
  | limit, form :: forms => do
    if ← passes form then
      if limit ≤ 1 then return [form]
      else return form :: (← keepPassing passes (limit - 1) forms)
    else keepPassing passes limit forms

end Reversal

/-- The earlier forms that a rule turns into a form, in the order of their texts
and up to a limit. -/
def Graph.reverse (graph : Graph) (rule : Rule) (form : WordForm) (limit : Int)
    (marker : Text := Graph.usualMarker) : Session (List WordForm) := do
  let language ← graph.language rule.fromLanguage
  let _ ← graph.language rule.toLanguage
  let texts ← Reversal.beforeRule graph language [] rule form.text
  let passes (candidate : WordForm) : Session Bool := do
    let outcome ← graph.apply rule candidate marker
    return outcome.applied &&
      comparable marker outcome.form.text == comparable marker form.text
  Reversal.keepPassing passes limit (texts.map (Reversal.candidate rule form))

end Diachrony
