import Diachrony.Proofs.Application.Frames
import Diachrony.Proofs.Application.Calls
import Diachrony.Proofs.Edit
import Diachrony.Proofs.Failure

/-!
# What no rule changes

Rules make forms from forms.  Some of what a form carries no rule ever touches: its gloss, its
part of speech and the word it is a form of.  Word classes are added at the end and never taken
away.  So the form that a rule started from persists in the one that it leaves, whatever other
rules it has called on the way, and whichever of them were asked for the stress.

A form persists through one instruction, so through a row of them, through a logic and through a
rule, if it does so through the rules that are called.  Induction on the rules that are left to
call does the rest.
-/
namespace Diachrony

open Work

namespace Work

variable {α β : Type}

/-- Every value that a session gives is of some kind, from whatever inventories it goes on. -/
abbrev GivesOnly (Holds : α → Prop) (session : Session α) : Prop :=
  session.EnsuresFrom Inventories.Any AnyError Holds

/-- What a session gives in the end is settled by its last part, whatever comes before it. -/
theorem gives_behind {session : Session α} {next : α → Session β} {Holds : β → Prop}
    (last : ∀ value, (next value).GivesOnly Holds) : (session >>= next).GivesOnly Holds :=
  fails_bind (failsOnlyFrom_any session) last

end Work

/-- A form persists in a later one of the same word: the two have the same gloss and part of
speech and stand for the same stored word, and the later one is in the classes of the earlier
one first. -/
structure WordForm.PersistsIn (form later : WordForm) : Prop where
  gloss : later.gloss = form.gloss
  partOfSpeech : later.partOfSpeech = form.partOfSpeech
  wordId : later.wordId = form.wordId
  classes : form.classes <+: later.classes

namespace WordForm.PersistsIn

theorem refl (form : WordForm) : form.PersistsIn form :=
  ⟨rfl, rfl, rfl, List.prefix_rfl⟩

theorem trans {form between later : WordForm} (first : form.PersistsIn between)
    (second : between.PersistsIn later) : form.PersistsIn later where
  gloss := second.gloss.trans first.gloss
  partOfSpeech := second.partOfSpeech.trans first.partOfSpeech
  wordId := second.wordId.trans first.wordId
  classes := first.classes.trans second.classes

theorem withText (form : WordForm) (text : Text) (stressedIndex : Option Int) :
    form.PersistsIn (form.withText text stressedIndex) :=
  ⟨rfl, rfl, rfl, List.prefix_rfl⟩

theorem withStress (form : WordForm) (stressedIndex : Option Int) :
    form.PersistsIn { form with stressedIndex } :=
  ⟨rfl, rfl, rfl, List.prefix_rfl⟩

theorem withClass (form : WordForm) (name : Text) :
    form.PersistsIn { form with classes := form.classes ++ [name] } :=
  ⟨rfl, rfl, rfl, List.prefix_append _ _⟩

theorem withLanguage (form : WordForm) (language : Text) :
    form.PersistsIn { form with language } :=
  ⟨rfl, rfl, rfl, List.prefix_rfl⟩

theorem withCategories (form : WordForm) (categories : List CategoryValue) :
    form.PersistsIn { form with categories } :=
  ⟨rfl, rfl, rfl, List.prefix_rfl⟩

end WordForm.PersistsIn

namespace Frame

open WordForm

variable {frame : Frame}

/-- Forms persist through the rules that are called. -/
def CallsKeep (frame : Frame) : Prop :=
  ∀ id extent form,
    (frame.call id extent form).GivesOnly fun outcome => form.PersistsIn outcome.form

theorem changeEnding_keeps (branch : Option Branch) (ending : Option Text) (form : WordForm) :
    (frame.changeEnding branch ending form).GivesOnly form.PersistsIn := by
  cases branch with
  | none => exact ensures_pure (.refl form)
  | some branch =>
      refine gives_behind fun word => gives_behind fun stem? => ?_
      cases stem? with
      | none => exact ensures_pure (.refl form)
      | some stem => exact gives_behind fun _ => ensures_pure (.withText form _ none)

theorem attach_keeps (side : Side) (instruction : Instruction) (form : WordForm) :
    (frame.attach side instruction form).GivesOnly form.PersistsIn := by
  refine gives_behind fun affix? => ?_
  cases affix? with
  | none => exact ensures_pure (.refl form)
  | some addition => cases side <;> exact ensures_pure (.withText form _ none)

theorem insert_keeps (side : Side) (instruction : Instruction) (form : WordForm) :
    (frame.insert side instruction form).GivesOnly form.PersistsIn := by
  refine gives_behind fun word => gives_behind fun place => gives_behind fun index? => ?_
  cases index?.bind fun index => word.segment? index with
  | none => exact ensures_pure (.refl form)
  | some segment => exact gives_behind fun _ => ensures_pure (.withText form _ none)

theorem moveStress_keeps (ordinal : Int) (form : WordForm) :
    (frame.moveStress ordinal form).GivesOnly form.PersistsIn := by
  refine gives_behind fun word => ?_
  cases (word.syllableByNumber? ordinal).bind word.firstVowel? with
  | none => exact ensures_pure (.refl form)
  | some index => exact ensures_pure (.withStress form _)

/-- A mark comes behind the classes that a form is in. -/
theorem markClass_keeps (key : Option Text) (form : WordForm) :
    (liftM (frame.markClass key form) : Session WordForm).GivesOnly form.PersistsIn := by
  refine ensures_liftM (fun _ _ => trivial) fun marked gave => ?_
  obtain ⟨wordClass, -, gave⟩ := Except.bind_eq_ok.mp gave
  split at gave
  · cases gave
    exact .refl form
  · cases gave
    exact .withClass form _

theorem changeByCitation_keeps
    (change : List CategoryValue → CategoryValue → List CategoryValue)
    (instruction : Instruction) (form : WordForm) :
    (liftM (frame.changeByCitation change instruction form) : Session WordForm).GivesOnly
      form.PersistsIn := by
  refine ensures_liftM (fun _ _ => trivial) fun changed gave => ?_
  obtain ⟨categories, rfl⟩ := exists_of_changeCategories gave
  exact .withCategories form categories

theorem changeSounds_keeps (change : SoundChange) (form : WordForm) :
    (frame.changeSounds change form).GivesOnly form.PersistsIn := by
  refine gives_behind fun word => gives_behind fun changed => ?_
  exact ensures_ite (fun _ => ensures_pure (.withText form _ _)) fun _ => ensures_pure (.refl form)

section

variable (callsKeep : frame.CallsKeep)

include callsKeep

theorem callRule_keeps (rule : Int) (extent : Extent) (form : WordForm) :
    (frame.callRule rule extent form).GivesOnly form.PersistsIn :=
  ensures_bind (callsKeep rule extent form) fun _ persists => ensures_pure persists

theorem applySoundRule_keeps (rule : Int) (place : Option SeekTarget) (form : WordForm) :
    (frame.applySoundRule rule place form).GivesOnly form.PersistsIn := by
  refine gives_behind fun called => ?_
  refine ensures_ite (fun _ => ?_) fun _ => callRule_keeps callsKeep rule .wholeWord form
  refine gives_behind fun word => gives_behind fun target => gives_behind fun index? => ?_
  cases index? with
  | none => exact ensures_pure (.refl form)
  | some index => exact callRule_keeps callsKeep rule (.oneSound index) form

/-- A form persists through every kind of instruction. -/
theorem carryOut_keeps (branch : Option Branch) (form : WordForm) (instruction : Instruction) :
    (frame.carryOut branch form instruction).GivesOnly form.PersistsIn := by
  unfold carryOut
  cases instruction.kind with
  | noChange => exact ensures_pure (.refl form)
  | changeEnding => exact changeEnding_keeps branch instruction.argument form
  | attach side => exact attach_keeps side instruction form
  | insert side => exact insert_keeps side instruction form
  | stress => exact gives_behind fun ordinal => moveStress_keeps ordinal form
  | markClass => exact markClass_keeps instruction.argument form
  | addCategory => exact changeByCitation_keeps addCategory instruction form
  | replaceCategory => exact changeByCitation_keeps replaceCategory instruction form
  | applyRule => exact gives_behind fun rule => callRule_keeps callsKeep rule.id .wholeWord form
  | applySoundRule =>
      exact gives_behind fun rule => applySoundRule_keeps callsKeep rule.id instruction.seek form
  | soundChange => exact gives_behind fun change => changeSounds_keeps change form
  | changeSound | dropSound | changeClass => exact ensures_throw trivial

theorem carryOutAll_keeps (branch : Option Branch) (form : WordForm)
    (instructions : List Instruction) :
    (frame.carryOutAll branch form instructions).GivesOnly form.PersistsIn := by
  refine ensures_foldlM (fun instruction _ working persists => ?_) (.refl form)
  exact (carryOut_keeps callsKeep branch working instruction).mono fun _ => persists.trans

end

end Frame

/-- What a rule leaves of a form on some extent: the form persists in the one that is left, it
is the same form if the rule does not apply, and if it does the form has come to the language
that the rule leads to.  On one sound of it a form stays in its language. -/
structure Rule.Leaves (rule : Rule) (extent : Extent) (form : WordForm)
    (outcome : Outcome) : Prop where
  persists : form.PersistsIn outcome.form
  unchanged : outcome.applied = false → outcome.form = form
  language : outcome.applied = true → outcome.form.language =
    match extent with
    | .wholeWord => rule.toLanguage
    | .oneSound _ => form.language

namespace Rule.Leaves

/-- A rule that does not apply leaves its form, on whatever extent. -/
theorem idle (rule : Rule) (extent : Extent) (form : WordForm) :
    rule.Leaves extent form ⟨false, form⟩ :=
  ⟨.refl form, fun _ => rfl, (nomatch ·)⟩

end Rule.Leaves

namespace Frame

variable {frame : Frame}

/-- Sounds change the text and the stress of a form and nothing else of it. -/
theorem runSounds_changes (branches : List Branch) (form : WordForm)
    (indices : Option (List Nat)) :
    (frame.runSounds branches form indices).GivesOnly fun outcome =>
      outcome = ⟨false, form⟩ ∨
        ∃ text stressedIndex, outcome = ⟨true, form.withText text stressedIndex⟩ := by
  refine gives_behind fun word => gives_behind fun outcomes => ?_
  refine ensures_ite (fun _ => ensures_pure (.inl rfl)) fun _ => ?_
  dsimp only
  cases form.stressedIndex with
  | none => exact gives_behind fun stressed => ensures_pure (.inr ⟨_, _, rfl⟩)
  | some index => exact gives_behind fun stressed => ensures_pure (.inr ⟨_, _, rfl⟩)

theorem runSounds_leaves (rule : Rule) (index : Nat) (form : WordForm) :
    (frame.runSounds rule.logic.branches form (some [index])).GivesOnly
      (rule.Leaves (.oneSound index) form) := by
  refine (runSounds_changes _ form _).mono ?_
  rintro _ (rfl | ⟨text, stressedIndex, rfl⟩)
  · exact .idle rule _ form
  · exact ⟨.withText form _ _, (nomatch ·), fun _ => rfl⟩

theorem runSounds_keeps (branches : List Branch) (form : WordForm)
    (indices : Option (List Nat)) :
    (frame.runSounds branches form indices).GivesOnly
      fun outcome => form.PersistsIn outcome.form := by
  refine (runSounds_changes branches form indices).mono ?_
  rintro _ (rfl | ⟨text, stressedIndex, rfl⟩)
  · exact .refl form
  · exact .withText form _ _

section

variable (callsKeep : frame.CallsKeep)

include callsKeep

/-- The opening instructions run before it is known whether any branch is taken.  Whichever is,
the form persists through them and through the branch. -/
theorem runLogic_keeps (logic : Logic) (form : WordForm) :
    (frame.runLogic logic form).GivesOnly fun outcome => form.PersistsIn outcome.form := by
  cases logic with
  | sequential instructions =>
      refine ensures_bind (carryOutAll_keeps callsKeep none form instructions) ?_
      exact fun _ persists => ensures_pure persists
  | branching opening branches =>
      refine ensures_bind (carryOutAll_keeps callsKeep none form opening) fun working opened => ?_
      refine ensures_ite (fun _ => ?_) fun _ => ?_
      · refine ensures_bind (runSounds_keeps branches working none) fun outcome persists => ?_
        refine ensures_pure ?_
        split
        · exact opened.trans persists
        · exact .refl form
      · refine gives_behind fun question => gives_behind fun branch? => ?_
        cases branch? with
        | none => exact ensures_pure (.refl form)
        | some branch =>
            refine ensures_bind
              (carryOutAll_keeps callsKeep (some branch) working branch.instructions) ?_
            exact fun _ persists => ensures_pure (opened.trans persists)

theorem runWhole_leaves (rule : Rule) (form : WordForm) :
    (frame.runWhole rule form).GivesOnly (rule.Leaves .wholeWord form) := by
  refine ensures_bind (runLogic_keeps callsKeep rule.logic form) fun outcome persists => ?_
  refine ensures_ite (fun _ => ?_) fun _ => ensures_pure (.idle rule _ form)
  refine ensures_lookup (fun _ _ => trivial) fun declared gave => ensures_pure ?_
  obtain ⟨categories, rfl⟩ := exists_of_declareCategories gave
  exact {
    persists := (persists.trans (.withCategories _ categories)).trans (.withLanguage _ _)
    unchanged := (nomatch ·)
    language := fun _ => rfl }

/-- Whatever a rule is called on, its outcome is one that it may leave, if the forms persist
through the rules that it calls. -/
theorem run_leaves (rule : Rule) (extent : Extent) (form : WordForm) :
    (frame.run rule extent form).GivesOnly (rule.Leaves extent form) := by
  refine ensures_adapt (fun _ _ => trivial) (gives_behind fun _ => ?_)
  cases extent with
  | wholeWord => exact runWhole_leaves callsKeep rule form
  | oneSound index => exact runSounds_leaves rule index form

end

end Frame

namespace Graph

variable {graph : Graph} {marker : Text}

/-- Induction on the rules that are left to call: each that is called leaves one fewer. -/
theorem applyWithin_leaves (active : List RuleRef) (pending : List Text) (rule : Rule)
    (extent : Extent) (form : WordForm) :
    (graph.applyWithin marker active pending rule extent form).GivesOnly
      (rule.Leaves extent form) := by
  induction isSize : (inactiveRules graph.rules.values (active ++ [rule.ref])).length
    using Nat.strongRecOn generalizing active pending rule extent form with
  | ind size inductionHypothesis =>
  rw [applyWithin_eq]
  refine gives_behind fun language => gives_behind fun inventory => Frame.run_leaves ?_ _ _ _
  intro id extent form
  refine ensures_lookup (fun _ _ => trivial) fun called isFound => ?_
  refine ensures_ite (fun _ => ensures_throw trivial) fun isInactive => ?_
  have fewer := inactiveRules_length_lt (Table.mem_values_of_get? (found_eq_ok isFound))
    (Bool.not_eq_true _ ▸ isInactive)
  exact (inductionHypothesis _ (isSize ▸ fewer) _ pending called extent form rfl).mono
    fun _ leaves => leaves.persists

/-- Whatever rules a rule calls, and whatever rule says where the stress is, applying it leaves
the gloss, the part of speech and the word of a form as they are and adds to its classes at the
end only.  The form is of the language that the rule leads to if the rule applies, and the same
as before if it does not. -/
theorem form_persists (graph : Graph) (marker : Text) (rule : Rule) (form : WordForm)
    {made : Inventories} {outcome : Outcome}
    (gave : ((graph.apply rule form marker).on made).1 = .ok outcome) :
    outcome.form.gloss = form.gloss ∧
      outcome.form.partOfSpeech = form.partOfSpeech ∧
      outcome.form.wordId = form.wordId ∧
      form.classes <+: outcome.form.classes ∧
      (outcome.applied = true → outcome.form.language = rule.toLanguage) ∧
      (outcome.applied = false → outcome.form = form) := by
  have leaves : rule.Leaves .wholeWord form outcome :=
    (applyWithin_leaves [] [] rule .wholeWord form).of_on trivial gave
  exact ⟨leaves.persists.gloss, leaves.persists.partOfSpeech, leaves.persists.wordId,
    leaves.persists.classes, leaves.language, leaves.unchanged⟩

/-- A rule that has another one mark the class of words in "x" and then adds an ending. -/
def inflectingRule : Rule where
  id := 1
  name := "inflecting"
  fromLanguage := "a"
  toLanguage := "b"
  logic := .branching [{ kind := .applyRule, rule := some { id := 2, name := "marking" } }]
    [{ condition := .holds { test := .wordEdge .ending, pattern := some { literal := some "x" } }
       instructions := [{ kind := .attach .after, argument := some "y" }] }]

def markingRule : Rule where
  id := 2
  name := "marking"
  fromLanguage := "a"
  toLanguage := "c"
  logic := .sequential [{ kind := .markClass, argument := some "strong" }]

def markedWords : Graph where
  languages := ⟨[
    ("a", { name := "A", shortName := "a"
            wordClasses := [{ name := "Class", entries := [⟨"strong", "s"⟩] }] }),
    ("b", { name := "B", shortName := "b" }),
    ("c", { name := "C", shortName := "c" })]⟩
  rules := ⟨[(1, inflectingRule), (2, markingRule)]⟩

def glossedForm (text : Text) : WordForm :=
  { text, language := "a", classes := ["k"], gloss := some "stone", wordId := some 7 }

/-- A form in "x" is marked by a rule that leads to the third language, and comes to the second
one with its own class in front of the new one.  A form in another sound is as it was, although
it was marked before it was known that no branch is taken. -/
theorem form_persists_markedWords :
    (∃ outcome,
      ((markedWords.apply inflectingRule (glossedForm "ax") "-").on {}).1 = .ok outcome ∧
      outcome.form.gloss = some "stone" ∧ outcome.form.wordId = some 7 ∧
      [("k" : Text)] <+: outcome.form.classes ∧
      outcome.form.classes = [("k" : Text), ("s" : Text)] ∧
      outcome.form.language = ("b" : Text)) ∧
    ∃ outcome,
      ((markedWords.apply inflectingRule (glossedForm "az") "-").on {}).1 = .ok outcome ∧
      outcome.form = glossedForm "az" := by
  have applies : ((markedWords.apply inflectingRule (glossedForm "ax") "-").on {}).1.toOption.map
      (fun outcome => (outcome.applied, outcome.form.classes)) =
        some (true, [("k" : Text), ("s" : Text)]) := by
    decide +kernel
  have idles : ((markedWords.apply inflectingRule (glossedForm "az") "-").on {}).1.toOption.map
      (fun outcome => outcome.applied) = some false := by
    decide +kernel
  obtain ⟨marked, gaveMarked, seen⟩ := Except.exists_of_toOption_map applies
  obtain ⟨same, gaveSame, isIdle⟩ := Except.exists_of_toOption_map idles
  obtain ⟨isApplied, areClasses⟩ := Prod.mk.inj seen
  obtain ⟨gloss, -, wordId, classes, language, -⟩ :=
    form_persists markedWords "-" inflectingRule (glossedForm "ax") gaveMarked
  obtain ⟨-, -, -, -, -, unchanged⟩ :=
    form_persists markedWords "-" inflectingRule (glossedForm "az") gaveSame
  exact ⟨⟨marked, gaveMarked, gloss, wordId, classes, areClasses, language isApplied⟩,
    same, gaveSame, unchanged isIdle⟩

end Graph

end Diachrony
