import Diachrony.Application.Instructions
import Diachrony.Proofs.Application.Words

/-!
# Frames that are alike

What happens inside one rule depends on the graph only through its languages and the rules
that are called, and on the form only through its text, its classes and its stress.  Frames
carry the calling of other rules as a function, so the statements here are about two frames
whose calls agree, and about forms that are alike: stress, segments and the instructions
about whole words come out alike.

Which forms count as alike is left open.  They may be the same, or the same in what bears on
rules.
-/
namespace Diachrony

open Work

namespace WordForm

/-- Forms are alike in one way or another: what bears on rules is the same, and they stay
alike when they are changed in the same way. -/
structure IsLikeness (Like : WordForm → WordForm → Prop) : Prop where
  text {form other : WordForm} : Like form other → other.text = form.text
  classes {form other : WordForm} : Like form other → other.classes = form.classes
  stressedIndex {form other : WordForm} :
    Like form other → other.stressedIndex = form.stressedIndex
  withText {form other : WordForm} (text : Text) (stressedIndex : Option Int) :
    Like form other → Like (form.withText text stressedIndex) (other.withText text stressedIndex)
  withStress {form other : WordForm} (stressedIndex : Option Int) :
    Like form other → Like { form with stressedIndex } { other with stressedIndex }
  withClasses {form other : WordForm} (classes : List Text) :
    Like form other → Like { form with classes } { other with classes }
  withCategories {form other : WordForm} (change : List CategoryValue → List CategoryValue) :
    Like form other → Like { form with categories := change form.categories }
      { other with categories := change other.categories }
  withLanguage {form other : WordForm} (language : Text) :
    Like form other → Like { form with language } { other with language }

theorem isLikeness_eq : IsLikeness (· = ·) where
  text := by rintro _ _ rfl; rfl
  classes := by rintro _ _ rfl; rfl
  stressedIndex := by rintro _ _ rfl; rfl
  withText := by rintro _ _ _ _ rfl; rfl
  withStress := by rintro _ _ _ rfl; rfl
  withClasses := by rintro _ _ _ rfl; rfl
  withCategories := by rintro _ _ _ rfl; rfl
  withLanguage := by rintro _ _ _ rfl; rfl

/-- Forms that are the same in what bears on rules: text, word classes and stress. -/
def BearsLike (form other : WordForm) : Prop :=
  other.text = form.text ∧ other.classes = form.classes ∧
    other.stressedIndex = form.stressedIndex

theorem BearsLike.trans {form between other : WordForm} (like : BearsLike form between)
    (likeOther : BearsLike between other) : BearsLike form other :=
  ⟨likeOther.1.trans like.1, likeOther.2.1.trans like.2.1, likeOther.2.2.trans like.2.2⟩

theorem isLikeness_bearsLike : IsLikeness BearsLike where
  text like := like.1
  classes like := like.2.1
  stressedIndex like := like.2.2
  withText _ _ like := ⟨rfl, like.2.1, rfl⟩
  withStress _ like := ⟨like.1, like.2.1, rfl⟩
  withClasses _ like := ⟨like.1, rfl, like.2.2⟩
  withCategories _ like := like
  withLanguage _ like := like

end WordForm

def Outcome.Alike (Like : WordForm → WordForm → Prop) (outcome other : Outcome) : Prop :=
  other.applied = outcome.applied ∧ Like outcome.form other.form

theorem Outcome.Alike.eq {outcome other : Outcome} (alike : Outcome.Alike (· = ·) outcome other) :
    outcome = other := by
  obtain ⟨sameApplied, sameForm⟩ := alike
  cases outcome
  cases other
  rw [Outcome.mk.injEq]
  exact ⟨sameApplied.symm, sameForm⟩

theorem changeCategories_eq
    (change : List CategoryValue → CategoryValue → List CategoryValue) (first : Language)
    (others : List Language) (form : WordForm) (keys : List Text) :
    changeCategories change first others form keys =
      (keys.mapM (resolveCategory first others)).map fun values =>
        { form with categories := values.foldl change form.categories } := by
  unfold changeCategories
  cases keys.mapM (resolveCategory first others) <;> rfl

theorem exists_of_changeCategories
    {change : List CategoryValue → CategoryValue → List CategoryValue} {first : Language}
    {others : List Language} {form changed : WordForm} {keys : List Text}
    (gave : changeCategories change first others form keys = .ok changed) :
    ∃ categories, changed = { form with categories } := by
  rw [changeCategories_eq] at gave
  obtain ⟨values, -, rfl⟩ := Except.map_eq_ok.mp gave
  exact ⟨_, rfl⟩

/-- Declaring categories changes the categories of a form and nothing else of it. -/
theorem Frame.exists_of_declareCategories {σ : Type} {frame : Frame σ} {rule : Rule}
    {form declared : WordForm} (gave : frame.declareCategories rule form = .ok declared) :
    ∃ categories, declared = { form with categories } := by
  obtain ⟨languages, -, gave⟩ := Except.bind_eq_ok.mp gave
  obtain ⟨replaced, gaveReplaced, gaveAdded⟩ := Except.bind_eq_ok.mp gave
  obtain ⟨_, rfl⟩ := exists_of_changeCategories gaveReplaced
  obtain ⟨categories, rfl⟩ := exists_of_changeCategories gaveAdded
  exact ⟨categories, rfl⟩

/-- Changing categories changes nothing else, so it keeps forms alike. -/
theorem agree_changeCategories {Like : WordForm → WordForm → Prop}
    (isLikeness : WordForm.IsLikeness Like) {σ τ : Type} {Kept : σ → τ → Prop}
    (change : List CategoryValue → CategoryValue → List CategoryValue) (first : Language)
    (others : List Language) {form otherForm : WordForm} (like : Like form otherForm)
    (keys : List Text) :
    AgreeOn Kept Like (liftM (changeCategories change first others form keys))
      (liftM (changeCategories change first others otherForm keys)) := by
  rw [changeCategories_eq, changeCategories_eq]
  cases keys.mapM (resolveCategory first others) with
  | error failure => exact agree_throw _ failure
  | ok values => exact agree_pure (isLikeness.withCategories (values.foldl change) like)

namespace Frame

variable {σ τ : Type} {Kept : σ → τ → Prop}

/-- Frames with the same languages and with the same rules of those that are called, whose
calls of these rules on forms that are alike agree, and whose stress rule says the same of
forms that are alike. -/
structure Alike (Kept : σ → τ → Prop) (Like : WordForm → WordForm → Prop) (Called : Int → Prop)
    (frame : Frame σ) (other : Frame τ) : Prop where
  isLikeness : WordForm.IsLikeness Like
  language : other.language = frame.language
  inventory : other.inventory = frame.inventory
  marker : other.marker = frame.marker
  languages : other.graph.languages = frame.graph.languages
  rules : ∀ id, Called id → other.graph.rules.get? id = frame.graph.rules.get? id
  calls : ∀ id extent form otherForm, Called id → Like form otherForm →
    AgreeOn Kept (Outcome.Alike Like) (frame.call id extent form) (other.call id extent otherForm)
  stress : ∀ id form otherForm, frame.language.stressRule = some id → Like form otherForm →
    AgreeOn Kept (· = ·) (frame.stressBy id form) (other.stressBy id otherForm)

variable {Like : WordForm → WordForm → Prop} {Called : Int → Prop} {frame : Frame σ}
  {other : Frame τ}

namespace Alike

variable (alike : Alike Kept Like Called frame other)

include alike

theorem graphLanguage (name : Text) : other.graph.language name = frame.graph.language name := by
  simp only [Graph.language, alike.languages]

theorem graphRule {id : Int} (isCalled : Called id) :
    other.graph.rule id = frame.graph.rule id := by
  simp only [Graph.rule, alike.rules id isCalled]

theorem withMarkOf {form otherForm : WordForm} (like : Like form otherForm) (text : Text) :
    other.withMarkOf otherForm text = frame.withMarkOf form text := by
  simp only [Frame.withMarkOf, alike.marker, alike.isLikeness.text like]

end Alike

section

variable (alike : Alike Kept Like Called frame other) {form otherForm : WordForm}
  (like : Like form otherForm)

include alike like

theorem agree_stressedIndex :
    AgreeOn Kept (· = ·) (frame.stressedIndex form)
      (other.stressedIndex otherForm) := by
  unfold stressedIndex
  rw [alike.language, alike.isLikeness.stressedIndex like]
  cases form.stressedIndex with
  | some index => exact agree_pure rfl
  | none =>
      cases isDesignated : frame.language.stressRule with
      | none => exact agree_pure rfl
      | some rule => exact alike.stress rule form otherForm isDesignated like

theorem agree_segmentation :
    AgreeOn Kept (Segmentation.Alike Kept)
      (frame.segmentation form) (other.segmentation otherForm) := by
  unfold segmentation
  rw [alike.inventory, alike.marker, alike.isLikeness.text like]
  refine agree_later (agree_stressedIndex alike like) fun stress otherStress agreed => ?_
  exact agree_pure ⟨otherStress, rfl, agreed⟩

/-- What is asked of the segments of a form is asked of words that are alike. -/
theorem agree_onSegmentation {α β : Type} {relation : α → β → Prop}
    {ask : Segmentation σ → Work σ α} {otherAsk : Segmentation τ → Work τ β}
    (asked : ∀ word otherWord,
      Segmentation.Alike Kept word otherWord →
      AgreeOn Kept relation (ask word) (otherAsk otherWord)) :
    AgreeOn Kept relation (frame.segmentation form >>= ask)
      (other.segmentation otherForm >>= otherAsk) :=
  agree_bind (agree_segmentation alike like) asked

end

theorem agree_firstStem? {word : Segmentation σ} {otherWord : Segmentation τ}
    (alike : Segmentation.Alike Kept word otherWord) (patterns : List SoundPattern) :
    AgreeOn Kept (· = ·) (firstStem? word patterns) (firstStem? otherWord patterns) := by
  have ends := Question.agree_endsLike alike
  obtain ⟨stress, rfl, -⟩ := alike
  induction patterns with
  | nil => exact agree_pure rfl
  | cons pattern patterns inductionHypothesis =>
      refine agree_bind_eq (ends pattern) fun _ => ?_
      exact agree_ite (fun _ => agree_pure rfl) fun _ => inductionHypothesis

section

variable (alike : Alike Kept Like Called frame other) {form otherForm : WordForm}
  (like : Like form otherForm)

include alike like

theorem agree_changeEnding (branch : Option Branch) (ending : Option Text) :
    AgreeOn Kept Like (frame.changeEnding branch ending form)
      (other.changeEnding branch ending otherForm) := by
  cases branch with
  | none => exact agree_pure like
  | some branch =>
      refine agree_onSegmentation alike like fun word otherWord wordsAlike => ?_
      refine agree_bind_eq (agree_firstStem? wordsAlike _) fun stem? => ?_
      cases stem? with
      | none => exact agree_pure like
      | some stem =>
          exact agree_lookup fun _ _ => agree_pure (alike.isLikeness.withText _ none like)

theorem agree_affix? (instruction : Instruction) :
    AgreeOn Kept (· = ·) (frame.affix? instruction form)
      (other.affix? instruction otherForm) := by
  unfold affix?
  cases instruction.seek with
  | none => exact agree_lookup fun _ _ => agree_pure rfl
  | some source =>
      refine agree_onSegmentation alike like fun word otherWord wordsAlike => ?_
      have seeks := Segmentation.agree_seek wordsAlike source
      obtain ⟨stress, rfl, -⟩ := wordsAlike
      exact agree_bind_eq seeks fun _ => agree_pure rfl

theorem agree_attach (side : Side) (instruction : Instruction) :
    AgreeOn Kept Like (frame.attach side instruction form)
      (other.attach side instruction otherForm) := by
  unfold attach
  rw [alike.marker, alike.isLikeness.text like]
  refine agree_bind_eq (agree_affix? alike like instruction) fun affix? => ?_
  cases affix? with
  | none => exact agree_pure like
  | some addition =>
      cases side <;> exact agree_pure (alike.isLikeness.withText _ none like)

theorem agree_insert (side : Side) (instruction : Instruction) :
    AgreeOn Kept Like (frame.insert side instruction form)
      (other.insert side instruction otherForm) := by
  refine agree_onSegmentation alike like fun word otherWord wordsAlike => ?_
  refine agree_lookup fun place _ => ?_
  have seeks := Segmentation.agree_seek wordsAlike place
  obtain ⟨stress, rfl, -⟩ := wordsAlike
  refine agree_bind_eq seeks fun index? => ?_
  have same : ((index?.bind fun index => (word.withStress stress).segment? index)) =
      index?.bind fun index => word.segment? index := rfl
  rw [same, alike.isLikeness.text like]
  cases index?.bind fun index => word.segment? index with
  | none => exact agree_pure like
  | some segment =>
      exact agree_lookup fun _ _ => agree_pure (alike.isLikeness.withText _ none like)

theorem agree_moveStress (ordinal : Int) :
    AgreeOn Kept Like (frame.moveStress ordinal form)
      (other.moveStress ordinal otherForm) := by
  refine agree_onSegmentation alike like fun word otherWord wordsAlike => ?_
  obtain ⟨stress, rfl, -⟩ := wordsAlike
  have same : (((word.withStress stress).syllableByNumber? ordinal).bind
      (word.withStress stress).firstVowel?) =
      (word.syllableByNumber? ordinal).bind word.firstVowel? := rfl
  rw [same]
  cases (word.syllableByNumber? ordinal).bind word.firstVowel? with
  | none => exact agree_pure like
  | some index => exact agree_pure (alike.isLikeness.withStress _ like)

theorem agree_markClass (key : Option Text) :
    AgreeOn Kept Like (liftM (frame.markClass key form))
      (liftM (other.markClass key otherForm)) := by
  have sameClass : other.wordClass key = frame.wordClass key := by
    simp only [wordClass, undefined, alike.language]
  have sameAnswer : otherForm.isIn = form.isIn := by
    funext wordClass
    simp only [WordForm.isIn, alike.isLikeness.classes like]
  unfold markClass
  rw [sameClass, sameAnswer, alike.isLikeness.classes like]
  cases frame.wordClass key with
  | error failure => exact agree_throw _ failure
  | ok wordClass =>
      dsimp only [bind, Except.bind]
      split
      · exact agree_pure like
      · exact agree_pure (alike.isLikeness.withClasses _ like)

theorem agree_changeByCitation
    (change : List CategoryValue → CategoryValue → List CategoryValue)
    (instruction : Instruction) :
    AgreeOn Kept Like (liftM (frame.changeByCitation change instruction form))
      (liftM (other.changeByCitation change instruction otherForm)) := by
  unfold changeByCitation
  rw [alike.language]
  exact agree_changeCategories alike.isLikeness change _ _ like _

theorem agree_callRule {rule : Int} (isCalled : Called rule) (extent : Extent) :
    AgreeOn Kept Like (frame.callRule rule extent form)
      (other.callRule rule extent otherForm) := by
  exact agree_bind (alike.calls rule extent form otherForm isCalled like)
    fun _ _ outcomesAlike => agree_pure outcomesAlike.2

theorem agree_applySoundRule {rule : Int} (isCalled : Called rule) (place : Option SeekTarget) :
    AgreeOn Kept Like (frame.applySoundRule rule place form)
      (other.applySoundRule rule place otherForm) := by
  unfold applySoundRule
  rw [alike.graphRule isCalled]
  refine agree_lookup fun called _ => ?_
  refine agree_ite (fun _ => ?_) fun _ => agree_callRule alike like isCalled .wholeWord
  refine agree_onSegmentation alike like fun word otherWord wordsAlike => ?_
  refine agree_lookup fun target _ => ?_
  refine agree_bind_eq (Segmentation.agree_seek wordsAlike target) fun index? => ?_
  cases index? with
  | none => exact agree_pure like
  | some index => exact agree_callRule alike like isCalled (.oneSound index)

end

end Frame

end Diachrony
