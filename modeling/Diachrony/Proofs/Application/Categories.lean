import Diachrony.Application
import Diachrony.Proofs.Application.Frames
import Diachrony.Proofs.Except

/-!
# What becomes of the categories of a form

Replacing by a list of values leaves what a form has for other categories as it is and puts behind
it, for each category that the list has values for, the last one of these.  Adding a list of
values leaves all that a form has and puts behind it what is new.  A rule replaces first and adds
then, and looks up what it cites in the language it leads to before the language it is from.
-/
namespace Diachrony

variable {held values : List CategoryValue} {value : CategoryValue}

/-- Of the values that a form has, those of other categories than the given values are of. -/
def othersThan (values held : List CategoryValue) : List CategoryValue :=
  held.filter fun assigned => values.all fun value => assigned.category != value.category

/-- Of each category the last one of some values, in the order in which these last ones stand. -/
def lastOfEach : List CategoryValue → List CategoryValue
  | [] => []
  | value :: later =>
    if later.any fun other => value.category == other.category then lastOfEach later
    else value :: lastOfEach later

theorem mem_of_mem_lastOfEach (isLast : value ∈ lastOfEach values) : value ∈ values := by
  induction values with
  | nil => cases isLast
  | cons first later inductionHypothesis =>
      rw [lastOfEach] at isLast
      split at isLast
      · exact List.mem_cons_of_mem _ (inductionHypothesis isLast)
      · rcases List.mem_cons.mp isLast with rfl | isLater
        · exact List.mem_cons_self
        · exact List.mem_cons_of_mem _ (inductionHypothesis isLater)

/-- What replaces a value stands behind all others. -/
theorem replaceCategory_eq (held : List CategoryValue) (value : CategoryValue) :
    replaceCategory held value = othersThan [value] held ++ [value] := by
  have isGone : (held.filter fun assigned => assigned.category != value.category).contains value =
      false := by
    simp
  unfold replaceCategory addCategory
  rw [isGone]
  simp [othersThan]

theorem othersThan_cons (value : CategoryValue) (values held : List CategoryValue) :
    othersThan (value :: values) held = othersThan values (othersThan [value] held) := by
  simp [othersThan, List.filter_filter, Bool.and_comm]

theorem othersThan_append (values left right : List CategoryValue) :
    othersThan values (left ++ right) = othersThan values left ++ othersThan values right :=
  List.filter_append left right

/-- A value is the last one of its category if those behind it are of others. -/
theorem lastOfEach_cons (value : CategoryValue) (later : List CategoryValue) :
    lastOfEach (value :: later) = othersThan later [value] ++ lastOfEach later := by
  by_cases isRepeated : (later.any fun other => value.category == other.category) = true
  · have areNot : (later.all fun other => value.category != other.category) = false := by
      simpa using isRepeated
    simp [lastOfEach, othersThan, isRepeated, areNot]
  · have areNot : (later.all fun other => value.category != other.category) = true := by
      simpa using isRepeated
    simp [lastOfEach, othersThan, isRepeated, areNot]

/-- Replacing by each of some values in turn leaves the last one of each category, since a later
value of the same category takes the earlier one out again. -/
theorem foldl_replaceCategory (held values : List CategoryValue) :
    values.foldl replaceCategory held = othersThan values held ++ lastOfEach values := by
  induction values generalizing held with
  | nil => simp [othersThan, lastOfEach]
  | cons value later inductionHypothesis =>
      rw [List.foldl_cons, inductionHypothesis, replaceCategory_eq, othersThan_append,
        ← othersThan_cons, List.append_assoc, ← lastOfEach_cons]

/-- What some values replaced is replaced by them again, and comes back as it was. -/
theorem othersThan_replaced (held values : List CategoryValue) :
    othersThan values (othersThan values held ++ lastOfEach values) = othersThan values held := by
  have noneLeft : othersThan values (lastOfEach values) = [] := by
    apply List.filter_eq_nil_iff.mpr
    intro value isLast isOther
    have isAnother := List.all_eq_true.mp isOther value (mem_of_mem_lastOfEach isLast)
    simp at isAnother
  rw [othersThan_append, noneLeft, List.append_nil]
  simp [othersThan]

/-- Of some values, those that a form does not have yet, each of them once. -/
def notYetIn (held values : List CategoryValue) : List CategoryValue :=
  (values.filter fun value => !held.contains value).eraseDups

/-- Adding each of some values in turn adds what is new, where it first stands. -/
theorem foldl_addCategory (held values : List CategoryValue) :
    values.foldl addCategory held = held ++ notYetIn held values := by
  induction values generalizing held with
  | nil => simp [notYetIn]
  | cons value later inductionHypothesis =>
      rw [List.foldl_cons, inductionHypothesis]
      by_cases isHeld : value ∈ held
      · simp [addCategory, notYetIn, isHeld]
      · have isNew : addCategory held value = held ++ [value] := by
          simp [addCategory, isHeld]
        have areFirst : notYetIn held (value :: later) =
            value :: notYetIn (held ++ [value]) later := by
          simp [notYetIn, isHeld, List.eraseDups_cons, List.filter_filter, Bool.and_comm,
            beq_eq_decide]
        rw [isNew, areFirst, List.append_assoc, List.singleton_append]

/-- What is added is there, so that nothing is new any more. -/
theorem notYetIn_added (held values : List CategoryValue) :
    notYetIn (held ++ notYetIn held values) values = [] := by
  have noneLeft : (values.filter fun value =>
      !(held ++ notYetIn held values).contains value) = [] := by
    apply List.filter_eq_nil_iff.mpr
    intro value isMember
    by_cases isHeld : value ∈ held
    · simp [isHeld]
    · simp [notYetIn, isHeld, isMember]
  rw [notYetIn, noneLeft]
  rfl

/-- A citation stands for a value in some languages: the first of them that has an entry under it
has it for this value of its category. -/
def StandsFor (languages : List Language) (key : Text) (value : CategoryValue) : Prop :=
  ∃ earlier language later, languages = earlier ++ language :: later ∧
    (∀ other ∈ earlier, other.categoryEntry? key = none) ∧
    ∃ category entry, language.categoryEntry? key = some (category, entry) ∧
      value = ⟨category.name, entry.abbreviation⟩

theorem resolveCategory_eq_ok {first : Language} {others : List Language} {key : Text} :
    resolveCategory first others key = .ok value ↔ StandsFor (first :: others) key value := by
  have isFound : resolveCategory first others key = .ok value ↔
      ∃ entry, (first :: others).findSome? (fun language => language.categoryEntry? key) =
        some entry ∧ value = ⟨entry.1.name, entry.2.abbreviation⟩ := by
    unfold resolveCategory
    cases (first :: others).findSome? fun language => language.categoryEntry? key with
    | none => simp
    | some entry => simp [eq_comm]
  simp only [isFound, StandsFor, List.findSome?_eq_some_iff]
  constructor
  · rintro ⟨⟨category, entry⟩, ⟨earlier, language, later, isSplit, isEntry, areNone⟩, isValue⟩
    exact ⟨earlier, language, later, isSplit, areNone, category, entry, isEntry, isValue⟩
  · rintro ⟨earlier, language, later, isSplit, areNone, category, entry, isEntry, isValue⟩
    exact ⟨(category, entry), ⟨earlier, language, later, isSplit, isEntry, areNone⟩, isValue⟩

/-- Citations are resolved to the values that they stand for, one after the other. -/
theorem mapM_resolveCategory_eq_ok {first : Language} {others : List Language}
    {keys : List Text} :
    keys.mapM (resolveCategory first others) = .ok values ↔
      List.Forall₂ (StandsFor (first :: others)) keys values := by
  constructor
  · intro gave
    exact (Except.forall₂_of_mapM gave).imp fun _ _ => resolveCategory_eq_ok.mp
  · intro standFor
    induction standFor with
    | nil => rfl
    | cons standsFor _ inductionHypothesis =>
        rw [List.mapM_cons, resolveCategory_eq_ok.mpr standsFor, inductionHypothesis]
        rfl

/-- A language that has been looked into need not be looked into again. -/
theorem resolveCategory_self (language : Language) :
    resolveCategory language [language] = resolveCategory language [] := by
  funext key
  unfold resolveCategory
  cases isEntry : language.categoryEntry? key <;> simp [isEntry]

section

variable {first : Language} {others : List Language} {keys : List Text}
  (standFor : List.Forall₂ (StandsFor (first :: others)) keys values) (form : WordForm)

include standFor

theorem changeCategories_eq_ok
    (change : List CategoryValue → CategoryValue → List CategoryValue) :
    changeCategories change first others form keys =
      .ok { form with categories := values.foldl change form.categories } := by
  rw [changeCategories_eq, mapM_resolveCategory_eq_ok.mpr standFor]
  rfl

theorem changeCategories_replace :
    changeCategories replaceCategory first others form keys =
      .ok { form with
        categories := othersThan values form.categories ++ lastOfEach values } := by
  rw [changeCategories_eq_ok standFor, foldl_replaceCategory]

theorem changeCategories_add :
    changeCategories addCategory first others form keys =
      .ok { form with categories := form.categories ++ notYetIn form.categories values } := by
  rw [changeCategories_eq_ok standFor, foldl_addCategory]

end

/-- A rule that is being applied replaces and adds by what it cites, which is looked up first in
the language that it leads to and then in the language that it is from. -/
theorem Frame.declareCategories_eq {frame : Frame} {rule : Rule} {target : Language}
    (isSource : frame.graph.language rule.fromLanguage = .ok frame.language)
    (isTarget : frame.graph.language rule.toLanguage = .ok target) (form : WordForm) :
    frame.declareCategories rule form =
      (changeCategories replaceCategory target [frame.language] form
        (citedCategories rule.replacedCategories) >>= fun replaced =>
          changeCategories addCategory target [frame.language] replaced
            (citedCategories rule.addedCategories)) := by
  unfold declareCategories categoryLanguages
  rw [isTarget]
  by_cases same : rule.fromLanguage = rule.toLanguage
  · rw [same, isTarget] at isSource
    cases isSource
    unfold changeCategories
    rw [if_pos same, resolveCategory_self]
    rfl
  · rw [if_neg same]
    rfl

/-- What a rule that is being applied makes of the categories of a form. -/
theorem Frame.declareCategories_eq_ok {frame : Frame} {rule : Rule} {target : Language}
    {replaced added : List CategoryValue}
    (isSource : frame.graph.language rule.fromLanguage = .ok frame.language)
    (isTarget : frame.graph.language rule.toLanguage = .ok target)
    (areReplaced : List.Forall₂ (StandsFor [target, frame.language])
      (citedCategories rule.replacedCategories) replaced)
    (areAdded : List.Forall₂ (StandsFor [target, frame.language])
      (citedCategories rule.addedCategories) added) (form : WordForm) :
    let kept := othersThan replaced form.categories ++ lastOfEach replaced
    frame.declareCategories rule form =
      .ok { form with categories := kept ++ notYetIn kept added } := by
  rw [declareCategories_eq isSource isTarget, changeCategories_replace areReplaced]
  exact changeCategories_add areAdded _

/-- Replacing and adding by resolvable citations, each of which changes nothing more when it is
done again, and what a rule that is being applied makes of the two. -/
theorem categories_change :
    (∀ (first : Language) (others : List Language) (form : WordForm) (keys : List Text)
      (values : List CategoryValue), List.Forall₂ (StandsFor (first :: others)) keys values →
      changeCategories replaceCategory first others form keys =
          .ok { form with
            categories := othersThan values form.categories ++ lastOfEach values } ∧
        changeCategories addCategory first others form keys =
          .ok { form with categories := form.categories ++ notYetIn form.categories values } ∧
        ∀ change ∈ [replaceCategory, addCategory],
          (changeCategories change first others form keys >>= fun changed =>
            changeCategories change first others changed keys) =
              changeCategories change first others form keys) ∧
    ∀ (frame : Frame) (rule : Rule) (target : Language) (form : WordForm)
      (replaced added : List CategoryValue),
      frame.graph.language rule.fromLanguage = .ok frame.language →
      frame.graph.language rule.toLanguage = .ok target →
      List.Forall₂ (StandsFor [target, frame.language])
        (citedCategories rule.replacedCategories) replaced →
      List.Forall₂ (StandsFor [target, frame.language])
        (citedCategories rule.addedCategories) added →
      let kept := othersThan replaced form.categories ++ lastOfEach replaced
      frame.declareCategories rule form =
        .ok { form with categories := kept ++ notYetIn kept added } := by
  constructor
  · intro first others form keys values standFor
    refine ⟨changeCategories_replace standFor form, changeCategories_add standFor form, ?_⟩
    intro change isChange
    rcases List.mem_pair.mp isChange with rfl | rfl
    · rw [changeCategories_replace standFor form]
      apply (changeCategories_replace standFor _).trans
      rw [othersThan_replaced]
    · rw [changeCategories_add standFor form]
      apply (changeCategories_add standFor _).trans
      rw [notYetIn_added, List.append_nil]
  · intro frame rule target form replaced added isSource isTarget areReplaced areAdded
    exact Frame.declareCategories_eq_ok isSource isTarget areReplaced areAdded form

/-- A language that has number, tense and animacy. -/
def animate : Language where
  name := "animate"
  shortName := "n"
  categories := [
    { name := "number", entries := [⟨"plural", "PL"⟩, ⟨"singular", "SG"⟩] },
    { name := "tense", entries := [⟨"past", "PST"⟩] },
    { name := "animacy", entries := [⟨"animate", "AN"⟩] }]

def counting : Language where
  name := "counting"
  shortName := "c"
  categories := [
    { name := "count", entries := [⟨"plural", "PL"⟩] },
    { name := "case", entries := [⟨"genitive", "GEN"⟩] }]

/-- A rule from the one to the other that cites one category twice, one value twice, one value by
its name, and one that both languages have. -/
def citing : Rule where
  id := 1
  name := "citing"
  fromLanguage := "c"
  toLanguage := "n"
  logic := .sequential []
  replacedCategories := some ".PL.GEN.SG"
  addedCategories := some ".AN.past.AN"

/-- The surroundings in which the rule is applied. -/
def citingFrame : Frame :=
  Graph.outerFrame { languages := ⟨[("c", counting), ("n", animate)]⟩, rules := ⟨[(1, citing)]⟩ }
    "-" counting (.ofLanguage counting)

def pastDual : WordForm where
  text := "bi"
  language := "c"
  categories := [⟨"number", "DU"⟩, ⟨"tense", "PST"⟩]

theorem categories_change_citing :
    let replaced : List CategoryValue := [⟨"number", "PL"⟩, ⟨"case", "GEN"⟩, ⟨"number", "SG"⟩]
    let added : List CategoryValue := [⟨"animacy", "AN"⟩, ⟨"tense", "PST"⟩, ⟨"animacy", "AN"⟩]
    List.Forall₂ (StandsFor [animate, counting]) ["PL", "GEN", "SG"] replaced ∧
      List.Forall₂ (StandsFor [animate, counting]) ["AN", "past", "AN"] added ∧
      changeCategories replaceCategory animate [counting] pastDual ["PL", "GEN", "SG"] =
        .ok { pastDual with
          categories := [⟨"tense", "PST"⟩, ⟨"case", "GEN"⟩, ⟨"number", "SG"⟩] } ∧
      citingFrame.declareCategories citing pastDual =
        .ok { pastDual with
          categories := [⟨"tense", "PST"⟩, ⟨"case", "GEN"⟩, ⟨"number", "SG"⟩,
            ⟨"animacy", "AN"⟩] } := by
  have areReplaced : List.Forall₂ (StandsFor [animate, counting]) ["PL", "GEN", "SG"]
      [⟨"number", "PL"⟩, ⟨"case", "GEN"⟩, ⟨"number", "SG"⟩] :=
    mapM_resolveCategory_eq_ok.mp rfl
  have areAdded : List.Forall₂ (StandsFor [animate, counting]) ["AN", "past", "AN"]
      [⟨"animacy", "AN"⟩, ⟨"tense", "PST"⟩, ⟨"animacy", "AN"⟩] :=
    mapM_resolveCategory_eq_ok.mp rfl
  refine ⟨areReplaced, areAdded, ?_, ?_⟩
  · exact (categories_change.1 animate [counting] pastDual _ _ areReplaced).1
  · exact categories_change.2 citingFrame citing animate pastDual _ _ rfl rfl areReplaced areAdded

end Diachrony
