import Diachrony.Application
import Diachrony.Proofs.Application.Recursion
import Diachrony.Proofs.Text.Blank
import Mathlib.Data.Finset.SymmDiff
import Mathlib.Data.Finset.Card
import Mathlib.Data.List.Induction

/-!
# The closest sound that has the features

A feature slot among the new sounds of a change names no sound.  It has the sound that it
continues become another one, which has the features and differs from it in as few classes as
possible.  The phonemes of the language are tried in order, and one of them replaces what was
found before it only if it is strictly closer; so of equally close ones the first is taken.

Whether a phoneme has the features is asked of its spelling, as of a word of its own.  So a
spelling that the inventory cuts into several segments never suits, and of one that it takes for
another phoneme the classes of that other one count.
-/
namespace Diachrony

open Work
open Text (words joinWith)
open scoped symmDiff

section

variable {α β : Type} {Suits : α → Prop} {cost : α → Nat} {view : α → β} {items : List α}
  {candidate : α} {best : Option (Nat × β)}

/-- An item of a list suits, no suiting item costs less, and those in front of it cost more. -/
structure IsFirstLeast (Suits : α → Prop) (cost : α → Nat) (items : List α) (least : α) :
    Prop where
  suits : Suits least
  isFirst : ∃ earlier later, items = earlier ++ least :: later ∧
    (∀ other ∈ earlier, Suits other → cost least < cost other) ∧
    ∀ other ∈ later, Suits other → cost least ≤ cost other

/-- What a search through a list finds: nothing if no item suits, and otherwise what the first
of the least costs, and how it looks. -/
inductive IsBest (Suits : α → Prop) (cost : α → Nat) (view : α → β) (items : List α) :
    Option (Nat × β) → Prop
  | nothing (noneSuits : ∀ item ∈ items, ¬Suits item) : IsBest Suits cost view items none
  | found {least : α} (isLeast : IsFirstLeast Suits cost items least) :
      IsBest Suits cost view items (some (cost least, view least))

theorem IsFirstLeast.le {least : α} (isLeast : IsFirstLeast Suits cost items least)
    {other : α} (isMember : other ∈ items) (suits : Suits other) : cost least ≤ cost other := by
  obtain ⟨earlier, later, rfl, areMore, areNotLess⟩ := isLeast.isFirst
  rcases List.mem_append.mp isMember with isEarlier | isLater
  · exact Nat.le_of_lt (areMore other isEarlier suits)
  · rcases List.mem_cons.mp isLater with rfl | isLater
    · exact Nat.le_refl _
    · exact areNotLess other isLater suits

/-- An item behind all others that does not suit, or costs no less, changes nothing. -/
theorem IsFirstLeast.append {least : α} (isLeast : IsFirstLeast Suits cost items least)
    (isNotLess : Suits candidate → cost least ≤ cost candidate) :
    IsFirstLeast Suits cost (items ++ [candidate]) least := by
  obtain ⟨earlier, later, rfl, areMore, areNotLess⟩ := isLeast.isFirst
  refine ⟨isLeast.suits, earlier, later ++ [candidate], by simp, areMore, ?_⟩
  intro other isLater suits
  rcases List.mem_append.mp isLater with isLater | isLast
  · exact areNotLess other isLater suits
  · rw [List.mem_singleton] at isLast
    subst isLast
    exact isNotLess suits

theorem IsBest.append_of_not_suits (isBest : IsBest Suits cost view items best)
    (suitsNot : ¬Suits candidate) : IsBest Suits cost view (items ++ [candidate]) best := by
  cases isBest with
  | nothing noneSuits =>
      apply IsBest.nothing
      simpa [or_imp, forall_and] using ⟨noneSuits, suitsNot⟩
  | found isLeast => exact .found (isLeast.append fun suits => absurd suits suitsNot)

theorem IsBest.append_of_le (isBest : IsBest Suits cost view items best)
    (isNotLess : ¬(best.all fun found => decide (cost candidate < found.1)) = true) :
    IsBest Suits cost view (items ++ [candidate]) best := by
  cases isBest with
  | nothing noneSuits => simp at isNotLess
  | @found least isLeast =>
      have isNotLess : cost least ≤ cost candidate := by simpa using isNotLess
      exact .found (isLeast.append fun _ => isNotLess)

theorem IsBest.append_of_lt (isBest : IsBest Suits cost view items best)
    (suits : Suits candidate)
    (isLess : (best.all fun found => decide (cost candidate < found.1)) = true) :
    IsBest Suits cost view (items ++ [candidate])
      (some (cost candidate, view candidate)) := by
  refine .found ⟨suits, items, [], rfl, ?_, by simp⟩
  intro other isMember otherSuits
  cases isBest with
  | nothing noneSuits => exact absurd otherSuits (noneSuits other isMember)
  | @found least isLeast =>
      have isLess : cost candidate < cost least := by simpa using isLess
      exact Nat.lt_of_lt_of_le isLess (isLeast.le isMember otherSuits)

end

/-- The classes that exactly one of two phonemes is in. -/
def Phoneme.differences (left right : Phoneme) : Finset Text :=
  left.classes.toFinset ∆ right.classes.toFinset

theorem nodup_eraseDups {α : Type} [BEq α] [LawfulBEq α] (items : List α) :
    items.eraseDups.Nodup := by
  induction isLength : items.length using Nat.strong_induction_on generalizing items with
  | h length inductionHypothesis =>
      cases items with
      | nil => simp
      | cons item items =>
          rw [List.eraseDups_cons, List.nodup_cons]
          constructor
          · simp
          · apply inductionHypothesis _ _ _ rfl
            have isShorter := List.length_filter_le (fun other => !other == item) items
            rw [List.length_cons] at isLength
            omega

theorem length_filter_eraseDups (these those : List Text) :
    (these.eraseDups.filter fun name => !those.contains name).length =
      (these.toFinset \ those.toFinset).card := by
  have noRepeats : (these.eraseDups.filter fun name => !those.contains name).Nodup :=
    (nodup_eraseDups these).filter _
  rw [← List.toFinset_card_of_nodup noRepeats]
  congr 1
  ext name
  simp

theorem Phoneme.distance_eq (left right : Phoneme) :
    left.distance right = (left.differences right).card := by
  have areApart : Disjoint (left.classes.toFinset \ right.classes.toFinset)
      (right.classes.toFinset \ left.classes.toFinset) := disjoint_sdiff_sdiff
  rw [differences, Finset.symmDiff_def, Finset.card_union_of_disjoint areApart,
    ← length_filter_eraseDups, ← length_filter_eraseDups]
  rfl

namespace Inventory

variable {inventory : Inventory}

/-- A name is a class of the language: some phoneme is in it, or it says where a sound
stands. -/
def IsClass (inventory : Inventory) (name : Text) : Prop :=
  name ∈ inventory.tags ∨ ∃ kind : PositionalClass, kind.name = name

/-- The class name that a feature stands for.  Behind a plus sign stands a class, behind a minus
sign a class to be denied; without such a sign, the feature is a class itself. -/
inductive Names (inventory : Inventory) : Text → Text → Prop
  | affirmed {name : Text} (nonempty : name ≠ []) (isClass : inventory.IsClass name) :
      Names inventory ('+' :: name) name
  | denied {name : Text} (nonempty : name ≠ []) (isClass : inventory.IsClass name) :
      Names inventory ('-' :: name) ("non-".toList ++ name)
  | plain {feature : Text} (isClass : inventory.IsClass feature)
      (unsigned : ∀ sign name, feature = sign :: name → sign = '+' ∨ sign = '-' → name ≠ [] →
        ¬inventory.IsClass name) :
      Names inventory feature feature

/-- What a class name asks for: a position, or a tag, or the opposite of what the name behind
"non-" asks for. -/
inductive Asks (inventory : Inventory) : Text → ClassTerm → Prop
  | positional (kind : PositionalClass) : Asks inventory kind.name (.positional kind)
  | tag {name : Text} (isTag : name ∈ inventory.tags)
      (isNoPosition : ∀ kind : PositionalClass, kind.name ≠ name) :
      Asks inventory name (.tag name)
  | non {name : Text} {term : ClassTerm} (isNoTag : "non-".toList ++ name ∉ inventory.tags)
      (asks : Asks inventory name term) :
      Asks inventory ("non-".toList ++ name) (.non term)

theorem ofName?_eq_some {name : Text} {kind : PositionalClass} :
    PositionalClass.ofName? name = some kind ↔ kind.name = name := by
  constructor
  · intro isFound
    simpa using List.find?_some isFound
  · rintro rfl
    cases kind <;> decide

theorem ofName?_eq_none {name : Text} :
    PositionalClass.ofName? name = none ↔ ∀ kind : PositionalClass, kind.name ≠ name := by
  simp [Option.eq_none_iff_forall_ne_some, ofName?_eq_some]

theorem hasClass_iff {name : Text} : inventory.hasClass name = true ↔ inventory.IsClass name := by
  simp [hasClass, IsClass, Option.isSome_iff_exists, ofName?_eq_some]

theorem non_append (name : Text) : "non-".toList ++ name = 'n' :: 'o' :: 'n' :: '-' :: name :=
  rfl

/-- No position is called the opposite of something. -/
theorem name_ne_non (kind : PositionalClass) (name : Text) :
    kind.name ≠ 'n' :: 'o' :: 'n' :: '-' :: name := by
  have noHead : kind.name.head? ≠ some 'n' := by cases kind <;> decide
  intro same
  rw [same] at noHead
  exact noHead rfl

/-- A feature that is taken as it is has to be a class. -/
theorem plainly_eq_ok {feature name : Text} :
    (if inventory.hasClass feature then .ok feature
      else .error (inventory.undefinedClass feature) : Except Error Text) = .ok name ↔
        inventory.IsClass feature ∧ feature = name := by
  by_cases isClass : inventory.IsClass feature
  · simp [hasClass_iff.mpr isClass, isClass]
  · simp [isClass, hasClass_iff]

/-- In front of what is no class, a sign is part of the name. -/
theorem names_of_not_isClass {sign : Char} {name : Text}
    (isNoClass : ¬inventory.IsClass name) (isClass : inventory.IsClass (sign :: name)) :
    inventory.Names (sign :: name) (sign :: name) := by
  apply Names.plain isClass
  intro other rest same _ _
  cases same
  exact isNoClass

theorem featureName_eq_ok {feature name : Text} :
    inventory.featureName feature = .ok name ↔ inventory.Names feature name := by
  unfold featureName
  dsimp only
  constructor
  · intro gave
    split at gave
    · split at gave
      · rename_i isClass
        cases gave
        exact .affirmed (List.cons_ne_nil _ _) (hasClass_iff.mp isClass)
      · rename_i isNoClass
        obtain ⟨isClass, rfl⟩ := plainly_eq_ok.mp gave
        exact names_of_not_isClass (mt hasClass_iff.mpr isNoClass) isClass
    · split at gave
      · rename_i isClass
        cases gave
        exact .denied (List.cons_ne_nil _ _) (hasClass_iff.mp isClass)
      · rename_i isNoClass
        obtain ⟨isClass, rfl⟩ := plainly_eq_ok.mp gave
        exact names_of_not_isClass (mt hasClass_iff.mpr isNoClass) isClass
    · rename_i notAffirmed notDenied
      obtain ⟨isClass, rfl⟩ := plainly_eq_ok.mp gave
      apply Names.plain isClass
      rintro sign name rfl isSign nonempty
      obtain ⟨char, name, rfl⟩ := List.exists_cons_of_ne_nil nonempty
      rcases isSign with rfl | rfl
      · exact absurd rfl (notAffirmed char name)
      · exact absurd rfl (notDenied char name)
  · intro names
    cases names with
    | affirmed nonempty isClass =>
        obtain ⟨char, name, rfl⟩ := List.exists_cons_of_ne_nil nonempty
        exact if_pos (hasClass_iff.mpr isClass)
    | denied nonempty isClass =>
        obtain ⟨char, name, rfl⟩ := List.exists_cons_of_ne_nil nonempty
        exact if_pos (hasClass_iff.mpr isClass)
    | plain isClass unsigned =>
        have gave := plainly_eq_ok.mpr ⟨isClass, rfl⟩
        split
        · have isNoClass := unsigned _ _ rfl (.inl rfl) (List.cons_ne_nil _ _)
          rwa [if_neg (mt hasClass_iff.mp isNoClass)]
        · have isNoClass := unsigned _ _ rfl (.inr rfl) (List.cons_ne_nil _ _)
          rwa [if_neg (mt hasClass_iff.mp isNoClass)]
        · exact gave

/-- A tag is asked for by its name, even by one that begins with "non-". -/
theorem classTerm_of_isTag {name : Text} (isTag : name ∈ inventory.tags)
    (isNoPosition : ∀ kind : PositionalClass, kind.name ≠ name) :
    inventory.classTerm name = .ok (.tag name) := by
  fun_cases inventory.classTerm name with
  | case1 inner isTag => rfl
  | case2 inner isNoTag => simp [isTag] at isNoTag
  | case3 name isOther kind isPosition =>
      exact absurd (ofName?_eq_some.mp isPosition) (isNoPosition kind)
  | case4 name isOther isNoPosition isTag => rfl
  | case5 name isOther isNoPosition isNoTag => simp [isTag] at isNoTag

/-- What a class name is taken to ask for is what it asks for. -/
theorem classTerm_eq_ok {name : Text} {term : ClassTerm} :
    inventory.classTerm name = .ok term ↔ inventory.Asks name term := by
  constructor
  · intro gave
    fun_induction inventory.classTerm name generalizing term with
    | case1 inner isTag =>
        cases gave
        exact .tag (by simpa using isTag) fun kind => name_ne_non kind inner
    | case2 inner isNoTag inductionHypothesis =>
        obtain ⟨inside, isInside, rfl⟩ := Except.map_eq_ok.mp gave
        exact .non (by simpa using isNoTag) (inductionHypothesis isInside)
    | case3 name isOther kind isPosition =>
        cases gave
        rw [← ofName?_eq_some.mp isPosition]
        exact .positional kind
    | case4 name isOther isNoPosition isTag =>
        cases gave
        exact .tag (by simpa using isTag) (ofName?_eq_none.mp isNoPosition)
    | case5 name isOther isNoPosition isNoTag => cases gave
  · intro asks
    induction asks with
    | positional kind => cases kind <;> rfl
    | tag isTag isNoPosition => exact classTerm_of_isTag isTag isNoPosition
    | @non name term isNoTag asks inductionHypothesis =>
        rw [non_append] at isNoTag ⊢
        rw [classTerm, non_append, if_neg (by simpa using isNoTag), inductionHypothesis]
        rfl

theorem classTerms_eq_ok {expression : Text} {terms : List ClassTerm} :
    inventory.classTerms expression = .ok terms ↔
      words expression ≠ [] ∧ List.Forall₂ inventory.Asks (words expression) terms := by
  unfold classTerms
  split
  · rename_i noWords
    simp [noWords]
  · rename_i noWords
    rw [Except.mapM_eq_ok_iff]
    simp only [classTerm_eq_ok]
    exact (and_iff_right noWords).symm

/-- What some features ask for is what the words of the class names ask for that they stand
for. -/
theorem featureTerms_eq_ok {features : List Text} {terms : List ClassTerm} :
    inventory.featureTerms features = .ok terms ↔
      ∃ names, List.Forall₂ inventory.Names features names ∧ names.flatMap words ≠ [] ∧
        List.Forall₂ inventory.Asks (names.flatMap words) terms := by
  unfold featureTerms
  rw [Except.bind_eq_ok]
  apply exists_congr
  intro names
  rw [Except.mapM_eq_ok_iff, classTerms_eq_ok, show " ".toList = [' '] from rfl,
    Text.words_joinWith_eq_flatMap]
  simp only [featureName_eq_ok]

/-- The name that a feature stands for is settled by the feature. -/
theorem Names.unique {feature name other : Text} (names : inventory.Names feature name)
    (namesOther : inventory.Names feature other) : name = other := by
  have same := (featureName_eq_ok.mpr names).symm.trans (featureName_eq_ok.mpr namesOther)
  exact Except.ok.inj same

theorem Asks.unique {name : Text} {term other : ClassTerm} (asks : inventory.Asks name term)
    (asksOther : inventory.Asks name other) : term = other := by
  have same := (classTerm_eq_ok.mpr asks).symm.trans (classTerm_eq_ok.mpr asksOther)
  exact Except.ok.inj same

end Inventory

/-- Whether a sound that is a word of its own stands in a position.  It is first and last, and
makes a syllable if it is a vowel; a stress it has none, nor a neighbour. -/
def PositionalClass.holdsAlone (diphthongs : List Text) (segment : Segment) :
    PositionalClass → Bool
  | diphthong => diphthongs.contains segment.text
  | wordInitial | wordFinal => true
  | syllableInitial | syllableFinal => segment.isVowel
  | stressed | geminate => false

/-- Whether a sound that is a word of its own is what a class name asks for. -/
def ClassTerm.holdsAlone (diphthongs : List Text) (segment : Segment) : ClassTerm → Bool
  | tag name => segment.hasClass name
  | positional kind => kind.holdsAlone diphthongs segment
  | non term => !term.holdsAlone diphthongs segment

namespace Segmentation

variable {inventory : Inventory} {text : Text} {segment : Segment}
  (isOnly : inventory.segments text = [segment])

include isOnly

theorem segment?_unstressed :
    (unstressed inventory text : Segmentation).segment? 0 = some segment := by
  simp [unstressed, ofText, segment?, isOnly]

theorem syllableAt?_unstressed :
    (unstressed inventory text : Segmentation).syllableAt? 0 =
      if segment.isVowel then some ⟨0, 1⟩ else none := by
  have isSyllable : (unstressed inventory text : Segmentation).syllables =
      if segment.isVowel then [⟨0, 1⟩] else [] := by
    by_cases isVowel : segment.isVowel = true
    · simp [unstressed, ofText, isOnly, Syllable.ofSegments, Syllable.Draft.addSegments,
        Syllable.Draft.addVowel, Syllable.Draft.finish, isVowel]
    · simp [unstressed, ofText, isOnly, Syllable.ofSegments, Syllable.Draft.addSegments,
        Syllable.Draft.addConsonant, Syllable.Draft.finish, isVowel]
  rw [syllableAt?, isSyllable]
  by_cases isVowel : segment.isVowel = true
  · simp [isVowel, Syllable.holds]
  · simp [isVowel]

theorem inPositional_unstressed (kind : PositionalClass) :
    (unstressed inventory text : Segmentation).inPositional 0 kind =
      pure (kind.holdsAlone inventory.language.diphthongs segment) := by
  have isHere : (unstressed inventory text : Segmentation).segmentText? 0 = some segment.text := by
    simp [segmentText?, segment?_unstressed isOnly]
  have noneBehind : (unstressed inventory text : Segmentation).segmentText? 1 = none := by
    simp [segmentText?, segment?, unstressed, ofText, isOnly]
  have noneBefore : (unstressed inventory text : Segmentation).segmentText? (-1) = none := rfl
  have isSyllable := syllableAt?_unstressed isOnly
  cases kind with
  | diphthong =>
      have isInventory : (unstressed inventory text : Segmentation).inventory = inventory := rfl
      simp [inPositional, inDiphthong, PositionalClass.holdsAlone, isHere, noneBehind, noneBefore,
        isInventory]
  | stressed => rfl
  | wordInitial => rfl
  | wordFinal => simp [inPositional, length, unstressed, ofText, isOnly, PositionalClass.holdsAlone]
  | syllableInitial =>
      by_cases isVowel : segment.isVowel = true
      · simp [inPositional, isSyllable, PositionalClass.holdsAlone, isVowel]
      · simp [inPositional, isSyllable, PositionalClass.holdsAlone, isVowel]
  | syllableFinal =>
      by_cases isVowel : segment.isVowel = true
      · simp [inPositional, isSyllable, PositionalClass.holdsAlone, isVowel]
      · simp [inPositional, isSyllable, PositionalClass.holdsAlone, isVowel]
  | geminate =>
      simp [inPositional, isGeminate, PositionalClass.holdsAlone, isHere, noneBehind, noneBefore]

theorem satisfies_unstressed (term : ClassTerm) :
    (unstressed inventory text : Segmentation).satisfies 0 term =
      pure (term.holdsAlone inventory.language.diphthongs segment) := by
  induction term with
  | tag name =>
      simp [satisfies, ClassTerm.holdsAlone, segment?_unstressed isOnly]
  | positional kind => exact inPositional_unstressed isOnly kind
  | non term inductionHypothesis =>
      rw [satisfies, inductionHypothesis, pure_bind]
      rfl

theorem satisfiesAll_unstressed (terms : List ClassTerm) :
    (unstressed inventory text : Segmentation).satisfiesAll 0 terms =
      pure (terms.all (ClassTerm.holdsAlone inventory.language.diphthongs segment)) := by
  induction terms with
  | nil => rfl
  | cons term terms inductionHypothesis =>
      rw [satisfiesAll, satisfies_unstressed isOnly, pure_bind, inductionHypothesis]
      cases holds : term.holdsAlone inventory.language.diphthongs segment with
      | true => simp [holds]
      | false => simp [holds]

end Segmentation

namespace Inventory

/-- A sound that is a word of its own has a feature: it is what each word of the class name asks
for that the feature stands for. -/
def Shows (inventory : Inventory) (segment : Segment) (feature : Text) : Prop :=
  ∃ name, inventory.Names feature name ∧
    ∀ word ∈ words name, ∃ term, inventory.Asks word term ∧
      term.holdsAlone inventory.language.diphthongs segment = true

/-- A phoneme has some features: its primary spelling, cut as a word of its own, is a single
segment, and that segment has each of them. -/
def Suits (inventory : Inventory) (features : List Text) (phoneme : Phoneme) : Prop :=
  ∃ segment, inventory.segments phoneme.spelling = [segment] ∧
    ∀ feature ∈ features, inventory.Shows segment feature

/-- What some features turn a segment into: the primary spelling of the phoneme that has them and
is the first of those closest to its own, or what it is, if there is no such phoneme. -/
inductive Respells (inventory : Inventory) (features : List Text) (segment : Segment) : Text → Prop
  | closest {source closest : Phoneme} (isSource : segment.phoneme = some source)
      (isLeast : IsFirstLeast (inventory.Suits features)
        (fun phoneme => (phoneme.differences source).card) inventory.language.phonemes closest) :
      Respells inventory features segment closest.spelling
  | kept (noneSuits : ∀ source, segment.phoneme = some source →
        ∀ phoneme ∈ inventory.language.phonemes, ¬inventory.Suits features phoneme) :
      Respells inventory features segment segment.text

variable {inventory : Inventory} {features : List Text} {terms : List ClassTerm}

/-- What holds of the ones just where it holds of the others holds of all just alike. -/
theorem forall_mem_iff_of_forall₂ {α β : Type} {Relates : α → β → Prop} {Left : α → Prop}
    {Right : β → Prop} {items : List α} {values : List β}
    (areRelated : List.Forall₂ Relates items values)
    (alike : ∀ item value, Relates item value → (Left item ↔ Right value)) :
    (∀ item ∈ items, Left item) ↔ ∀ value ∈ values, Right value := by
  induction areRelated with
  | nil => simp
  | cons isRelated _ inductionHypothesis =>
      simp only [List.forall_mem_cons, alike _ _ isRelated, inductionHypothesis]

theorem forall_shows_iff (areTerms : inventory.featureTerms features = .ok terms)
    (segment : Segment) :
    (∀ feature ∈ features, inventory.Shows segment feature) ↔
      terms.all (ClassTerm.holdsAlone inventory.language.diphthongs segment) = true := by
  obtain ⟨names, areNames, -, areAsked⟩ := featureTerms_eq_ok.mp areTerms
  calc
    _ ↔ ∀ name ∈ names, ∀ word ∈ words name, ∃ term, inventory.Asks word term ∧
          term.holdsAlone inventory.language.diphthongs segment = true := by
      apply forall_mem_iff_of_forall₂ areNames
      intro feature name names
      constructor
      · rintro ⟨other, namesOther, holds⟩
        rwa [names.unique namesOther]
      · intro holds
        exact ⟨name, names, holds⟩
    _ ↔ ∀ word ∈ names.flatMap words, ∃ term, inventory.Asks word term ∧
          term.holdsAlone inventory.language.diphthongs segment = true :=
      List.forall_mem_flatMap.symm
    _ ↔ ∀ term ∈ terms,
          term.holdsAlone inventory.language.diphthongs segment = true := by
      apply forall_mem_iff_of_forall₂ areAsked
      intro word term asks
      constructor
      · rintro ⟨other, asksOther, holds⟩
        rwa [asks.unique asksOther]
      · intro holds
        exact ⟨term, asks, holds⟩
    _ ↔ _ := List.all_eq_true.symm

theorem suits_iff (areTerms : inventory.featureTerms features = .ok terms) {phoneme : Phoneme}
    {segment : Segment} (isOnly : inventory.segments phoneme.spelling = [segment]) :
    inventory.Suits features phoneme ↔
      terms.all (ClassTerm.holdsAlone inventory.language.diphthongs segment) = true := by
  rw [← forall_shows_iff areTerms]
  constructor
  · rintro ⟨other, isOnlyOther, shows⟩
    cases isOnly.symm.trans isOnlyOther
    exact shows
  · intro shows
    exact ⟨segment, isOnly, shows⟩

end Inventory

namespace Frame

variable {frame : Frame} {features : List Text} {terms : List ClassTerm}

/-- The search through some phonemes finds the first of the closest that have the features. -/
theorem closestSpelling?_isBest (areTerms : frame.inventory.featureTerms features = .ok terms)
    (source : Phoneme) (phonemes : List Phoneme) :
    ∃ best, frame.closestSpelling? terms source phonemes = pure best ∧
      IsBest (frame.inventory.Suits features) (fun phoneme => (phoneme.differences source).card)
        Phoneme.spelling phonemes best := by
  induction phonemes using List.reverseRecOn with
  | nil => exact ⟨none, rfl, .nothing (by simp)⟩
  | append_singleton phonemes candidate inductionHypothesis =>
      obtain ⟨best, isFound, isBest⟩ := inductionHypothesis
      unfold closestSpelling? at isFound ⊢
      rw [List.foldlM_append, isFound, pure_bind, List.foldlM_cons]
      simp only [List.foldlM_nil, bind_pure]
      let alone : Segmentation := .unstressed frame.inventory candidate.spelling
      by_cases isSingle : alone.length = 1
      · obtain ⟨segment, isOnly⟩ := List.length_eq_one_iff.mp isSingle
        rw [if_pos isSingle, Segmentation.satisfiesAll_unstressed isOnly, pure_bind]
        by_cases suits : frame.inventory.Suits features candidate
        · have isDistance := candidate.distance_eq source
          rw [(Inventory.suits_iff areTerms isOnly).mp suits]
          simp only [if_true, isDistance]
          by_cases isLess : (best.all fun found =>
              decide ((candidate.differences source).card < found.1)) = true
          · rw [if_pos isLess]
            exact ⟨_, rfl, isBest.append_of_lt suits isLess⟩
          · rw [if_neg isLess]
            exact ⟨best, rfl, isBest.append_of_le isLess⟩
        · rw [Bool.eq_false_iff.mpr (mt (Inventory.suits_iff areTerms isOnly).mpr suits)]
          exact ⟨best, rfl, isBest.append_of_not_suits suits⟩
      · rw [if_neg isSingle]
        refine ⟨best, rfl, isBest.append_of_not_suits ?_⟩
        rintro ⟨segment, isOnly, -⟩
        exact isSingle (congrArg List.length isOnly)

/-- A feature slot among the new sounds writes, for the segment that it continues, the spelling
of the first of the closest phonemes that have the features; and if there are none, or the
segment is no phoneme, it writes what was there. -/
theorem slotOutput_respells {word : Segmentation} {slot : Slot} {index : Nat} {segment : Segment}
    (isFeatures : slot.literal = none) (isSource : word.segment? index = some segment)
    (areDefined : ∃ terms, frame.inventory.featureTerms slot.features = .ok terms)
    (made : Inventories) :
    ∃ output, (frame.slotOutput word slot (some index)).on made = (.ok output, made) ∧
      frame.inventory.Respells slot.features segment output := by
  obtain ⟨terms, areTerms⟩ := areDefined
  unfold slotOutput
  rw [isFeatures]
  dsimp only
  rw [isSource]
  dsimp only
  cases isPhoneme : segment.phoneme with
  | none =>
      refine ⟨segment.text, rfl, .kept ?_⟩
      simp [isPhoneme]
  | some source =>
      obtain ⟨best, isFound, isBest⟩ :=
        closestSpelling?_isBest areTerms source frame.inventory.language.phonemes
      dsimp only
      rw [areTerms, found_bind, isFound, pure_bind]
      cases isBest with
      | nothing noneSuits =>
          refine ⟨segment.text, rfl, .kept ?_⟩
          intro other isOther
          exact noneSuits
      | found isLeast => exact ⟨_, rfl, .closest isPhoneme isLeast⟩

/-- A language with three voiced dentals, two of which are as close to the voiceless one as can
be. -/
def dentals : Language :=
  { name := "dentals", shortName := "d"
    phonemes := [
      { spelling := "a", tags := ["vowel"] },
      { spelling := "t", tags := ["voiceless", "dental", "plosive"] },
      { spelling := "n", tags := ["voiced", "dental", "nasal"] },
      { spelling := "z", tags := ["voiced", "dental", "fricative"] },
      { spelling := "d", tags := ["voiced", "dental", "plosive"] },
      { spelling := "q", tags := ["plosive", "dental", "voiced"] }] }

/-- The inventory of that language, whose spellings are all of one length. -/
def dentalInventory : Inventory :=
  { language := dentals
    spellings := dentals.phonemes.map fun phoneme => (phoneme.spelling, phoneme)
    tags := (dentals.phonemes.flatMap Phoneme.classes).eraseDups }

theorem ofLanguage_dentals : Inventory.ofLanguage dentals = dentalInventory := by
  have sorted : (dentals.phonemes.map fun phoneme => (phoneme.spelling, phoneme)).mergeSort
      (fun left right => decide (right.1.length ≤ left.1.length)) =
        dentals.phonemes.map fun phoneme => (phoneme.spelling, phoneme) :=
    List.mergeSort_of_pairwise (by decide)
  simp only [Inventory.ofLanguage, dentalInventory]
  congr 1

/-- The surroundings of a rule from that language. -/
def dentalFrame : Frame := Graph.outerFrame {} "-" dentals (.ofLanguage dentals)

def dentalWord : Segmentation := .unstressed (.ofLanguage dentals) "ata"

def voicedOral : Slot := { features := ["+voice", "-nasal"] }

/-- The voiceless dental becomes the first of the voiced plosives: the nasal is excluded, the
fricative is farther, and the last one is as close but comes later. -/
theorem slotOutput_respells_voicedOral :
    ∃ segment terms,
      dentalWord.segment? 1 = some segment ∧
      (Inventory.ofLanguage dentals).featureTerms voicedOral.features = .ok terms ∧
      (Inventory.ofLanguage dentals).Respells voicedOral.features segment "d" := by
  have isFeatures : voicedOral.literal = none := rfl
  have isInside : (dentalWord.segment? 1).isSome = true := by
    rw [dentalWord, ofLanguage_dentals]
    decide +kernel
  have areTerms : dentalFrame.inventory.featureTerms voicedOral.features =
      .ok [.tag "+voice", .non (.tag "nasal")] := by
    rw [dentalFrame, ofLanguage_dentals]
    rfl
  have isGiven : ((dentalFrame.slotOutput dentalWord voicedOral
      (some (1 : Nat))).on {}).1.toOption = some ("d" : Text) := by
    rw [dentalFrame, dentalWord, ofLanguage_dentals]
    decide +kernel
  obtain ⟨segment, isSource⟩ := Option.isSome_iff_exists.mp isInside
  obtain ⟨output, gave, respells⟩ := slotOutput_respells isFeatures isSource ⟨_, areTerms⟩ {}
  rw [gave] at isGiven
  cases isGiven
  exact ⟨segment, _, isSource, areTerms, respells⟩

end Frame

end Diachrony
