import Diachrony.Proofs.Cutting
import Mathlib

/-!
# The longest spelling

A text is cut from its beginning to its end, and spellings are looked up in lower case.  Where
some spelling stands, the longest one makes a segment, and of the phonemes that are spelled so it
is the first one in the order of the language.  Where none stands, a single character does.
-/
namespace Diachrony

open Text (lower startsWith startsWith_iff)

def Phoneme.IsSpelled (phoneme : Phoneme) (spelling : Text) : Prop :=
  ∃ grapheme ∈ phoneme.graphemes, lower grapheme = spelling

namespace Language

variable {language : Language} {spelling key : Text} {phoneme : Phoneme}

/-- The spellings of a language in lower case with their phonemes, in the order of the
phonemes. -/
def spellings (language : Language) : List (Text × Phoneme) :=
  language.phonemes.flatMap fun phoneme =>
    phoneme.graphemes.map fun grapheme => (lower grapheme, phoneme)

theorem mem_spellings :
    (spelling, phoneme) ∈ language.spellings ↔
      phoneme ∈ language.phonemes ∧ phoneme.IsSpelled spelling := by
  unfold spellings Phoneme.IsSpelled
  simp only [List.mem_flatMap, List.mem_map, Prod.mk.injEq]
  constructor
  · rintro ⟨_, isMember, grapheme, isGrapheme, isLower, rfl⟩
    exact ⟨isMember, grapheme, isGrapheme, isLower⟩
  · rintro ⟨isMember, grapheme, isGrapheme, isLower⟩
    exact ⟨phoneme, isMember, grapheme, isGrapheme, isLower, rfl⟩

/-- The first entry of a spelling names the first phoneme that is spelled so. -/
theorem first_of_find?_spellings
    (isFound : language.spellings.find? (fun entry => entry.1 = spelling) =
      some (spelling, phoneme)) :
    ∃ earlier later, language.phonemes = earlier ++ phoneme :: later ∧
      ∀ other ∈ earlier, ¬other.IsSpelled spelling := by
  rw [spellings, List.find?_flatMap, List.findSome?_eq_some_iff] at isFound
  obtain ⟨earlier, found, later, isSplit, isEntry, areOthers⟩ := isFound
  have isPhoneme : found = phoneme := by
    obtain ⟨_, _, same⟩ := List.mem_map.mp (List.mem_of_find?_eq_some isEntry)
    exact (Prod.mk.inj same).2
  refine ⟨earlier, later, isPhoneme ▸ isSplit, ?_⟩
  rintro other isEarlier ⟨grapheme, isGrapheme, isLower⟩
  have isOther := List.find?_eq_none.mp (areOthers other isEarlier) (lower grapheme, other)
    (List.mem_map_of_mem isGrapheme)
  simp [isLower] at isOther

end Language

namespace Inventory

variable {language : Language} {inventory : Inventory} {key text spelling : Text}
  {phoneme : Phoneme} {segment : Segment} {offset : Nat}

def longerFirst (left right : Text × Phoneme) : Bool :=
  right.1.length ≤ left.1.length

theorem longerFirst_trans (left middle right : Text × Phoneme)
    (first : longerFirst left middle = true) (second : longerFirst middle right = true) :
    longerFirst left right = true := by
  simp only [longerFirst, decide_eq_true_eq] at first second ⊢
  omega

theorem longerFirst_total (left right : Text × Phoneme) :
    (longerFirst left right || longerFirst right left) = true := by
  simp only [longerFirst, Bool.or_eq_true, decide_eq_true_eq]
  omega

theorem spellings_ofLanguage (language : Language) :
    (ofLanguage language).spellings =
      (language.spellings.filter fun entry => !entry.1.isEmpty).mergeSort longerFirst :=
  rfl

theorem mem_spellings_ofLanguage :
    (spelling, phoneme) ∈ (ofLanguage language).spellings ↔
      phoneme ∈ language.phonemes ∧ phoneme.IsSpelled spelling ∧ spelling ≠ [] := by
  rw [spellings_ofLanguage, List.mem_mergeSort, List.mem_filter, Language.mem_spellings, and_assoc]
  simp

/-- Putting the longer spellings first keeps the order of those of one length. -/
theorem filter_length_mergeSort (entries : List (Text × Phoneme)) (length : Nat) :
    (entries.mergeSort longerFirst).filter (fun entry => entry.1.length = length) =
      entries.filter fun entry => entry.1.length = length := by
  have areAlike : (entries.filter fun entry => entry.1.length = length).Pairwise
      (longerFirst · · = true) := by
    refine List.Pairwise.imp_of_mem (fun isLeft isRight _ => ?_)
      (List.pairwise_of_forall (R := fun _ _ => True) fun _ _ => trivial)
    have isLeft := of_decide_eq_true (List.mem_filter.mp isLeft).2
    have isRight := of_decide_eq_true (List.mem_filter.mp isRight).2
    simp [longerFirst, isLeft, isRight]
  have inOrder : (entries.filter fun entry => entry.1.length = length).Sublist
      (entries.mergeSort longerFirst) :=
    List.sublist_mergeSort longerFirst_trans longerFirst_total areAlike List.filter_sublist
  have isWithin := inOrder.filter fun entry => entry.1.length = length
  rw [List.filter_filter] at isWithin
  simp only [Bool.and_self] at isWithin
  have asMany := ((List.mergeSort_perm entries longerFirst).filter
    fun entry => entry.1.length = length).length_eq
  exact (isWithin.eq_of_length asMany.symm).symm

/-- The spelling that is found is the longest one that stands there. -/
theorem length_le_of_spellingAt?
    (isFound : (ofLanguage language).spellingAt? key = some (spelling, phoneme))
    {entry : Text × Phoneme} (isMember : entry ∈ (ofLanguage language).spellings)
    (stands : entry.1 <+: key) : entry.1.length ≤ spelling.length := by
  obtain ⟨_, longer, shorter, isSplit, areOthers⟩ := List.find?_eq_some_iff_append.mp isFound
  have isSorted : (longer ++ (spelling, phoneme) :: shorter).Pairwise (longerFirst · · = true) :=
    isSplit ▸ List.pairwise_mergeSort longerFirst_trans longerFirst_total _
  rw [isSplit] at isMember
  rcases List.mem_append.mp isMember with isLonger | isOther
  · have isOther := areOthers entry isLonger
    have starts : startsWith entry.1 key = true := by
      obtain ⟨rest, isKey⟩ := stands
      exact startsWith_iff.mpr ⟨rest, isKey.symm⟩
    rw [starts] at isOther
    cases isOther
  · rcases List.mem_cons.mp isOther with rfl | isShorter
    · exact Nat.le_refl _
    · have isBehind := (List.pairwise_cons.mp (List.pairwise_append.mp isSorted).2.1).1
      exact of_decide_eq_true (isBehind entry isShorter)

/-- Of equally long spellings the one that is found comes first in the order of the language. -/
theorem find?_spellings_of_spellingAt?
    (isFound : (ofLanguage language).spellingAt? key = some (spelling, phoneme)) :
    language.spellings.find? (fun entry => entry.1 = spelling) = some (spelling, phoneme) := by
  have isSpelled := mem_spellings_ofLanguage.mp (List.mem_of_find?_eq_some isFound)
  have ofLength (entries : List (Text × Phoneme)) :
      (entries.filter fun entry => entry.1.length = spelling.length).find?
        (fun entry => entry.1 = spelling) = entries.find? fun entry => entry.1 = spelling := by
    rw [List.find?_filter]
    congr 1
    funext entry
    by_cases same : entry.1 = spelling <;> simp [same]
  have filled : (language.spellings.filter fun entry => !entry.1.isEmpty).find?
      (fun entry => entry.1 = spelling) =
        language.spellings.find? fun entry => entry.1 = spelling := by
    rw [List.find?_filter]
    congr 1
    funext entry
    by_cases same : entry.1 = spelling <;> simp [same, isSpelled.2.2]
  rw [← filled, ← ofLength, ← filter_length_mergeSort, ofLength, ← spellings_ofLanguage]
  obtain ⟨isLead, longer, shorter, isSplit, areOthers⟩ :=
    List.find?_eq_some_iff_append.mp isFound
  refine List.find?_eq_some_iff_append.mpr ⟨by simp, longer, shorter, isSplit, ?_⟩
  intro entry isLonger
  have isOther := areOthers entry isLonger
  by_cases same : entry.1 = spelling
  · rw [same, isLead] at isOther
    cases isOther
  · simp [same]

/-- What stands at the beginning of a text makes a segment of its length: the phoneme of the
spelling that is found, or one character without a phoneme. -/
def Cuts (inventory : Inventory) (key : Text) (segment : Segment) : Prop :=
  segment.phoneme = (inventory.spellingAt? key).map Prod.snd ∧
    segment.text.length = ((inventory.spellingAt? key).map fun entry => entry.1.length).getD 1

theorem text_ne_nil_of_cuts (spellsOut : inventory.SpellsOut) (cuts : inventory.Cuts key segment) :
    segment.text ≠ [] := by
  have isLong := cuts.2
  intro isEmpty
  rw [isEmpty, List.length_nil] at isLong
  cases isFound : inventory.spellingAt? key with
  | none => simp [isFound] at isLong
  | some entry =>
      have isFilled := (length_spellingAt? spellsOut isFound).1
      rw [isFound, Option.map_some, Option.getD_some] at isLong
      omega

/-- Each segment is what stands at its place.  The induction is on the cuts, and the place is
counted from where the cutting began. -/
theorem cuts_segmentsFrom (spellsOut : inventory.SpellsOut)
    (sameLength : key.length = text.length)
    (isMember : segment ∈ inventory.segmentsFrom offset text key) :
    ∃ passed, segment.offset = offset + passed ∧ inventory.Cuts (key.drop passed) segment := by
  induction offset, text, key using segmentsFrom.induct inventory with
  | case1 offset key => simp [segmentsFrom] at isMember
  | case2 offset char text key spelling phoneme isFound inductionHypothesis =>
      obtain ⟨isLong, fits⟩ := length_spellingAt? spellsOut isFound
      have sameRest := length_behind_spelling spellsOut isFound sameLength
      rw [List.length_cons] at sameLength
      rw [segmentsFrom, isFound] at isMember
      rcases List.mem_cons.mp isMember with rfl | isBehind
      · refine ⟨0, rfl, ?_⟩
        have taken : spelling.length - 1 ≤ text.length := by omega
        simp only [Cuts, List.drop_zero, isFound, Option.map_some, Option.getD_some,
          List.length_cons, List.length_take_of_le taken, true_and]
        omega
      · obtain ⟨passed, isOffset, cuts⟩ := inductionHypothesis sameRest isBehind
        refine ⟨spelling.length + passed, by omega, ?_⟩
        rwa [List.drop_drop] at cuts
  | case3 offset char text key isNone inductionHypothesis =>
      have sameRest : (key.drop 1).length = text.length := by
        simp [sameLength]
      rw [segmentsFrom, isNone] at isMember
      rcases List.mem_cons.mp isMember with rfl | isBehind
      · exact ⟨0, rfl, by simp [Cuts, isNone]⟩
      · obtain ⟨passed, isOffset, cuts⟩ := inductionHypothesis sameRest isBehind
        refine ⟨1 + passed, by omega, ?_⟩
        rwa [List.drop_drop] at cuts

theorem cuts_segments (spellsOut : inventory.SpellsOut)
    (isMember : segment ∈ inventory.segments text) :
    inventory.Cuts ((lookupForm text).drop segment.offset) segment := by
  obtain ⟨passed, isOffset, cuts⟩ :=
    cuts_segmentsFrom spellsOut (length_lookupForm text) isMember
  rwa [isOffset, Nat.zero_add]

end Inventory

namespace Language

/-- At the beginning of a text, a phoneme is what so many characters are read as: they are one of
its spellings, no longer spelling of the language stands there, and no phoneme in front of it is
spelled so. -/
structure Reads (language : Language) (key : Text) (length : Nat) (phoneme : Phoneme) :
    Prop where
  fits : length ≤ key.length
  spelled : phoneme.IsSpelled (key.take length)
  longest : ∀ other ∈ language.phonemes, ∀ spelling, other.IsSpelled spelling →
    spelling <+: key → spelling.length ≤ length
  first : ∃ earlier later, language.phonemes = earlier ++ phoneme :: later ∧
    ∀ other ∈ earlier, ¬other.IsSpelled (key.take length)

/-- The segments of a text, as a language cuts it.  One behind the other they are the text, each
stands where the one in front of it ends, and each is what the language reads there, in the form
in which spellings are looked up: a phoneme, or a single character where no spelling stands. -/
structure CutsInto (language : Language) (text : Text) (segments : List Segment) : Prop where
  whole : segments.flatMap Segment.text = text
  nonempty : ∀ segment ∈ segments, segment.text ≠ []
  first : ∀ segment, segments[0]? = some segment → segment.offset = 0
  next : ∀ index earlier later, segments[index]? = some earlier →
    segments[index + 1]? = some later → later.offset = earlier.offset + earlier.text.length
  reads : ∀ segment ∈ segments, ∀ phoneme, segment.phoneme = some phoneme →
    language.Reads ((Inventory.lookupForm text).drop segment.offset) segment.text.length phoneme
  single : ∀ segment ∈ segments, segment.phoneme = none →
    segment.text.length = 1 ∧
      ∀ other ∈ language.phonemes, ∀ spelling, other.IsSpelled spelling → spelling ≠ [] →
        ¬spelling <+: (Inventory.lookupForm text).drop segment.offset

variable {language : Language} {key : Text} {segment : Segment}

/-- What is cut off as a phoneme is read as this phoneme. -/
theorem reads_of_cuts (cuts : (Inventory.ofLanguage language).Cuts key segment)
    {phoneme : Phoneme} (isPhoneme : segment.phoneme = some phoneme) :
    language.Reads key segment.text.length phoneme := by
  obtain ⟨isFound, isLong⟩ := cuts
  rw [isPhoneme, eq_comm, Option.map_eq_some_iff] at isFound
  obtain ⟨⟨spelling, found⟩, isFound, rfl⟩ := isFound
  rw [isFound, Option.map_some, Option.getD_some] at isLong
  have isLead := List.find?_some isFound
  obtain ⟨rest, isKey⟩ := startsWith_iff.mp isLead
  have isStretch : key.take segment.text.length = spelling := by
    rw [isLong, isKey, List.take_left]
  have isSpelled := Inventory.mem_spellings_ofLanguage.mp (List.mem_of_find?_eq_some isFound)
  constructor
  · rw [isLong, isKey, List.length_append]
    exact Nat.le_add_right _ _
  · rw [isStretch]
    exact isSpelled.2.1
  · intro other isOther longer isLonger stands
    rw [isLong]
    by_cases isEmpty : longer = []
    · simp [isEmpty]
    · apply Inventory.length_le_of_spellingAt? isFound
        (Inventory.mem_spellings_ofLanguage.mpr ⟨isOther, isLonger, isEmpty⟩) stands
  · rw [isStretch]
    exact first_of_find?_spellings (Inventory.find?_spellings_of_spellingAt? isFound)

/-- Where no phoneme is cut off, one character is, and no spelling stands there. -/
theorem noneStands_of_cuts (cuts : (Inventory.ofLanguage language).Cuts key segment)
    (isNone : segment.phoneme = none) :
    segment.text.length = 1 ∧
      ∀ other ∈ language.phonemes, ∀ spelling, other.IsSpelled spelling → spelling ≠ [] →
        ¬spelling <+: key := by
  obtain ⟨isFound, isLong⟩ := cuts
  rw [isNone, eq_comm, Option.map_eq_none_iff] at isFound
  rw [isFound] at isLong
  refine ⟨isLong, ?_⟩
  rintro other isOther spelling isSpelled isFilled ⟨rest, isKey⟩
  have fails := List.find?_eq_none.mp isFound (spelling, other)
    (Inventory.mem_spellings_ofLanguage.mpr ⟨isOther, isSpelled, isFilled⟩)
  exact fails (startsWith_iff.mpr ⟨rest, isKey.symm⟩)

/-- The segments of a text are what its language cuts it into. -/
theorem cutsInto_segments (language : Language) (text : Text) :
    language.CutsInto text ((Inventory.ofLanguage language).segments text) := by
  have spellsOut := Inventory.spellsOut_ofLanguage language
  constructor
  · exact Inventory.flatMap_segments spellsOut text
  · intro segment isMember
    exact Inventory.text_ne_nil_of_cuts spellsOut (Inventory.cuts_segments spellsOut isMember)
  · intro segment isFirst
    simp [Inventory.offset_segments spellsOut isFirst]
  · intro index earlier later isEarlier isLater
    rw [Inventory.offset_segments spellsOut isLater,
      Inventory.offset_segments spellsOut isEarlier, List.take_add_one, isEarlier]
    simp
  · intro segment isMember phoneme isPhoneme
    exact reads_of_cuts (Inventory.cuts_segments spellsOut isMember) isPhoneme
  · intro segment isMember isNone
    exact noneStands_of_cuts (Inventory.cuts_segments spellsOut isMember) isNone

/-- A language with a digraph, and with a phoneme that is never met. -/
def digraphs : Language where
  name := "digraphs"
  shortName := "d"
  phonemes := [{ spelling := "t", otherSpellings := [""] },
    { spelling := "th", otherSpellings := ["TT"] }, { spelling := "Th", sound := some "x" }]

/-- Whatever the letter case, the longest spelling is taken, and the first phoneme that has it. -/
example : ((Inventory.ofLanguage digraphs).segments "aTHtt").map
    (fun segment => (segment.text, segment.phoneme.map Phoneme.label)) =
      [(['a'], none), (['T', 'H'], some ['t', 'h']), (['t', 't'], some ['t', 'h'])] := by
  cbv

end Language

end Diachrony
