import Diachrony.Segmentation
import Mathlib

/-!
# How a word divides into syllables

The syllables of a word with a vowel divide it without gap or overlap, and each has one nucleus:
a vowel, or two vowels in a row that make a diphthong.  Of the consonants between two nuclei a
single one goes to the later syllable, and of more the first one goes to the earlier syllable.

One segment is read at a time, so that what is known of a draft is said of the segments read so
far, and each of them keeps it so.
-/
namespace Diachrony

namespace Syllable

variable {diphthongs : List Text} {segments : List Segment} {index stop : Nat}

def VowelAt (segments : List Segment) (index : Nat) : Prop :=
  ∃ segment, segments[index]? = some segment ∧ segment.isVowel = true

theorem vowelAt_iff {segment : Segment} (isSegment : segments[index]? = some segment) :
    VowelAt segments index ↔ segment.isVowel = true := by
  simp [VowelAt, isSegment]

/-- The segments from `start` up to, and without, `stop` that a syllable is built around. -/
structure Nucleus where
  start : Nat
  stop : Nat

/-- A nucleus is a single vowel, or two vowels in a row whose texts make a diphthong. -/
inductive IsNucleus (diphthongs : List Text) (segments : List Segment) : Nucleus → Prop
  | vowel {index : Nat} (isVowel : VowelAt segments index) :
      IsNucleus diphthongs segments ⟨index, index + 1⟩
  | diphthong {index : Nat} {first second : Segment}
      (isFirst : segments[index]? = some first) (isVowel : first.isVowel = true)
      (isSecond : segments[index + 1]? = some second) (isVowel' : second.isVowel = true)
      (isListed : first.text ++ second.text ∈ diphthongs) :
      IsNucleus diphthongs segments ⟨index, index + 2⟩

theorem IsNucleus.start_lt_stop {nucleus : Nucleus}
    (isNucleus : IsNucleus diphthongs segments nucleus) : nucleus.start < nucleus.stop := by
  cases isNucleus <;> simp

theorem IsNucleus.vowelAt_start {nucleus : Nucleus}
    (isNucleus : IsNucleus diphthongs segments nucleus) : VowelAt segments nucleus.start := by
  cases isNucleus with
  | vowel isVowel => exact isVowel
  | diphthong isFirst isVowel => exact ⟨_, isFirst, isVowel⟩

/-- A nucleus is the only one of a syllable: it lies in the syllable, and the vowels of the
syllable are those of the nucleus. -/
structure HasNucleus (diphthongs : List Text) (segments : List Segment) (syllable : Syllable)
    (nucleus : Nucleus) : Prop where
  isNucleus : IsNucleus diphthongs segments nucleus
  opens : syllable.start ≤ nucleus.start
  closes : nucleus.stop ≤ syllable.stop
  only : ∀ index, syllable.start ≤ index → index < syllable.stop →
    (VowelAt segments index ↔ nucleus.start ≤ index ∧ index < nucleus.stop)

/-- A syllable with its nucleus follows another one.  It begins where that one ends, which is
directly behind the earlier nucleus, or one consonant further if two or more lie between the
nuclei.  Two single vowels in a row are apart only if they make no diphthong. -/
structure Follows (diphthongs : List Text) (segments : List Segment)
    (earlier later : Syllable × Nucleus) : Prop where
  adjacent : earlier.1.stop = later.1.start
  boundary : ∃ consonants, later.2.start = earlier.2.stop + consonants ∧
    earlier.1.stop = if consonants ≤ 1 then earlier.2.stop else earlier.2.stop + 1
  apart : later.2.start = earlier.2.stop → earlier.2.stop = earlier.2.start + 1 →
    ∀ first second, segments[earlier.2.start]? = some first →
      segments[later.2.start]? = some second → first.text ++ second.text ∉ diphthongs

/-- What a syllable follows depends on where it and its nucleus begin, not on where they end. -/
theorem Follows.of_starts {earlier later other : Syllable × Nucleus}
    (follows : Follows diphthongs segments earlier later) (isStart : other.1.start = later.1.start)
    (isOpening : other.2.start = later.2.start) : Follows diphthongs segments earlier other := by
  constructor
  · rw [isStart]
    exact follows.adjacent
  · rw [isOpening]
    exact follows.boundary
  · rw [isOpening]
    exact follows.apart

structure Divides (diphthongs : List Text) (segments : List Segment)
    (divided : List (Syllable × Nucleus)) : Prop where
  first : divided.head?.map (fun entry => entry.1.start) = some 0
  last : divided.getLast?.map (fun entry => entry.1.stop) = some segments.length
  nonempty : ∀ entry ∈ divided, entry.1.start < entry.1.stop
  hasNucleus : ∀ entry ∈ divided, HasNucleus diphthongs segments entry.1 entry.2
  follows : divided.IsChain (Follows diphthongs segments)

namespace HasNucleus

variable {start : Nat} {nucleus : Nucleus}

/-- A vowel is the nucleus of a syllable that begins behind all earlier vowels. -/
theorem single (isBefore : start ≤ index)
    (noEarlier : ∀ other, start ≤ other → other < index → ¬VowelAt segments other)
    (isVowel : VowelAt segments index) :
    HasNucleus diphthongs segments ⟨start, index + 1⟩ ⟨index, index + 1⟩ := by
  refine ⟨.vowel isVowel, isBefore, Nat.le_refl _, ?_⟩
  intro other isBehind isInside
  by_cases same : other = index
  · simp [same, isVowel]
  · have isEarlier : other < index := by
      dsimp only at isInside
      omega
    have notVowel := noEarlier other isBehind isEarlier
    simp only [notVowel, false_iff]
    omega

/-- A consonant behind a syllable can go to the syllable. -/
theorem addConsonant (hasNucleus : HasNucleus diphthongs segments ⟨start, index⟩ nucleus)
    (notVowel : ¬VowelAt segments index) :
    HasNucleus diphthongs segments ⟨start, index + 1⟩ nucleus := by
  have closes := hasNucleus.closes
  dsimp only at closes
  refine ⟨hasNucleus.isNucleus, hasNucleus.opens, by dsimp only; omega, ?_⟩
  intro other isBehind isInside
  by_cases same : other = index
  · simp only [same, notVowel, false_iff]
    omega
  · apply hasNucleus.only other isBehind
    dsimp only at isInside ⊢
    omega

/-- A syllable may end anywhere behind its nucleus. -/
theorem endAt (hasNucleus : HasNucleus diphthongs segments ⟨start, index⟩ nucleus)
    (closes : nucleus.stop ≤ stop) (isBefore : stop ≤ index) :
    HasNucleus diphthongs segments ⟨start, stop⟩ nucleus := by
  refine ⟨hasNucleus.isNucleus, hasNucleus.opens, closes, ?_⟩
  intro other isBehind isInside
  apply hasNucleus.only other isBehind
  dsimp only at isInside ⊢
  omega

/-- A vowel and one behind it that make a diphthong are one nucleus. -/
theorem addVowel {first second : Segment}
    (hasNucleus : HasNucleus diphthongs segments ⟨start, index + 1⟩ ⟨index, index + 1⟩)
    (isFirst : segments[index]? = some first) (isSecond : segments[index + 1]? = some second)
    (isVowel : second.isVowel = true) (isListed : first.text ++ second.text ∈ diphthongs) :
    HasNucleus diphthongs segments ⟨start, index + 2⟩ ⟨index, index + 2⟩ := by
  have opens := hasNucleus.opens
  have isVowelToo : VowelAt segments index :=
    (hasNucleus.only index opens (Nat.lt_succ_self index)).mpr ⟨Nat.le_refl _, Nat.lt_succ_self _⟩
  refine ⟨.diphthong isFirst ((vowelAt_iff isFirst).mp isVowelToo) isSecond isVowel isListed,
    opens, Nat.le_refl _, ?_⟩
  intro other isBehind isInside
  by_cases same : other = index + 1
  · rw [same, vowelAt_iff isSecond]
    simp [isVowel]
  · rw [hasNucleus.only other isBehind (by dsimp only at isInside ⊢; omega)]
    dsimp only at isInside ⊢
    omega

end HasNucleus

namespace Draft

variable {draft : Draft} {segment : Segment} {rest : List Segment}

/-- What a draft holds that has read the segments up to an index, the last one of its syllables
and the earlier ones, last first, with their nuclei. -/
structure Reads (diphthongs : List Text) (segments : List Segment) (index : Nat) (draft : Draft)
    (last : Syllable × Nucleus) (earlier : List (Syllable × Nucleus)) : Prop where
  found : draft.found = last.1 :: earlier.map Prod.fst
  start : draft.start = last.1.stop
  consonants : last.2.stop + draft.consonants = index
  stop : last.1.stop = if draft.consonants ≤ 1 then last.2.stop else last.2.stop + 1
  vowel : draft.vowel =
    if draft.consonants = 0 ∧ last.2.stop = last.2.start + 1 then
      segments[last.2.start]?.map Segment.text
    else none
  hasNucleus : HasNucleus diphthongs segments ⟨last.1.start, index⟩ last.2
  areEarlier : ∀ entry ∈ earlier, HasNucleus diphthongs segments entry.1 entry.2
  follows : (last :: earlier).IsChain fun later earlier => Follows diphthongs segments earlier later
  opens : ((last :: earlier).map fun entry => entry.1.start).getLast? = some 0

/-- A draft before the first nucleus: there are only consonants so far. -/
structure Leads (segments : List Segment) (index : Nat) (draft : Draft) : Prop where
  found : draft.found = []
  start : draft.start = 0
  vowel : draft.vowel = none
  noVowel : ∀ other < index, ¬VowelAt segments other

namespace Leads

theorem addConsonant (leads : Leads segments index draft) (notVowel : ¬VowelAt segments index) :
    Leads segments (index + 1) draft.addConsonant := by
  have isDraft : draft.addConsonant =
      { draft with consonants := draft.consonants + 1, vowel := none } := by
    simp [Draft.addConsonant, lengthen, leads.found]
  rw [isDraft]
  refine ⟨leads.found, leads.start, rfl, ?_⟩
  intro other isEarlier
  by_cases same : other = index
  · rwa [same]
  · apply leads.noVowel other
    omega

/-- The first vowel is the nucleus of a syllable that begins with the word. -/
theorem addVowel (leads : Leads segments index draft) (isSegment : segments[index]? = some segment)
    (isVowel : segment.isVowel = true) :
    Reads diphthongs segments (index + 1) (draft.addVowel diphthongs index segment.text)
      (⟨0, index + 1⟩, ⟨index, index + 1⟩) [] := by
  have isDraft : draft.addVowel diphthongs index segment.text =
      { found := [⟨0, index + 1⟩], start := index + 1, consonants := 0,
        vowel := some segment.text } := by
    simp [Draft.addVowel, leads.found, leads.start, leads.vowel]
  have hasNucleus : HasNucleus diphthongs segments ⟨0, index + 1⟩ ⟨index, index + 1⟩ :=
    HasNucleus.single (Nat.zero_le index) (fun other _ => leads.noVowel other)
      ((vowelAt_iff isSegment).mpr isVowel)
  rw [isDraft]
  constructor <;> simp [hasNucleus, isSegment]

end Leads

namespace Reads

variable {last : Syllable × Nucleus} {earlier : List (Syllable × Nucleus)}

/-- A consonant shows where the last syllable ends, if it is the second one behind its nucleus. -/
theorem addConsonant (reads : Reads diphthongs segments index draft last earlier)
    (notVowel : ¬VowelAt segments index) :
    ∃ last, Reads diphthongs segments (index + 1) draft.addConsonant last earlier := by
  obtain ⟨⟨start, stop⟩, nucleus⟩ := last
  obtain ⟨found, isStart, consonants, isStop, -, hasNucleus, areEarlier, follows, opens⟩ := reads
  dsimp only at found isStart consonants isStop hasNucleus
  have isDraft : draft.addConsonant =
      { found := ⟨start, if draft.consonants = 1 then stop + 1 else stop⟩ :: earlier.map Prod.fst
        start := if draft.consonants = 1 then stop + 1 else stop
        consonants := draft.consonants + 1
        vowel := none } := by
    by_cases isSecond : draft.consonants = 1
    · simp [Draft.addConsonant, lengthen, found, isStart, isSecond]
    · simp [Draft.addConsonant, found, isStart, isSecond]
  rw [isDraft]
  refine ⟨(⟨start, if draft.consonants = 1 then stop + 1 else stop⟩, nucleus), ?_⟩
  constructor
  · rfl
  · rfl
  · dsimp only
    omega
  · by_cases isSecond : draft.consonants = 1
    · simp [isSecond, isStop]
    · have isFew : draft.consonants + 1 ≤ 1 ↔ draft.consonants ≤ 1 := by omega
      simp only [isSecond, isFew, isStop, if_false]
  · simp
  · exact hasNucleus.addConsonant notVowel
  · exact areEarlier
  · exact follows.imp_head fun follows => follows.of_starts rfl rfl
  · exact opens

/-- A vowel that makes a diphthong with the one before it lengthens the nucleus. -/
theorem addSecond (reads : Reads diphthongs segments index draft last earlier)
    (isSegment : segments[index]? = some segment) (isVowel : segment.isVowel = true)
    (isDiphthong :
      (draft.vowel.any fun vowel => diphthongs.contains (vowel ++ segment.text)) = true) :
    ∃ last, Reads diphthongs segments (index + 1)
      (draft.addVowel diphthongs index segment.text) last earlier := by
  obtain ⟨⟨start, stop⟩, ⟨opening, closing⟩⟩ := last
  obtain ⟨found, isStart, consonants, isStop, vowel, hasNucleus, areEarlier, follows, opens⟩ := reads
  dsimp only at found isStart consonants isStop vowel hasNucleus
  obtain ⟨⟨isNext, isSingle⟩, first, isFirst, isListed⟩ :
      (draft.consonants = 0 ∧ closing = opening + 1) ∧
        ∃ first, segments[opening]? = some first ∧ first.text ++ segment.text ∈ diphthongs := by
    rw [vowel] at isDiphthong
    split at isDiphthong
    · rename_i isSingle
      cases isFirst : segments[opening]? with
      | none => simp [isFirst] at isDiphthong
      | some first => exact ⟨isSingle, first, rfl, by simpa [isFirst] using isDiphthong⟩
    · cases isDiphthong
  obtain rfl : closing = index := by omega
  obtain rfl : stop = closing := by simpa [isNext] using isStop
  have isDraft : draft.addVowel diphthongs stop segment.text =
      { found := ⟨start, stop + 1⟩ :: earlier.map Prod.fst, start := stop + 1, consonants := 0
        vowel := none } := by
    unfold Draft.addVowel
    rw [isDiphthong]
    simp [lengthen, found, isStart, isNext]
  subst isSingle
  rw [isDraft]
  refine ⟨(⟨start, opening + 2⟩, ⟨opening, opening + 2⟩), ?_⟩
  constructor
  · rfl
  · rfl
  · rfl
  · rfl
  · simp
  · exact hasNucleus.addVowel isFirst isSegment isVowel isListed
  · exact areEarlier
  · exact follows.imp_head fun follows => follows.of_starts rfl rfl
  · exact opens

/-- A vowel that makes no diphthong is the nucleus of a new syllable. -/
theorem addNucleus (reads : Reads diphthongs segments index draft last earlier)
    (isSegment : segments[index]? = some segment) (isVowel : segment.isVowel = true)
    (noDiphthong :
      (draft.vowel.any fun vowel => diphthongs.contains (vowel ++ segment.text)) = false) :
    Reads diphthongs segments (index + 1) (draft.addVowel diphthongs index segment.text)
      (⟨draft.start, index + 1⟩, ⟨index, index + 1⟩) (last :: earlier) := by
  obtain ⟨found, isStart, consonants, isStop, vowel, hasNucleus, areEarlier, follows, opens⟩ := reads
  have isDraft : draft.addVowel diphthongs index segment.text =
      { found := ⟨draft.start, index + 1⟩ :: draft.found, start := index + 1, consonants := 0
        vowel := some segment.text } := by
    unfold Draft.addVowel
    rw [noDiphthong]
    rfl
  have closes : last.2.stop ≤ last.1.stop := by
    split at isStop <;> omega
  have isBefore : last.1.stop ≤ index := by
    split at isStop <;> omega
  have noLater (other : Nat) (isBehind : last.1.stop ≤ other) (isEarlier : other < index) :
      ¬VowelAt segments other := by
    have starts := hasNucleus.opens
    have isLong := hasNucleus.isNucleus.start_lt_stop
    dsimp only at starts
    rw [hasNucleus.only other (by dsimp only; omega) isEarlier]
    omega
  rw [isDraft]
  constructor
  · rw [found, List.map_cons]
  · rfl
  · rfl
  · rfl
  · simp [isSegment]
  · rw [isStart]
    exact HasNucleus.single isBefore noLater ((vowelAt_iff isSegment).mpr isVowel)
  · exact List.forall_mem_cons.mpr ⟨hasNucleus.endAt closes isBefore, areEarlier⟩
  · refine List.isChain_cons_cons.mpr ⟨⟨isStart.symm, ?_, ?_⟩, follows⟩
    · exact ⟨draft.consonants, consonants.symm, isStop⟩
    · intro isNext isSingle first second isFirst isSecond
      dsimp only at isNext isSecond
      have isVowelText : draft.vowel = some first.text := by
        rw [vowel, if_pos ⟨by omega, isSingle⟩, isFirst]
        rfl
      have same : second = segment := by
        rw [isSegment] at isSecond
        exact (Option.some.inj isSecond).symm
      simpa [isVowelText, same] using noDiphthong
  · rw [List.map_cons, List.getLast?_cons, opens]
    rfl

end Reads

/-- What a draft has read: consonants only, or syllables with their nuclei. -/
def HasRead (diphthongs : List Text) (segments : List Segment) (index : Nat) (draft : Draft) :
    Prop :=
  Leads segments index draft ∨ ∃ last earlier, Reads diphthongs segments index draft last earlier

theorem hasRead_empty : HasRead diphthongs segments 0 {} :=
  .inl ⟨rfl, rfl, rfl, fun _ isEarlier => nomatch isEarlier⟩

/-- One segment more. -/
theorem HasRead.add (hasRead : HasRead diphthongs segments index draft)
    (isSegment : segments[index]? = some segment) :
    HasRead diphthongs segments (index + 1)
      (if segment.isVowel then draft.addVowel diphthongs index segment.text
        else draft.addConsonant) := by
  by_cases isVowel : segment.isVowel = true
  · rw [if_pos isVowel]
    rcases hasRead with leads | ⟨last, earlier, reads⟩
    · exact .inr ⟨_, _, leads.addVowel isSegment isVowel⟩
    · by_cases isDiphthong :
        (draft.vowel.any fun vowel => diphthongs.contains (vowel ++ segment.text)) = true
      · obtain ⟨last, reads⟩ := reads.addSecond isSegment isVowel isDiphthong
        exact .inr ⟨last, earlier, reads⟩
      · exact .inr ⟨_, _, reads.addNucleus isSegment isVowel (eq_false_of_ne_true isDiphthong)⟩
  · rw [if_neg isVowel]
    have notVowel : ¬VowelAt segments index := (vowelAt_iff isSegment).not.mpr isVowel
    rcases hasRead with leads | ⟨last, earlier, reads⟩
    · exact .inl (leads.addConsonant notVowel)
    · obtain ⟨last, reads⟩ := reads.addConsonant notVowel
      exact .inr ⟨last, earlier, reads⟩

/-- All segments that are left, one after the other. -/
theorem HasRead.addSegments (hasRead : HasRead diphthongs segments index draft)
    (isRest : segments.drop index = rest) (isInside : index ≤ segments.length) :
    HasRead diphthongs segments segments.length (addSegments diphthongs draft index rest) := by
  induction rest generalizing index draft with
  | nil =>
      have isEnd : index = segments.length := by
        have isOver := List.drop_eq_nil_iff.mp isRest
        omega
      rwa [Draft.addSegments, ← isEnd]
  | cons segment rest inductionHypothesis =>
      have isSegment : segments[index]? = some segment := by
        rw [← List.head?_drop, isRest, List.head?_cons]
      have isBehind : segments.drop (index + 1) = rest := by
        rw [← List.tail_drop, isRest, List.tail_cons]
      have isLess : index < segments.length := (List.getElem?_eq_some_iff.mp isSegment).1
      exact inductionHypothesis (hasRead.add isSegment) isBehind isLess

theorem hasRead_addSegments (diphthongs : List Text) (segments : List Segment) :
    HasRead diphthongs segments segments.length (Draft.addSegments diphthongs {} 0 segments) :=
  hasRead_empty.addSegments rfl (Nat.zero_le _)

/-- A draft without a nucleus comes to no syllables. -/
theorem Leads.finish (leads : Leads segments segments.length draft) :
    draft.finish segments.length = [] := by
  simp [Draft.finish, leads.found]

/-- The last syllable goes on to the end of the word. -/
theorem Reads.finish {last : Syllable × Nucleus} {earlier : List (Syllable × Nucleus)}
    (reads : Reads diphthongs segments segments.length draft last earlier) :
    ∃ divided, Divides diphthongs segments divided ∧
      draft.finish segments.length = divided.map Prod.fst := by
  obtain ⟨found, -, -, -, -, hasNucleus, areEarlier, follows, opens⟩ := reads
  have haveNuclei : ∀ entry ∈ (⟨last.1.start, segments.length⟩, last.2) :: earlier,
      HasNucleus diphthongs segments entry.1 entry.2 :=
    List.forall_mem_cons.mpr ⟨hasNucleus, areEarlier⟩
  refine ⟨((⟨last.1.start, segments.length⟩, last.2) :: earlier).reverse, ?_, ?_⟩
  · constructor
    · rw [List.head?_reverse, ← List.getLast?_map]
      exact opens
    · simp
    · intro entry isMember
      have isNucleus := haveNuclei entry (List.mem_reverse.mp isMember)
      have isLong := isNucleus.isNucleus.start_lt_stop
      have opens := isNucleus.opens
      have closes := isNucleus.closes
      omega
    · intro entry isMember
      exact haveNuclei entry (List.mem_reverse.mp isMember)
    · apply List.isChain_reverse.mpr
      exact follows.imp_head fun follows => follows.of_starts rfl rfl
  · simp [Draft.finish, found]

end Draft

theorem ofSegments_eq_nil (noVowel : ∀ segment ∈ segments, segment.isVowel = false) :
    ofSegments diphthongs segments = [] := by
  rcases Draft.hasRead_addSegments diphthongs segments with leads | ⟨last, earlier, reads⟩
  · exact leads.finish
  · obtain ⟨segment, isSegment, isVowel⟩ := reads.hasNucleus.isNucleus.vowelAt_start
    rw [noVowel segment (List.mem_of_getElem? isSegment)] at isVowel
    cases isVowel

theorem exists_divides_ofSegments (someVowel : ∃ segment ∈ segments, segment.isVowel = true) :
    ∃ divided, Divides diphthongs segments divided ∧
      ofSegments diphthongs segments = divided.map Prod.fst := by
  rcases Draft.hasRead_addSegments diphthongs segments with leads | ⟨last, earlier, reads⟩
  · obtain ⟨segment, isMember, isVowel⟩ := someVowel
    obtain ⟨index, isInside, isSegment⟩ := List.mem_iff_getElem.mp isMember
    have isSegment := List.getElem?_eq_some_iff.mpr ⟨isInside, isSegment⟩
    exact absurd ⟨segment, isSegment, isVowel⟩ (leads.noVowel index isInside)
  · exact reads.finish

end Syllable

namespace Segmentation

/-- The syllables of a word with a vowel divide it, and a word without vowels has no syllables. -/
theorem syllables_divide (inventory : Inventory) (text : Text) (stress : Session (Option Int)) :
    let word := ofText inventory text stress
    ((∃ segment ∈ word.segments, segment.isVowel = true) →
      ∃ divided, Syllable.Divides inventory.language.diphthongs word.segments divided ∧
        word.syllables = divided.map Prod.fst) ∧
    ((∀ segment ∈ word.segments, segment.isVowel = false) → word.syllables = []) :=
  ⟨Syllable.exists_divides_ofSegments, Syllable.ofSegments_eq_nil⟩

def threeVowels : Language :=
  { name := "three vowels", shortName := "v", diphthongs := ["ai"]
    phonemes := [{ spelling := "a", tags := ["vowel"] }, { spelling := "i", tags := ["vowel"] },
      { spelling := "u", tags := ["vowel"] }] }

/-- A cluster, a diphthong with a vowel behind it, and a word of consonants. -/
theorem syllables_divide_threeVowels :
    let cluster : Segmentation := ofText (.ofLanguage threeVowels) "strataiantskai" (pure none)
    let consonants : Segmentation := ofText (.ofLanguage threeVowels) "pst" (pure none)
    ((∃ segment ∈ cluster.segments, segment.isVowel = true) ∧
      ∃ divided, Syllable.Divides ["ai"] cluster.segments divided ∧
        divided.map Prod.fst = [⟨0, 4⟩, ⟨4, 7⟩, ⟨7, 9⟩, ⟨9, 14⟩]) ∧
    (∀ segment ∈ consonants.segments, segment.isVowel = false) ∧ consonants.syllables = [] := by
  have someVowel : ((Inventory.ofLanguage threeVowels).segments "strataiantskai").any
      Segment.isVowel = true := by cbv
  have noVowel : ((Inventory.ofLanguage threeVowels).segments "pst").all
      (fun segment => !segment.isVowel) = true := by cbv
  have areSyllables :
      (ofText (.ofLanguage threeVowels) "strataiantskai" (pure none) : Segmentation).syllables =
      [⟨0, 4⟩, ⟨4, 7⟩, ⟨7, 9⟩, ⟨9, 14⟩] := by cbv
  have someVowel := List.any_eq_true.mp someVowel
  have noVowel : ∀ segment ∈ (Inventory.ofLanguage threeVowels).segments "pst",
      segment.isVowel = false := by
    simpa using noVowel
  obtain ⟨divided, divides, isMap⟩ :=
    (syllables_divide (.ofLanguage threeVowels) "strataiantskai" (pure none)).1 someVowel
  exact ⟨⟨someVowel, divided, divides, isMap.symm.trans areSyllables⟩, noVowel,
    (syllables_divide (.ofLanguage threeVowels) "pst" (pure none)).2 noVowel⟩

end Segmentation

end Diachrony
