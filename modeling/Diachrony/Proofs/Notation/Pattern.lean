import Diachrony.Pattern
import Diachrony.Proofs.Text.Blank

/-!
# Sounds, classes and places

What is read of a sound, a class or the n-th sound of a class, and when its printed form
is read as the same again.  An article is the reason why a class is not: the readers
leave out one in front of a class, and a second one is then the beginning of its name.
-/
namespace Diachrony

open Text (after? after?_eq_some after?_append after?_append_lead after?_eq_none before?_eq_some
  startsWith startsWith_eq_false quoteMark quoted trim trim_of_solid squeeze isBlank Tight
  tight_squeeze length_squeeze squeeze_append_blank)

theorem afterArticle?_eq_some {text rest : Text} (behind : afterArticle? text = some rest) :
    ∃ article ∈ (["a", "an"] : List Text), ∃ char tail,
      text = article ++ char :: tail ∧ isBlank char = true ∧ rest = tail.dropWhile isBlank := by
  obtain ⟨article, isArticle, behind⟩ := List.exists_of_findSome?_eq_some behind
  refine ⟨article, isArticle, ?_⟩
  split at behind
  · rename_i char tail isBehind
    split at behind
    · rename_i blank
      cases behind
      exact ⟨char, tail, after?_eq_some.mp isBehind, blank, rfl⟩
    · cases behind
  · cases behind

theorem length_afterArticle? {text rest : Text} (behind : afterArticle? text = some rest) :
    rest.length < text.length := by
  obtain ⟨article, -, char, tail, rfl, -, rfl⟩ := afterArticle?_eq_some behind
  have noLonger := (List.dropWhile_sublist (l := tail) isBlank).length_le
  rw [List.length_append, List.length_cons]
  omega

/-- What is left of a tight text without its article is tight. -/
theorem Text.Tight.dropArticle {text : Text} (tight : Tight text) :
    Tight (Diachrony.dropArticle text) := by
  unfold Diachrony.dropArticle
  cases behind : afterArticle? text with
  | none => exact tight
  | some rest =>
      obtain ⟨article, -, char, tail, rfl, blank, rfl⟩ := afterArticle?_eq_some behind
      have isSpace : char = ' ' := by
        rcases tight.solid_or_space char (by simp) with isSpace | solid
        · exact isSpace
        · rw [blank] at solid
          cases solid
      subst isSpace
      have tailTight := tight.of_append.2
      cases tail with
      | nil => exact absurd rfl tailTight.isSome
      | cons first tail =>
          have solid := tailTight.head_solid
          rw [Option.getD_some, List.dropWhile_cons_of_neg (by simpa using solid)]
          exact tailTight

theorem length_dropArticle_le (text : Text) : (dropArticle text).length ≤ text.length := by
  unfold dropArticle
  cases behind : afterArticle? text with
  | none => exact Nat.le_refl _
  | some rest => exact Nat.le_of_lt (length_afterArticle? behind)

theorem dropArticle_eq_self {text : Text} :
    dropArticle text = text ↔ afterArticle? text = none := by
  unfold dropArticle
  cases behind : afterArticle? text with
  | none => exact ⟨fun _ => rfl, fun _ => rfl⟩
  | some rest =>
      constructor
      · intro same
        have shorter := length_afterArticle? behind
        rw [Option.getD_some] at same
        rw [same] at shorter
        exact absurd shorter (Nat.lt_irrefl _)
      · intro isNone
        cases isNone

theorem unquoted?_eq_some {text content : Text} :
    unquoted? text = some content ↔ text = quoted content ∧ quoteMark ∉ content := by
  unfold unquoted?
  cases text with
  | nil => simp [quoted]
  | cons mark rest =>
      dsimp only
      split
      · rename_i isMark
        subst isMark
        rw [Option.filter_eq_some_iff, before?_eq_some]
        simp [quoted]
      · rename_i notMark
        constructor
        · intro gave
          cases gave
        · rintro ⟨isQuoted, -⟩
          exact absurd (List.cons.inj isQuoted).1 notMark

theorem trim_quoted (content : Text) : trim (quoted content) = quoted content := by
  refine trim_of_solid (fun char isFirst => ?_) fun char isLast => ?_
  · cases isFirst
    decide
  · rw [quoted, List.getLast?_append] at isLast
    cases isLast
    decide

namespace SoundPattern

/-- A pattern as it is read: a literal with something in it, or a class expression whose
words stand with one space between them. -/
inductive IsRead : SoundPattern → Prop
  | literal {content : Text} : content ≠ [] → quoteMark ∉ content →
      IsRead { literal := some content }
  | soundClass {name : Text} : Tight name → quoteMark ∉ name →
      IsRead { soundClass := some name }

theorem isRead_of_read {text : Text} {pattern : SoundPattern} (gave : read text = .ok pattern) :
    pattern.IsRead := by
  unfold read at gave
  dsimp only at gave
  split at gave
  · split at gave
    · rename_i char content isUnquoted
      cases gave
      exact .literal (List.cons_ne_nil _ _) (unquoted?_eq_some.mp isUnquoted).2
    · cases gave
  · split at gave
    · cases gave
    · rename_i isName
      cases gave
      simp only [Bool.or_eq_true, List.isEmpty_iff, List.contains_iff_mem, not_or] at isName
      exact .soundClass (tight_squeeze isName.1) isName.2

/-- A pattern whose class does not begin with an article. -/
def isPlain (pattern : SoundPattern) : Bool := (afterArticle? pattern.print).isNone

/-- The printed form of a pattern that was read is read as that pattern, unless it begins
with an article. -/
theorem read_print_iff {pattern : SoundPattern} (isRead : pattern.IsRead) :
    read pattern.print = .ok pattern ↔ pattern.isPlain = true := by
  unfold isPlain
  rw [Option.isNone_iff_eq_none]
  cases isRead with
  | @literal content isSome isContent =>
      have noArticle : afterArticle? (quoted content) = none := rfl
      obtain ⟨char, content, rfl⟩ := List.exists_cons_of_ne_nil isSome
      have isQuoted := unquoted?_eq_some.mpr ⟨rfl, isContent⟩
      have isHead : (quoted (char :: content)).head? = some quoteMark := rfl
      simp only [print, noArticle, read, trim_quoted, isQuoted, isHead, if_pos]
  | @soundClass name tight isName =>
      have notHead : name.head? ≠ some quoteMark := fun isHead =>
        isName (List.mem_of_mem_head? isHead)
      simp only [print, Option.getD_some, read, tight.trim]
      rw [if_neg notHead, ← dropArticle_eq_self]
      constructor
      · intro gave
        split at gave
        · cases gave
        · simp only [Except.ok.injEq, mk.injEq, Option.some.injEq, true_and] at gave
          have shorter := (length_squeeze (dropArticle name)).1
          rw [gave] at shorter
          rw [dropArticle_eq_self]
          cases behind : afterArticle? name with
          | none => rfl
          | some rest =>
              have noLonger := length_afterArticle? behind
              simp only [dropArticle, behind, Option.getD_some] at shorter
              omega
      · intro same
        rw [same, tight.squeezed, if_neg]
        simpa [List.isEmpty_iff, tight.isSome] using isName

end SoundPattern

namespace Ordinal

theorem nameOf?_number (ordinal : Ordinal) :
    nameOf? (some ordinal.number) = some ordinal.name := by
  cases ordinal <;> rfl

theorem nameOf_number (ordinal : Ordinal) : nameOf (some ordinal.number) = ordinal.name := by
  rw [nameOf, nameOf?_number, Option.getD_some]

theorem number_injective {ordinal other : Ordinal} (same : ordinal.number = other.number) :
    ordinal = other := by
  cases ordinal <;> cases other <;> first | rfl | cases same

theorem tight_name (ordinal : Ordinal) : Tight ordinal.name := by
  cases ordinal <;> exact ⟨by decide, by decide⟩

/-- The ordinal that counts from the end and whose name begins with that of a given one. -/
def fromEnd? : Ordinal → Option Ordinal
  | second => some secondToLast
  | third => some thirdToLast
  | _ => none

/-- The ordinal with whose name that of a given one from the end begins. -/
def fromBeginning? : Ordinal → Option Ordinal
  | secondToLast => some second
  | thirdToLast => some third
  | _ => none

theorem after?_name (lead ordinal : Ordinal) (text : Text) :
    after? (lead.name ++ [' ']) (ordinal.name ++ ' ' :: text) =
      if lead = ordinal then some text
      else if ordinal.fromEnd? = some lead then after? "to last " text
      else if ordinal.fromBeginning? = some lead then some ("to last " ++ text)
      else none := by
  rw [List.append_cons ordinal.name ' ' text]
  by_cases isSame : lead = ordinal
  · rw [if_pos isSame, isSame, after?_append]
  · rw [if_neg isSame]
    cases ordinal <;> cases lead <;>
      first
      | exact absurd rfl isSame
      | exact after?_eq_none (by decide) text
      | exact after?_append_lead _ "to last " _
      | rfl

/-- The ways of reading an ordinal off a text that begins with one: as one that counts
from the end if the text goes on so, then as that one, and at last as the beginning of
one that counts from the end. -/
theorem leads_append (ordinal : Ordinal) (text : Text) :
    leads (ordinal.name ++ ' ' :: text) =
      (ordinal.fromEnd?.bind fun longer =>
        (after? "to last " text).map fun rest => (longer, rest)).toList ++
          (ordinal, text) ::
            (ordinal.fromBeginning?.map fun shorter => (shorter, "to last " ++ text)).toList := by
  unfold leads longestFirst
  simp only [List.filterMap_cons, List.filterMap_nil, after?_name]
  generalize after? "to last " text = behind
  cases ordinal <;> cases behind <;> rfl

/-- The ways of reading an ordinal off a text in which nothing makes a longer one of it. -/
theorem leads_of_whole (ordinal : Ordinal) {text : Text}
    (isWhole : after? "to last " text = none) :
    leads (ordinal.name ++ ' ' :: text) =
      (ordinal, text) ::
        (ordinal.fromBeginning?.map fun shorter => (shorter, "to last " ++ text)).toList := by
  rw [leads_append, isWhole]
  cases ordinal <;> rfl

end Ordinal

namespace SeekTarget

def className (target : SeekTarget) : Text := target.soundClass.getD anySound

/-- A target as it is read: it has an ordinal, and a class expression whose words stand
with one space between them. -/
structure IsRead (target : SeekTarget) : Prop where
  ordinal : ∃ ordinal : Ordinal, target.ordinal = ordinal.number
  tight : Tight target.className
  notAny : target.soundClass ≠ some anySound

theorem IsRead.named {target : SeekTarget} (isRead : target.IsRead) :
    (Ordinal.nameOf? (some target.ordinal)).isSome = true := by
  obtain ⟨ordinal, isOrdinal⟩ := isRead.ordinal
  rw [isOrdinal, Ordinal.nameOf?_number]
  rfl

theorem isRead_of_read {text : Text} {target : SeekTarget} (gave : read text = .ok target) :
    target.IsRead := by
  unfold read at gave
  dsimp only at gave
  split at gave
  · cases gave
  · rename_i ordinal name isFound
    cases gave
    have isLead := List.mem_of_find?_eq_some isFound
    have isSome := List.find?_some isFound
    obtain ⟨lead, -, isLead⟩ := List.mem_filterMap.mp isLead
    obtain ⟨rest, behind, same⟩ := Option.map_eq_some_iff.mp isLead
    obtain ⟨isOrdinal, isName⟩ := Prod.mk.inj same
    rw [isOrdinal, isName] at behind
    have isText := after?_eq_some.mp behind
    rw [List.append_assoc, List.singleton_append] at isText
    have tightText : Tight (ordinal.name ++ ' ' :: name) :=
      isText ▸ tight_squeeze (by simp [isText])
    have tight := tightText.of_append.2.dropArticle
    refine ⟨⟨ordinal, rfl⟩, ?_, ?_⟩
    · unfold className
      dsimp only
      split
      · exact Text.tight_of_solid (by decide) (by decide)
      · exact tight
    · dsimp only
      split
      · exact fun isAny => nomatch isAny
      · rename_i notAny
        exact fun isAny => notAny (Option.some.inj isAny)

theorem print_eq {target : SeekTarget} (isRead : target.IsRead) {ordinal : Ordinal}
    (isOrdinal : target.ordinal = ordinal.number) :
    target.print = ordinal.name ++ ' ' :: target.className := by
  have isSome := isRead.tight.isSome
  unfold print className at *
  rw [isOrdinal, Ordinal.nameOf_number]
  cases isClass : target.soundClass with
  | none => rfl
  | some name =>
      rw [isClass] at isSome
      obtain ⟨char, name, rfl⟩ := List.exists_cons_of_ne_nil isSome
      rfl

/-- A target whose class begins neither with an article nor with what makes another
ordinal of the one in front of it. -/
def isPlain (target : SeekTarget) : Bool :=
  (afterArticle? target.className).isNone &&
    !((target.ordinal == 2 || target.ordinal == 3) &&
      startsWith "to last " target.className)

theorem className_eq_anySound {target : SeekTarget} (notAny : target.soundClass ≠ some anySound) :
    target.className = anySound ↔ target.soundClass = none := by
  unfold className
  cases isClass : target.soundClass with
  | none => exact ⟨fun _ => rfl, fun _ => rfl⟩
  | some name =>
      rw [isClass] at notAny
      constructor
      · intro isAny
        exact absurd (congrArg some isAny) notAny
      · intro isNone
        cases isNone

def classRead (name : Text) : Option Text :=
  if dropArticle name = anySound then none else some (dropArticle name)

/-- The class of a target is read as it is, unless it begins with an article. -/
theorem classRead_className {target : SeekTarget} (notAny : target.soundClass ≠ some anySound) :
    classRead target.className = target.soundClass ↔
      afterArticle? target.className = none := by
  rw [← dropArticle_eq_self]
  unfold classRead
  cases isClass : target.soundClass with
  | none =>
      have isAny := (className_eq_anySound notAny).mpr isClass
      rw [isAny]
      exact ⟨fun _ => rfl, fun _ => rfl⟩
  | some name =>
      have isName : target.className = name := by rw [className, isClass, Option.getD_some]
      rw [isClass] at notAny
      rw [isName]
      constructor
      · intro same
        split at same
        · cases same
        · exact Option.some.inj same
      · intro same
        rw [same, if_neg]
        exact fun isAny => notAny (congrArg some isAny)

theorem className_classRead (number : Int) (name : Text) :
    className ⟨number, classRead name⟩ = dropArticle name := by
  unfold className classRead
  dsimp only
  split
  · rename_i isAny
    exact isAny.symm
  · rfl

/-- What is read of an ordinal and the name of a class: the class at the place of that
ordinal, or at that of a longer one that the name goes on with. -/
theorem read_append (ordinal : Ordinal) {name : Text} (isSome : squeeze name ≠ []) :
    read (ordinal.name ++ ' ' :: name) =
      match ordinal.fromEnd?.bind fun longer =>
        (after? "to last " (squeeze name)).map fun rest => (longer, rest) with
      | some (longer, rest) => .ok ⟨longer.number, classRead rest⟩
      | none => .ok ⟨ordinal.number, classRead (squeeze name)⟩ := by
  have ordinalTight := ordinal.tight_name
  have ordinalSome : squeeze ordinal.name ≠ [] := ordinalTight.squeezed.symm ▸ ordinalTight.isSome
  have nameTight := tight_squeeze isSome
  unfold read
  rw [squeeze_append_blank ordinalSome isSome, ordinalTight.squeezed]
  dsimp only
  rw [Ordinal.leads_append]
  cases isLonger : ordinal.fromEnd?.bind fun longer =>
      (after? "to last " (squeeze name)).map fun rest => (longer, rest) with
  | none =>
      have nameSome : (!(squeeze name).isEmpty) = true := by
        simpa [List.isEmpty_iff] using isSome
      rw [Option.toList_none, List.nil_append, List.find?_cons, nameSome]
      rfl
  | some stolen =>
      obtain ⟨longer, -, isStolen⟩ := Option.bind_eq_some_iff.mp isLonger
      obtain ⟨rest, behind, rfl⟩ := Option.map_eq_some_iff.mp isStolen
      have restSome : (!rest.isEmpty) = true := by
        rw [after?_eq_some.mp behind] at nameTight
        have parts : Tight ("to last".toList ++ ' ' :: rest) := nameTight
        simpa [List.isEmpty_iff] using parts.of_append.2.isSome
      rw [Option.toList_some, List.singleton_append, List.find?_cons, restSome]
      rfl

/-- No class that is read is longer than what stood behind the ordinal. -/
theorem length_className_le (ordinal : Ordinal) {name : Text} (isSome : squeeze name ≠ [])
    {target : SeekTarget} (gave : read (ordinal.name ++ ' ' :: name) = .ok target) :
    target.className.length ≤ name.length := by
  have noLonger := (length_squeeze name).1
  rw [read_append ordinal isSome] at gave
  split at gave
  · rename_i longer rest isLonger
    cases gave
    obtain ⟨found, -, isStolen⟩ := Option.bind_eq_some_iff.mp isLonger
    obtain ⟨left, behind, same⟩ := Option.map_eq_some_iff.mp isStolen
    obtain ⟨-, rfl⟩ := Prod.mk.inj same
    have isName := congrArg List.length (after?_eq_some.mp behind)
    have shorter := length_dropArticle_le left
    rw [List.length_append] at isName
    rw [className_classRead]
    omega
  · cases gave
    have shorter := length_dropArticle_le (squeeze name)
    rw [className_classRead]
    omega

/-- The printed form of a target that was read is read as that target, if and only if it
is plain. -/
theorem read_print_iff {target : SeekTarget} (isRead : target.IsRead) :
    read target.print = .ok target ↔ target.isPlain = true := by
  obtain ⟨ordinal, isOrdinal⟩ := isRead.ordinal
  have tight := isRead.tight
  rw [print_eq isRead isOrdinal, read_append ordinal (tight.squeezed.symm ▸ tight.isSome),
    tight.squeezed]
  cases isLonger : ordinal.fromEnd?.bind fun longer =>
      (after? "to last " target.className).map fun rest => (longer, rest) with
  | none =>
      have notStolen : ((target.ordinal == 2 || target.ordinal == 3) &&
          startsWith "to last " target.className) = false := by
        rw [isOrdinal]
        cases ordinal <;>
          first | rfl | exact startsWith_eq_false.mpr (by simpa [Ordinal.fromEnd?] using isLonger)
      dsimp only
      rw [isPlain, notStolen, Bool.not_false, Bool.and_true, Option.isNone_iff_eq_none,
        ← classRead_className isRead.notAny, Except.ok.injEq]
      constructor
      · intro same
        exact congrArg SeekTarget.soundClass same
      · intro same
        rw [same, ← isOrdinal]
  | some stolen =>
      obtain ⟨longer, isFromEnd, isStolen⟩ := Option.bind_eq_some_iff.mp isLonger
      obtain ⟨rest, behind, rfl⟩ := Option.map_eq_some_iff.mp isStolen
      dsimp only
      constructor
      · intro same
        have isNumber := congrArg SeekTarget.ordinal (Except.ok.inj same)
        rw [isOrdinal] at isNumber
        rw [Ordinal.number_injective isNumber] at isFromEnd
        cases ordinal <;> cases isFromEnd
      · intro plain
        have stolen : startsWith "to last " target.className = true := by
          rw [Text.startsWith, behind]
          rfl
        have isEarly : (target.ordinal == 2 || target.ordinal == 3) = true := by
          rw [isOrdinal]
          cases ordinal <;> first | rfl | cases isFromEnd
        rw [isPlain, stolen, isEarly, Bool.and_self, Bool.not_true, Bool.and_false] at plain
        cases plain

end SeekTarget

end Diachrony
