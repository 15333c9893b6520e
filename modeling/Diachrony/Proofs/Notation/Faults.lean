import Diachrony.Error
import Diachrony.Instruction
import Diachrony.Proofs.Notation.ConditionRoundTrip
import Diachrony.Proofs.Notation.PrintedForm

/-!
# Which faults are found in a line

Almost every fault is one of the notation, and an error about it is recorded like any other
error in a rule.  There are two exceptions.  One of them, an ordinal that does not stand alone,
needs a line feed and so is never found within a line.  The other one is: a number that counts
syllables with more digits than are read.

So what is wrong with an instruction is always a fault of the notation, and what is wrong with a
condition is one as well, unless some words of it, one behind the other, count the syllables so.
-/
namespace Diachrony

open Text (after? joinWith isLineBreak isLineEnd trim digitValue? quoteMark)

def ReadingFault.isOfNotation : ReadingFault → Bool
  | ordinalNotAlone _ | numberTooLong _ => false
  | _ => true

/-- The errors that are recorded are those about a fault of the notation. -/
theorem Error.isRecordable_inRule (fault : ReadingFault) (rule : Data) (line : Option Nat) :
    (Error.inRule fault rule line).isRecordable = fault.isOfNotation := by
  cases fault <;> rfl

/-- The codes of the errors about a fault of the notation. -/
theorem Error.code?_inRule {fault : ReadingFault} (isOfNotation : fault.isOfNotation = true)
    (rule : Data) (line : Option Nat) :
    (Error.inRule fault rule line).code? = some ("rule_parse_failed" : Text) ∨
      (Error.inRule fault rule line).code? = some ("unresolved_rule" : Text) := by
  cases fault with
  | noSuchRule name => exact .inr rfl
  | ordinalNotAlone found => cases isOfNotation
  | numberTooLong digits => cases isOfNotation
  | _ => exact .inl rfl

section

variable {α β : Type}

/-- What is read is right, or wrong by a fault of the notation. -/
def Complains (result : Except ReadingFault α) : Prop :=
  ∀ fault, result = .error fault → fault.isOfNotation = true

@[simp] theorem complains_ok (value : α) : Complains (.ok value) := by
  simp [Complains]

@[simp] theorem complains_pure (value : α) :
    Complains (pure value : Except ReadingFault α) :=
  complains_ok value

@[simp] theorem complains_error {fault : ReadingFault} :
    Complains (.error fault : Except ReadingFault α) ↔ fault.isOfNotation = true := by
  simp [Complains]

theorem complains_bind {result : Except ReadingFault α} {next : α → Except ReadingFault β}
    (first : Complains result) (second : ∀ value, Complains (next value)) :
    Complains (result >>= next) := by
  intro fault failed
  rcases Except.bind_eq_error.mp failed with failed | ⟨value, -, failed⟩
  · exact first fault failed
  · exact second value fault failed

theorem complains_map {result : Except ReadingFault α} (change : α → β)
    (complains : Complains result) : Complains (result.map change) := by
  cases result with
  | ok value => exact complains_ok _
  | error fault => exact complains_error.mpr (complains fault rfl)

/-- Whatever a form makes of a line that is of this form, it complains of nothing but faults of
the notation. -/
def FormComplains (form : Text → Option (Except ReadingFault α)) : Prop :=
  ∀ text result, form text = some result → Complains result

/-- What the first form that fits makes of a line, or the complaint that none does. -/
theorem complains_firstForm {forms : List (Text → Option (Except ReadingFault α))}
    (complain : ∀ form ∈ forms, FormComplains form) {fault : ReadingFault}
    (isOfNotation : fault.isOfNotation = true) (text : Text) :
    Complains ((forms.findSome? fun form => form text).getD (.error fault)) := by
  cases isFound : forms.findSome? fun form => form text with
  | none => simpa using isOfNotation
  | some result =>
      obtain ⟨form, isForm, isResult⟩ := List.exists_of_findSome?_eq_some isFound
      exact complain form isForm text result isResult

end

theorem complains_readLiteral (text : Text) : Complains (readLiteral text) := by
  unfold readLiteral
  split <;> simp [ReadingFault.isOfNotation]

theorem SoundPattern.complains_read (text : Text) : Complains (read text) := by
  unfold read
  dsimp only
  split
  · split <;> simp [ReadingFault.isOfNotation]
  · split <;> simp [ReadingFault.isOfNotation]

theorem SeekTarget.complains_read (text : Text) : Complains (read text) := by
  unfold read
  dsimp only
  split <;> simp [ReadingFault.isOfNotation]

namespace Slot

theorem complains_readFeatures (content : Text) : Complains (readFeatures content) := by
  unfold readFeatures
  dsimp only
  split <;> simp [ReadingFault.isOfNotation]

theorem complains_readBehind (content? : Option Text) (run text : Text) :
    Complains (readBehind content? run text) := by
  induction text generalizing content? run with
  | nil => cases content? <;> simp [readBehind, ReadingFault.isOfNotation]
  | cons char text inductionHypothesis =>
      have behind (slot : Slot) : Complains (do
          return closeRun run (slot :: (← readBehind none [] text))) :=
        complains_bind (inductionHypothesis none []) fun _ => complains_ok _
      cases content? with
      | some content =>
          unfold readBehind
          split
          · exact complains_bind (complains_readFeatures content) behind
          · exact inductionHypothesis _ _
      | none =>
          unfold readBehind
          split
          · exact inductionHypothesis _ _
          · split
            · exact behind edge
            · split
              · exact behind _
              · split
                · simp [ReadingFault.isOfNotation]
                · exact inductionHypothesis _ _

theorem complains_readAll (text : Text) : Complains (readAll text) := by
  unfold readAll
  dsimp only
  split
  · simp
  · exact complains_readBehind _ _ _

end Slot

namespace SoundChange

theorem complains_readContext (text : Text) : Complains (readContext text) := by
  unfold readContext
  split
  · simp
  · exact Slot.complains_readAll text

theorem complains_cutContext (text : Text) : Complains (cutContext text) := by
  unfold cutContext
  split
  · simp
  · split <;> simp [ReadingFault.isOfNotation]

theorem complains_checkSounds (before after : List Slot) :
    Complains (checkSounds before after) := by
  unfold checkSounds
  split
  · simp [ReadingFault.isOfNotation]
  · split
    · simp [ReadingFault.isOfNotation]
    · split <;> simp [ReadingFault.isOfNotation]

theorem complains_read (text : Text) : Complains (read text) := by
  unfold read
  split
  · simp [ReadingFault.isOfNotation]
  · apply complains_bind (complains_cutContext _)
    intro cut
    apply complains_bind (Slot.complains_readAll _)
    intro before
    apply complains_bind (Slot.complains_readAll _)
    intro after
    apply complains_bind (complains_readContext _)
    intro preceding
    apply complains_bind (complains_readContext _)
    intro following
    apply complains_bind (complains_checkSounds before after)
    simp

end SoundChange

namespace Instruction

theorem complains_resolve (resolver : Resolver) (name : Text) :
    Complains (resolve resolver name) := by
  unfold resolve
  split <;> simp [ReadingFault.isOfNotation]

theorem complains_readCategories (text : Text) : Complains (readCategories text) := by
  unfold readCategories
  dsimp only
  split <;> simp [ReadingFault.isOfNotation]

theorem formComplains_readPhrase : FormComplains readPhrase := by
  intro text result gave
  obtain ⟨kind, -, rfl⟩ := Option.map_eq_some_iff.mp gave
  simp

theorem formComplains_readWithLiteral (verb : Text) (kind : InstructionKind) :
    FormComplains (readWithLiteral verb kind) := by
  intro text result gave
  obtain ⟨rest, -, gave⟩ := Option.bind_eq_some_iff.mp gave
  cases gave
  exact complains_map _ (complains_readLiteral rest)

theorem formComplains_readAttach (side : Side) (verb : Text) :
    FormComplains (readAttach side verb) := by
  intro text result gave
  obtain ⟨rest, -, gave⟩ := Option.bind_eq_some_iff.mp gave
  split at gave
  · cases gave
    exact complains_map _ (complains_readLiteral rest)
  · cases gave
    exact complains_map _ (SeekTarget.complains_read rest)

theorem formComplains_readInsert : FormComplains readInsert := by
  intro text result gave
  obtain ⟨⟨content, rest⟩, -, gave⟩ := Option.bind_eq_some_iff.mp gave
  obtain ⟨side, -, gave⟩ := List.exists_of_findSome?_eq_some gave
  obtain ⟨place, -, gave⟩ := Option.bind_eq_some_iff.mp gave
  split at gave
  · cases gave
  · cases gave
    exact complains_map _ (SeekTarget.complains_read place)

theorem formComplains_readStress : FormComplains readStress := by
  intro text result gave
  obtain ⟨rest, -, gave⟩ := Option.bind_eq_some_iff.mp gave
  obtain ⟨ordinal, -, gave⟩ := Option.bind_eq_some_iff.mp gave
  cases gave
  simp

theorem formComplains_readMarkClass : FormComplains readMarkClass := by
  intro text result gave
  obtain ⟨name, -, gave⟩ := Option.bind_eq_some_iff.mp gave
  split at gave
  · cases gave
    simp [ReadingFault.isOfNotation]
  · cases gave
    simp

theorem formComplains_readWithCategories (verb : Text) (kind : InstructionKind) :
    FormComplains (readWithCategories verb kind) := by
  intro text result gave
  obtain ⟨rest, -, gave⟩ := Option.bind_eq_some_iff.mp gave
  cases gave
  exact complains_map _ (complains_readCategories rest)

theorem formComplains_readApplySoundRule (resolver : Resolver) :
    FormComplains (readApplySoundRule resolver) := by
  intro text result gave
  obtain ⟨⟨name, rest⟩, -, gave⟩ := Option.bind_eq_some_iff.mp gave
  obtain ⟨place, -, gave⟩ := Option.bind_eq_some_iff.mp gave
  split at gave
  · cases gave
  · cases gave
    apply complains_bind (complains_resolve resolver name)
    intro rule
    apply complains_bind (SeekTarget.complains_read place)
    simp

theorem formComplains_readApplyRule (resolver : Resolver) :
    FormComplains (readApplyRule resolver) := by
  intro text result gave
  obtain ⟨rest, -, gave⟩ := Option.bind_eq_some_iff.mp gave
  cases gave
  apply complains_bind (complains_readLiteral rest)
  intro name
  apply complains_bind (complains_resolve resolver name)
  simp

theorem formComplains_readSoundChange : FormComplains readSoundChange := by
  intro text result gave
  unfold readSoundChange at gave
  split at gave
  · cases gave
    exact complains_map _ (SoundChange.complains_read text)
  · cases gave

theorem formComplains_readChangeClass : FormComplains readChangeClass := by
  intro text result gave
  unfold readChangeClass at gave
  split at gave
  · cases gave
  · obtain ⟨cut, -, rfl⟩ := Option.map_eq_some_iff.mp gave
    simp

theorem formComplains_of_mem (resolver : Resolver) :
    ∀ form ∈ forms resolver, FormComplains form := by
  simp only [forms, List.forall_mem_cons, List.not_mem_nil, false_implies, implies_true,
    and_true]
  exact ⟨formComplains_readPhrase, formComplains_readWithLiteral _ _,
    formComplains_readWithLiteral _ _, formComplains_readAttach _ _,
    formComplains_readAttach _ _, formComplains_readInsert, formComplains_readStress,
    formComplains_readMarkClass, formComplains_readWithCategories _ _,
    formComplains_readWithCategories _ _, formComplains_readApplySoundRule _,
    formComplains_readApplyRule _, formComplains_readSoundChange, formComplains_readChangeClass⟩

/-- What is wrong with an instruction is a fault of the notation. -/
theorem complains_read (resolver : Resolver) (text : Text) : Complains (read resolver text) :=
  complains_firstForm (formComplains_of_mem resolver) rfl _

end Instruction

namespace Predicate

theorem complains_withPattern (predicate : Predicate) (text : Text) :
    Complains (withPattern predicate text) := by
  apply complains_bind (SoundPattern.complains_read text)
  simp

theorem formComplains_readSound : FormComplains readSound := by
  intro text result gave
  obtain ⟨place, -, gave⟩ := List.exists_of_findSome?_eq_some gave
  obtain ⟨⟨negated, line⟩, -, gave⟩ := Option.bind_eq_some_iff.mp gave
  cases gave
  exact complains_withPattern _ line

theorem formComplains_readAtEdge : FormComplains readAtEdge := by
  intro text result gave
  obtain ⟨negated, -, gave⟩ := List.exists_of_findSome?_eq_some gave
  obtain ⟨edge, -, gave⟩ := List.exists_of_findSome?_eq_some gave
  obtain ⟨rest, -, gave⟩ := Option.bind_eq_some_iff.mp gave
  split at gave
  · cases gave
    simp
  · cases gave

theorem formComplains_readInStressedSyllable : FormComplains readInStressedSyllable := by
  intro text result gave
  obtain ⟨negated, -, gave⟩ := List.exists_of_findSome?_eq_some gave
  obtain ⟨rest, -, gave⟩ := Option.bind_eq_some_iff.mp gave
  split at gave
  · cases gave
    simp
  · cases gave

theorem formComplains_readWordEdge : FormComplains readWordEdge := by
  intro text result gave
  obtain ⟨edge, -, gave⟩ := List.exists_of_findSome?_eq_some gave
  obtain ⟨⟨negated, line⟩, -, gave⟩ := Option.bind_eq_some_iff.mp gave
  cases gave
  exact complains_withPattern _ line

theorem formComplains_readWordClass : FormComplains readWordClass := by
  intro text result gave
  obtain ⟨⟨negated, line⟩, -, gave⟩ := Option.bind_eq_some_iff.mp gave
  dsimp only at gave
  split at gave
  · cases gave
    simp [ReadingFault.isOfNotation]
  · cases gave
    simp

theorem formComplains_readSyllable : FormComplains readSyllable := by
  intro text result gave
  obtain ⟨⟨ordinal, rest⟩, -, gave⟩ := List.exists_of_findSome?_eq_some gave
  obtain ⟨part, -, gave⟩ := List.exists_of_findSome?_eq_some gave
  obtain ⟨line, -, gave⟩ := Option.bind_eq_some_iff.mp gave
  cases gave
  exact complains_withPattern _ line

theorem formComplains_readSeek : FormComplains readSeek := by
  intro text result gave
  obtain ⟨⟨ordinal, rest⟩, -, gave⟩ := List.exists_of_findSome?_eq_some gave
  obtain ⟨⟨name, negated, line⟩, -, gave⟩ := Option.bind_eq_some_iff.mp gave
  cases gave
  apply complains_bind (SeekTarget.complains_read _)
  intro target
  exact complains_withPattern _ line

/-- A text counts syllables up to a number with more digits than are read. -/
def CountsTooFar (text : Text) : Prop :=
  ∃ (comparison : Comparison) (digits : Text), text = comparison.lead ++ digits ∧
    (∀ char ∈ digits, (digitValue? char).isSome = true) ∧ Text.digitLimit < digits.length

section

variable {text : Text} (oneLine : '\n' ∉ text)

include oneLine

theorem eq_nil_of_isLineEnd {front rest : Text} (isText : text = front ++ rest)
    (isEnd : isLineEnd rest = true) : rest = [] := by
  have notBreak : rest ≠ ['\n'] := by
    rintro rfl
    simp [isText] at oneLine
  simpa [isLineEnd, notBreak] using isEnd

/-- Within a line, an ordinal of the stress always stands alone. -/
theorem complains_readStressOn {result : Except ReadingFault Predicate}
    (gave : readStressOn text = some result) : Complains result := by
  obtain ⟨rest, behind, gave⟩ := Option.bind_eq_some_iff.mp gave
  obtain ⟨ordinal, -, gave⟩ := List.exists_of_findSome?_eq_some gave
  obtain ⟨tail, behindOrdinal, gave⟩ := Option.bind_eq_some_iff.mp gave
  split at gave
  · cases gave
    simp
  · rename_i isSome
    split at gave
    · rename_i isEnd
      have isText := Text.after?_eq_some.mp behind
      rw [Text.after?_eq_some.mp behindOrdinal, ← List.append_assoc] at isText
      simp [eq_nil_of_isLineEnd oneLine isText isEnd] at isSome
    · cases gave

/-- Within a line, a number of syllables is read unless it has too many digits. -/
theorem complains_readSyllableCount {result : Except ReadingFault Predicate}
    (gave : readSyllableCount text = some result) (near : ¬CountsTooFar text) :
    Complains result := by
  obtain ⟨comparison, -, gave⟩ := List.exists_of_findSome?_eq_some gave
  obtain ⟨rest, behind, gave⟩ := Option.bind_eq_some_iff.mp gave
  dsimp only at gave
  split at gave
  · cases gave
  · rename_i isNumber
    split at gave
    · cases gave
      simp
    · rename_i isNone
      simp only [Bool.or_eq_true, not_or, Bool.not_eq_true', Bool.not_eq_false] at isNumber
      have areDecimal : ∀ char ∈ rest.takeWhile fun char => (digitValue? char).isSome,
          (digitValue? char).isSome = true := fun char => List.mem_takeWhile_imp
      have isRest := List.takeWhile_append_dropWhile
        (p := fun char => (digitValue? char).isSome) (l := rest)
      have isText := Text.after?_eq_some.mp behind
      rw [← isRest, ← List.append_assoc] at isText
      have isAll := eq_nil_of_isLineEnd oneLine isText isNumber.2
      rw [isAll, List.append_nil] at isText
      have isSome : (rest.takeWhile fun char => (digitValue? char).isSome) ≠ [] := by
        simpa [List.isEmpty_iff] using isNumber.1
      have isLong := (Text.toNat?_eq_none_iff isSome areDecimal).mp isNone
      exact absurd ⟨comparison, _, isText, areDecimal, isLong⟩ near

/-- What is wrong with a predicate within a line is a fault of the notation, unless it counts too
far. -/
theorem complains_read (near : ¬CountsTooFar text) : Complains (read text) := by
  unfold read
  split
  · simp
  · cases isFound : forms.findSome? fun form => form text with
    | none => simp [ReadingFault.isOfNotation]
    | some result =>
        obtain ⟨form, isForm, gave⟩ := List.exists_of_findSome?_eq_some isFound
        simp only [forms, List.mem_cons, List.not_mem_nil, or_false] at isForm
        rcases isForm with rfl | rfl | rfl | rfl | rfl | rfl | rfl | rfl | rfl
        · exact formComplains_readSound text result gave
        · exact formComplains_readAtEdge text result gave
        · exact formComplains_readInStressedSyllable text result gave
        · exact formComplains_readWordEdge text result gave
        · exact complains_readSyllableCount oneLine gave near
        · exact formComplains_readWordClass text result gave
        · exact complains_readStressOn oneLine gave
        · exact formComplains_readSyllable text result gave
        · exact formComplains_readSeek text result gave

end

/-- What counts too far is refused, and not by a fault of the notation. -/
theorem read_of_countsTooFar {text : Text} (far : CountsTooFar text) :
    ∃ digits, read text = .error (.numberTooLong digits) := by
  obtain ⟨comparison, digits, rfl, areDecimal, isLong⟩ := far
  have isSome : digits ≠ [] := List.ne_nil_of_length_pos (Nat.zero_lt_of_lt isLong)
  have isNone := (Text.toNat?_eq_none_iff isSome areDecimal).mpr isLong
  exact ⟨digits.length, by rw [read_count_lead areDecimal isSome, countOf, isNone]⟩

theorem countsTooFar_ofNat (comparison : Comparison) {number : Nat}
    (isFar : 10 ^ Text.digitLimit ≤ number) :
    CountsTooFar (comparison.lead ++ Text.ofNat number) := by
  refine ⟨comparison, _, rfl, fun _ => Text.isDecimal_of_mem_ofNat, ?_⟩
  exact Nat.lt_of_not_le fun fits => Nat.not_lt.mpr isFar (Text.length_ofNat_le_iff.mp fits)

end Predicate

namespace Condition

/-- Where what is read of tokens goes wrong, the fault is one of the notation, or that of a
predicate made of words that stand one behind the other. -/
def Blames (tokens : List Text) (fault : ReadingFault) : Prop :=
  fault.isOfNotation = true ∨ ∃ words, words <:+: tokens ∧
    (∀ word ∈ words, isWord word = true) ∧ words ≠ [] ∧
    Predicate.read (joinWith " " words) = .error fault

/-- What is read from tokens leaves some of them behind, or goes wrong in one of them. -/
structure Consumes {α : Type} (tokens : List Text)
    (result : Except ReadingFault (α × List Text)) : Prop where
  leaves : ∀ found rest, result = .ok (found, rest) → rest <:+ tokens
  blames : ∀ fault, result = .error fault → Blames tokens fault

section

variable {α β : Type} {tokens rest : List Text}

theorem consumes_pure (found : α) (isRest : rest <:+ tokens) :
    Consumes tokens (pure (found, rest)) where
  leaves := by
    rintro _ _ ⟨⟩
    exact isRest
  blames := by
    intro fault failed
    cases failed

theorem consumes_error {fault : ReadingFault} (isOfNotation : fault.isOfNotation = true) :
    Consumes tokens (.error fault : Except ReadingFault (α × List Text)) where
  leaves := by
    intro found rest gave
    cases gave
  blames := by
    rintro _ ⟨⟩
    exact .inl isOfNotation

theorem Blames.mono {fault : ReadingFault} (blames : Blames rest fault) (isRest : rest <:+ tokens) :
    Blames tokens fault := by
  rcases blames with isOfNotation | ⟨words, stand, areWords, isSome, failed⟩
  · exact .inl isOfNotation
  · exact .inr ⟨words, stand.trans isRest.isInfix, areWords, isSome, failed⟩

theorem Consumes.mono {result : Except ReadingFault (α × List Text)}
    (consumes : Consumes rest result) (isRest : rest <:+ tokens) : Consumes tokens result where
  leaves found behind gave := (consumes.leaves found behind gave).trans isRest
  blames fault failed := (consumes.blames fault failed).mono isRest

/-- One reader after the other: the second one goes on from what the first one leaves. -/
theorem consumes_bind {first : Except ReadingFault (α × List Text)}
    {next : α × List Text → Except ReadingFault (β × List Text)}
    (consumes : Consumes tokens first)
    (further : ∀ found rest, Consumes rest (next (found, rest))) :
    Consumes tokens (first >>= next) := by
  cases isFirst : first with
  | error fault =>
      constructor
      · intro found rest gave
        cases gave
      · rintro _ ⟨⟩
        exact consumes.blames fault isFirst
  | ok given =>
      obtain ⟨found, rest⟩ := given
      exact (further found rest).mono (consumes.leaves found rest isFirst)

/-- A first condition, and the others if the word that joins them stands behind it. -/
theorem consumes_joined {separator : Text} {first : Condition}
    {further : List Text → Except ReadingFault (List Condition × List Text)}
    (consumes : ∀ tokens, Consumes tokens (further tokens)) (left : List Text) :
    Consumes left (match left with
      | [] => return ([first], [])
      | token :: left =>
          if token = separator then do
            let (others, rest) ← further left
            return (first :: others, rest)
          else return ([first], token :: left)) := by
  cases left with
  | nil => exact consumes_pure _ List.suffix_rfl
  | cons token behind =>
      by_cases isJoined : token = separator
      · simp only [if_pos isJoined]
        apply consumes_bind ((consumes behind).mono (List.suffix_cons token behind))
        intro others rest
        exact consumes_pure _ List.suffix_rfl
      · simp only [if_neg isJoined]
        exact consumes_pure _ List.suffix_rfl

/-- What each of the readers leaves and blames, whatever the bound on their calls. -/
theorem consumes_readTokens (calls : Nat) :
    (∀ tokens, Consumes tokens (readAlternatives calls tokens)) ∧
      (∀ tokens, Consumes tokens (readFactors calls tokens)) ∧
      ∀ tokens, Consumes tokens (readAtom calls tokens) := by
  induction calls with
  | zero => exact ⟨fun _ => consumes_error rfl, fun _ => consumes_error rfl,
      fun _ => consumes_error rfl⟩
  | succ calls inductionHypothesis =>
      obtain ⟨ofAlternatives, ofFactors, ofAtom⟩ := inductionHypothesis
      refine ⟨?_, ?_, ?_⟩
      · intro tokens
        rw [readAlternatives]
        exact consumes_bind (ofFactors tokens) fun _ => consumes_joined ofAlternatives
      · intro tokens
        rw [readFactors]
        exact consumes_bind (ofAtom tokens) fun _ => consumes_joined ofFactors
      · intro tokens
        rw [readAtom]
        by_cases isBracket : tokens.head? = some "(".toList
        · rw [if_pos isBracket]
          apply consumes_bind ((ofAlternatives tokens.tail).mono (List.tail_suffix tokens))
          intro members rest
          by_cases isClosed : rest.head? = some ")".toList
          · simp only [if_pos isClosed]
            exact consumes_pure _ (List.tail_suffix rest)
          · simp only [if_neg isClosed]
            exact consumes_error rfl
        · rw [if_neg isBracket]
          dsimp only
          by_cases isNone : (tokens.takeWhile isWord).isEmpty = true
          · rw [if_pos isNone]
            exact consumes_error rfl
          · rw [if_neg isNone]
            constructor
            · intro member rest gave
              obtain ⟨predicate, -, ⟨⟩⟩ := Except.bind_eq_ok.mp gave
              exact List.dropWhile_suffix isWord
            · intro fault failed
              rcases Except.bind_eq_error.mp failed with failed | ⟨predicate, -, failed⟩
              · exact .inr ⟨_, (List.takeWhile_prefix isWord).isInfix,
                  fun word => List.mem_takeWhile_imp, by simpa using isNone, failed⟩
              · cases failed

end

theorem complains_tokensBehind (quoted : Bool) (token text : Text) :
    Complains (tokensBehind quoted token text) := by
  induction text generalizing quoted token with
  | nil => cases quoted <;> simp [tokensBehind, ReadingFault.isOfNotation]
  | cons char text inductionHypothesis =>
      unfold tokensBehind
      split
      · exact inductionHypothesis _ _
      · split
        · exact inductionHypothesis _ _
        · split
          · exact complains_bind (inductionHypothesis _ _) fun _ => complains_pure _
          · split
            · exact complains_bind (inductionHypothesis _ _) fun _ => complains_pure _
            · exact inductionHypothesis _ _

def CountsTooFar (text : Text) : Prop :=
  ∃ found words, tokens text = .ok found ∧ words <:+: found ∧
    Predicate.CountsTooFar (joinWith " " words)

theorem isOfNotation_of_blames {text : Text} (oneLine : ∀ char ∈ text, isLineBreak char = false)
    (near : ¬CountsTooFar text) {found : List Text} (areTokens : tokens text = .ok found)
    {fault : ReadingFault} (blames : Blames found fault) : fault.isOfNotation = true := by
  rcases blames with isOfNotation | ⟨words, stand, areWords, isSome, failed⟩
  · exact isOfNotation
  · have isPhrase : IsPhrase (joinWith " " words) := by
      apply IsPhrase.of_words words isSome
      intro word isMember
      exact isWord_of_mem_tokens oneLine areTokens (stand.subset isMember) (areWords word isMember)
    have noFeed : '\n' ∉ joinWith " " words := by
      intro isMember
      cases isPhrase.oneLine _ isMember
    have nearHere : ¬Predicate.CountsTooFar (joinWith " " words) :=
      fun counts => near ⟨found, words, areTokens, stand, counts⟩
    exact Predicate.complains_read noFeed nearHere fault failed

/-- What is wrong with a condition within a line is a fault of the notation, unless it counts too
far. -/
theorem complains_read {text : Text} (oneLine : ∀ char ∈ text, isLineBreak char = false)
    (near : ¬CountsTooFar text) : Complains (read text) := by
  unfold read
  dsimp only
  split
  · simp
  · rw [tokens_trim]
    intro fault failed
    rcases Except.bind_eq_error.mp failed with failed | ⟨found, areTokens, failed⟩
    · exact complains_tokensBehind _ _ _ fault failed
    · have consumes : Consumes found (readAlternatives (3 * found.length + 3) found) :=
        (consumes_readTokens _).1 found
      rcases Except.bind_eq_error.mp failed with failed | ⟨⟨members, rest⟩, -, failed⟩
      · exact isOfNotation_of_blames oneLine near areTokens (consumes.blames fault failed)
      · cases rest with
        | nil => cases failed
        | cons token rest =>
            cases failed
            rfl

/-- A test that counts syllables up to a number with too many digits is refused as it is printed,
and not by a fault of the notation. -/
theorem read_count_of_far (comparison : Comparison) {number : Nat}
    (isFar : 10 ^ Text.digitLimit ≤ number) :
    ∃ digits, read (comparison.lead ++ Text.ofNat number) = .error (.numberTooLong digits) := by
  let far : Predicate := { test := .syllableCount, comparison, number := some (number : Int) }
  have isWording : IsWording far.print :=
    (Predicate.isPhrase_syllableCount comparison number).isWording
  have isReread : read far.print = reread (holds far) := by
    have reads := read_print (.holds far) (by simpa [predicates] using isWording)
    rwa [print] at reads
  obtain ⟨digits, failed⟩ :=
    Predicate.read_of_countsTooFar (Predicate.countsTooFar_ofNat comparison isFar)
  have failed : Predicate.read far.print = .error (.numberTooLong digits) := failed
  refine ⟨digits, ?_⟩
  calc read (comparison.lead ++ Text.ofNat number)
    _ = reread (holds far) := isReread
    _ = .error (.numberTooLong digits) := by
      rw [reread, failed]
      rfl

end Condition

end Diachrony
