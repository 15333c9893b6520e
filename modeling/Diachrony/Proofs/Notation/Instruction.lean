import Diachrony.Instruction
import Diachrony.Proofs.Notation.Pattern
import Diachrony.Proofs.Notation.SoundChange

/-!
# Instructions

The printed form of most instructions is the line they were read of.  The others name a
place, which may have lost an article, or carry categories or a sound change; they are
read as they are printed unless the place or the sound change is not, or the first sounds
of a sound change are the verb of another instruction.
-/
namespace Diachrony

open Text (after? after?_eq_some after?_append after?_eq_none partWays before? before?_eq_some cut?
  cut?_eq_some squeeze Tight tight_squeeze trim quoteMark quoted splitAt occursIn isBlank)

/-- A resolver finds rules by their names: the reference it gives carries the name it was
asked for. -/
def Resolver.IsByName (resolver : Resolver) : Prop :=
  ∀ name rule, resolver name = some rule → rule.name = name

namespace Instruction

def isPlain (instruction : Instruction) : Bool :=
  match instruction.kind with
  | .attach _ | .insert _ | .applySoundRule => instruction.seek.all SeekTarget.isPlain
  | .soundChange =>
    instruction.change.all fun change =>
      let before := Slot.printSide change.before
      !(before == "append" || before == "prepend") && !occursIn "->" before
  | _ => true

theorem tight_behind {lead line rest : Text} (tight : Tight line)
    (behind : after? (lead ++ [' ']) line = some rest) : Tight rest := by
  rw [after?_eq_some.mp behind, List.append_assoc] at tight
  exact tight.of_append.2

theorem readLiteral_eq_ok {text content : Text} (tight : Tight text)
    (gave : readLiteral text = .ok content) : text = quoted content := by
  unfold readLiteral at gave
  rw [tight.trim] at gave
  split at gave
  · rename_i isUnquoted
    cases gave
    exact (unquoted?_eq_some.mp isUnquoted).1
  · cases gave

theorem cutQuoted?_eq_some {text content rest : Text}
    (isCut : cutQuoted? text = some (content, rest)) :
    text = quoted content ++ rest ∧ quoteMark ∉ content := by
  unfold cutQuoted? at isCut
  cases text with
  | nil => cases isCut
  | cons mark text =>
      dsimp only at isCut
      split at isCut
      · rename_i isMark
        have isText := cut?_eq_some isCut
        exact ⟨by rw [isMark, isText, quoted]; simp, Text.not_mem_of_cut?_char isCut⟩
      · cases isCut

theorem cutQuoted?_quoted {content : Text} (noQuote : quoteMark ∉ content) (rest : Text) :
    cutQuoted? (quoted content ++ rest) = some (content, rest) := by
  unfold quoted
  rw [List.cons_append, List.cons_append, List.append_assoc, List.singleton_append, cutQuoted?,
    if_pos rfl]
  exact Text.cut?_char noQuote rest

theorem resolve_eq_ok {resolver : Resolver} {name : Text} {rule : RuleRef} :
    resolve resolver name = .ok rule ↔ resolver name = some rule := by
  unfold resolve
  cases resolver name with
  | some found => simp
  | none =>
      constructor
      · intro gave
        cases gave
      · intro isFound
        cases isFound

/-- An instruction that is printed as a line, whatever class names are in it. -/
structure IsVerbatim (line : Text) (instruction : Instruction) : Prop where
  printed : instruction.print = line
  plain : instruction.isPlain = true
  named : ∀ number ∈ instruction.printedOrdinals, (Ordinal.nameOf? number).isSome = true

section

variable {line : Text} {instruction : Instruction}

theorem isVerbatim_of_readPhrase (gave : readPhrase line = some (.ok instruction)) :
    IsVerbatim line instruction := by
  obtain ⟨kind, isKind, same⟩ := Option.map_eq_some_iff.mp gave
  cases same
  have isName : kind.name = line := by simpa using List.find?_some isKind
  have isMember := List.mem_of_find?_eq_some isKind
  simp only [List.mem_cons, List.not_mem_nil, or_false] at isMember
  rcases isMember with rfl | rfl <;> exact ⟨isName, rfl, fun _ isMember => nomatch isMember⟩

theorem isVerbatim_of_readWithLiteral (lead : Text) {kind : InstructionKind} (tight : Tight line)
    (isVerbatim : ∀ text,
      IsVerbatim (lead ++ ' ' :: quoted text) { kind, argument := some text })
    (gave : readWithLiteral (lead ++ [' ']) kind line = some (.ok instruction)) :
    IsVerbatim line instruction := by
  obtain ⟨rest, behind, gave⟩ := Option.bind_eq_some_iff.mp gave
  obtain ⟨text, isText, rfl⟩ := Except.map_eq_ok.mp (Option.some.inj gave)
  have isLine : line = lead ++ ' ' :: quoted text := by
    rw [← readLiteral_eq_ok (tight_behind tight behind) isText, after?_eq_some.mp behind,
      List.append_assoc, List.singleton_append]
  exact isLine ▸ isVerbatim text

theorem isVerbatim_of_readStress (gave : readStress line = some (.ok instruction)) :
    IsVerbatim line instruction := by
  obtain ⟨rest, behind, gave⟩ := Option.bind_eq_some_iff.mp gave
  obtain ⟨ordinal, isOrdinal, gave⟩ := Option.bind_eq_some_iff.mp gave
  obtain ⟨name, isRest, isName⟩ := Option.bind_eq_some_iff.mp isOrdinal
  cases gave
  have isNamed : ordinal.name = name := by simpa using List.find?_some isName
  rw [after?_eq_some.mp behind, before?_eq_some.mp isRest, ← isNamed]
  refine ⟨?_, rfl, fun number isMember => ?_⟩
  · unfold print
    dsimp only
    rw [Ordinal.nameOf_number]
    rfl
  · cases List.mem_singleton.mp isMember
    rw [Ordinal.nameOf?_number]
    rfl

theorem isVerbatim_of_readMarkClass (gave : readMarkClass line = some (.ok instruction)) :
    IsVerbatim line instruction := by
  obtain ⟨name, behind, gave⟩ := Option.bind_eq_some_iff.mp gave
  split at gave
  · cases gave
  · cases gave
    exact ⟨(after?_eq_some.mp behind).symm, rfl, fun _ isMember => nomatch isMember⟩

theorem cutAtBecomes?_eq_some {text source target : Text}
    (isCut : cutAtBecomes? text = some (source, target)) :
    text = source ++ " becomes ".toList ++ target := by
  induction text generalizing source with
  | nil => cases isCut
  | cons char text inductionHypothesis =>
      rw [cutAtBecomes?] at isCut
      split at isCut
      · rename_i next rest behind
        cases isCut
        rw [after?_eq_some.mp behind]
        rfl
      · obtain ⟨⟨front, found⟩, isFound, same⟩ := Option.map_eq_some_iff.mp isCut
        obtain ⟨rfl, rfl⟩ := Prod.mk.inj same
        rw [inductionHypothesis isFound]
        rfl

theorem isVerbatim_of_readChangeClass (gave : readChangeClass line = some (.ok instruction)) :
    IsVerbatim line instruction := by
  unfold readChangeClass at gave
  split at gave
  · cases gave
  · obtain ⟨⟨source, target⟩, isCut, same⟩ := Option.map_eq_some_iff.mp gave
    cases same
    exact ⟨(cutAtBecomes?_eq_some isCut).symm, rfl, fun _ isMember => nomatch isMember⟩

theorem isVerbatim_of_readApplyRule {resolver : Resolver} (isByName : resolver.IsByName)
    (tight : Tight line) (gave : readApplyRule resolver line = some (.ok instruction)) :
    IsVerbatim line instruction := by
  obtain ⟨rest, behind, gave⟩ := Option.bind_eq_some_iff.mp gave
  obtain ⟨name, isName, gave⟩ := Except.bind_eq_ok.mp (Option.some.inj gave)
  obtain ⟨rule, isRule, gave⟩ := Except.bind_eq_ok.mp gave
  cases gave
  have isVerb : "apply rule ".toList = "apply rule".toList ++ [' '] := rfl
  rw [isVerb] at behind
  refine ⟨?_, rfl, fun _ isMember => nomatch isMember⟩
  rw [after?_eq_some.mp behind, readLiteral_eq_ok (tight_behind tight behind) isName,
    ← isByName name rule (resolve_eq_ok.mp isRule), List.append_assoc]
  rfl

end

/-- A form that makes nothing of a line that does not begin with its verb. -/
def LedBy (verb : Text) (form : Form) : Prop := ∀ line, after? verb line = none → form line = none

def verbForms (resolver : Resolver) : List (Text × Form) :=
  [("new sound is ", readWithLiteral "new sound is " .changeSound),
    ("change ending to ", readWithLiteral "change ending to " .changeEnding),
    ("append ", readAttach .after "append "), ("prepend ", readAttach .before "prepend "),
    ("insert ", readInsert), ("stress is on ", readStress), ("mark word as ", readMarkClass),
    ("add category ", readWithCategories "add category " .addCategory),
    ("replace category with ", readWithCategories "replace category with " .replaceCategory),
    ("apply sound rule ", readApplySoundRule resolver), ("apply rule ", readApplyRule resolver)]

section

variable {resolver : Resolver} {line : Text}

theorem forms_eq (resolver : Resolver) :
    forms resolver =
      readPhrase :: ((verbForms resolver).map Prod.snd ++ [readSoundChange, readChangeClass]) :=
  rfl

theorem ledBy_of_mem_verbForms : ∀ entry ∈ verbForms resolver, LedBy entry.1 entry.2 := by
  simp only [verbForms, List.forall_mem_cons, List.not_mem_nil, false_implies, implies_true,
    and_true]
  refine ⟨?_, ?_, ?_, ?_, ?_, ?_, ?_, ?_, ?_, ?_, ?_⟩
  all_goals
    intro line notLed
    simp only [readWithLiteral, readAttach, readInsert, readStress, readMarkClass,
      readWithCategories, readApplySoundRule, readApplyRule, notLed, Option.bind_none,
      Option.bind_eq_bind]

theorem findSome?_eq_none_of_ledBy {led : List (Text × Form)}
    (areLed : ∀ entry ∈ led, LedBy entry.1 entry.2)
    (notLed : ∀ entry ∈ led, after? entry.1 line = none) :
    (led.map Prod.snd).findSome? (fun form => form line) = none := by
  refine List.findSome?_eq_none_iff.mpr fun form isForm => ?_
  obtain ⟨entry, isEntry, rfl⟩ := List.mem_map.mp isForm
  exact areLed entry isEntry line (notLed entry isEntry)

theorem readPhrase_eq_none (notChange : after? "no change" line = none)
    (notDrop : after? "sound disappears" line = none) : readPhrase line = none := by
  have notName : ∀ name : Text, after? name line = none → (name == line) = false := by
    intro name isNone
    rw [beq_eq_false_iff_ne]
    rintro rfl
    rw [show after? name name = some [] from after?_eq_some.mpr (List.append_nil name).symm] at isNone
    cases isNone
  unfold readPhrase
  rw [List.find?_cons, show InstructionKind.noChange.name = "no change".toList from rfl,
    notName _ notChange, List.find?_cons,
    show InstructionKind.dropSound.name = "sound disappears".toList from rfl, notName _ notDrop]
  rfl

theorem read_of_tight (tight : Tight line) :
    read resolver (' ' :: line) = ((forms resolver).findSome? fun form => form line).getD
      (.error (.unknownInstruction line)) := by
  unfold read
  dsimp only
  rw [Text.squeeze_cons_of_blank (by decide), tight.squeezed]

/-- A line that begins with a verb is read by the form with that verb. -/
theorem read_of_verb {lead rest : Text} (tight : Tight (lead ++ rest))
    (before : List (Text × Form)) {behind : List (Text × Form)} {verb : Text} {form : Form}
    (isForm : verbForms resolver = before ++ (verb, form) :: behind)
    (apart : ("no change".toList :: "sound disappears".toList :: before.map Prod.fst).all
      (fun other => partWays other lead) = true)
    {result : Except ReadingFault Instruction} (gave : form (lead ++ rest) = some result) :
    read resolver (' ' :: (lead ++ rest)) = result := by
  have notLed : ∀ entry ∈ before, after? entry.1 (lead ++ rest) = none := by
    intro entry isEntry
    have isOther : entry.1 ∈ before.map Prod.fst := List.mem_map_of_mem isEntry
    exact after?_eq_none (List.all_eq_true.mp apart entry.1 (by simp [isOther])) rest
  simp only [List.all_cons, Bool.and_eq_true] at apart
  have noPhrase := readPhrase_eq_none (after?_eq_none apart.1 rest) (after?_eq_none apart.2.1 rest)
  have noneBefore := findSome?_eq_none_of_ledBy (fun entry isEntry =>
    ledBy_of_mem_verbForms entry (isForm ▸ List.mem_append_left _ isEntry)) notLed
  rw [read_of_tight tight, forms_eq, List.findSome?_cons, noPhrase, isForm, List.map_append,
    List.append_assoc, List.findSome?_append, noneBefore, List.map_cons, List.cons_append,
    List.findSome?_cons]
  dsimp only
  rw [gave]
  rfl

/-- The printed form of a place that was read is read as that place, if and only if the
place is plain, wherever it ends a line. -/
theorem map_read_place_iff {place : SeekTarget} (isRead : place.IsRead)
    (make : SeekTarget → Instruction) (seek_make : ∀ place, (make place).seek = some place) :
    (SeekTarget.read place.print).map make = .ok (make place) ↔ place.isPlain = true := by
  rw [← SeekTarget.read_print_iff isRead, Except.map_eq_ok]
  constructor
  · rintro ⟨found, isFound, same⟩
    have isPlace := congrArg Instruction.seek same
    rw [seek_make, seek_make, Option.some.injEq] at isPlace
    rwa [isPlace] at isFound
  · intro isFound
    exact ⟨place, isFound, rfl⟩

theorem tight_print_place {place : SeekTarget} (isRead : place.IsRead) : Tight place.print := by
  obtain ⟨ordinal, isOrdinal⟩ := isRead.ordinal
  rw [SeekTarget.print_eq isRead isOrdinal]
  exact ordinal.tight_name.append isRead.tight

theorem head_print_place {place : SeekTarget} (isRead : place.IsRead) :
    place.print.head? ≠ some quoteMark := by
  obtain ⟨ordinal, isOrdinal⟩ := isRead.ordinal
  rw [SeekTarget.print_eq isRead isOrdinal]
  have first : ∃ char, ordinal.name.head? = some char ∧ char ≠ quoteMark := by
    cases ordinal <;> exact ⟨_, rfl, by decide⟩
  obtain ⟨char, isFirst, notQuote⟩ := first
  rw [List.head?_append, isFirst]
  exact fun same => notQuote (Option.some.inj same)

theorem read_attach_iff (side : Side) {source : SeekTarget} (isRead : source.IsRead) :
    read resolver (' ' :: ({ kind := .attach side, seek := some source } : Instruction).print) =
        .ok { kind := .attach side, seek := some source } ↔ source.isPlain = true := by
  rw [← map_read_place_iff isRead (fun source =>
    { kind := .attach side, seek := some source }) fun _ => rfl]
  have notQuote := head_print_place isRead
  have tight := tight_print_place isRead
  cases side with
  | after =>
      have isLine : ({ kind := .attach .after, seek := some source } : Instruction).print =
          "append ".toList ++ source.print := rfl
      have tightLine : Tight ("append ".toList ++ source.print) :=
        (show Tight "append".toList from Text.tight_of_solid (by decide) (by decide)).append tight
      rw [isLine, read_of_verb tightLine ((verbForms resolver).take 2) rfl rfl (by
        unfold readAttach
        rw [after?_append, Option.bind_eq_bind, Option.bind_some, if_neg notQuote]
        rfl)]
  | before =>
      have isLine : ({ kind := .attach .before, seek := some source } : Instruction).print =
          "prepend ".toList ++ source.print := rfl
      have tightLine : Tight ("prepend ".toList ++ source.print) :=
        (show Tight "prepend".toList from Text.tight_of_solid (by decide) (by decide)).append tight
      rw [isLine, read_of_verb tightLine ((verbForms resolver).take 3) rfl rfl (by
        unfold readAttach
        rw [after?_append, Option.bind_eq_bind, Option.bind_some, if_neg notQuote]
        rfl)]

/-- A place at the end of a line may be exchanged for another one. -/
theorem tight_place {lead content place other : Text} (middle : Text)
    (tight : Tight (lead ++ (quoted content ++ ((middle ++ [' ']) ++ place))))
    (isTight : Tight other) : Tight (lead ++ (quoted content ++ ((middle ++ [' ']) ++ other))) := by
  have isSplit : ∀ text : Text, lead ++ (quoted content ++ ((middle ++ [' ']) ++ text)) =
      (lead ++ (quoted content ++ middle)) ++ ' ' :: text := by
    intro text
    simp
  rw [isSplit] at tight ⊢
  exact tight.of_append.1.append isTight

theorem tight_insert {content place other : Text} (side : Side)
    (tight : Tight ("insert ".toList ++ (quoted content ++ (sideLead side ++ place))))
    (isTight : Tight other) :
    Tight ("insert ".toList ++ (quoted content ++ (sideLead side ++ other))) := by
  cases side with
  | before => exact tight_place " before" tight isTight
  | after => exact tight_place " after" tight isTight

theorem tight_applySoundRule {name place other : Text}
    (tight : Tight ("apply sound rule ".toList ++ (quoted name ++ (" to ".toList ++ place))))
    (isTight : Tight other) :
    Tight ("apply sound rule ".toList ++ (quoted name ++ (" to ".toList ++ other))) :=
  tight_place " to" tight isTight

theorem print_insert (side : Side) (content : Text) (place : SeekTarget) :
    ({ kind := .insert side, argument := some content, seek := some place } : Instruction).print =
      "insert ".toList ++ (quoted content ++ (sideLead side ++ place.print)) := by
  rw [← List.append_assoc, ← List.append_assoc]
  rfl

theorem print_applySoundRule (rule : RuleRef) (place : SeekTarget) :
    ({ kind := .applySoundRule, rule := some rule, seek := some place } : Instruction).print =
      "apply sound rule ".toList ++ (quoted rule.name ++ (" to ".toList ++ place.print)) := by
  rw [← List.append_assoc, ← List.append_assoc]
  rfl

theorem readInsert_eq (side : Side) {content place : Text} (noQuote : quoteMark ∉ content)
    (isSome : place ≠ []) :
    readInsert ("insert ".toList ++ (quoted content ++ (sideLead side ++ place))) =
      some ((SeekTarget.read place).map fun place =>
        { kind := .insert side, argument := some content, seek := some place }) := by
  have notEmpty : place.isEmpty = false := by simpa [List.isEmpty_iff] using isSome
  unfold readInsert
  rw [after?_append, Option.bind_some, cutQuoted?_quoted noQuote]
  cases side with
  | before =>
      simp only [Option.bind_eq_bind, Option.bind_some, List.findSome?_cons, after?_append, notEmpty]
      rfl
  | after =>
      have apart : after? (sideLead .before) (sideLead .after ++ place) = none :=
        after?_eq_none (by decide) place
      simp only [Option.bind_eq_bind, Option.bind_some, List.findSome?_cons, apart, Option.bind_none,
        after?_append, notEmpty]
      rfl

theorem read_insert_iff (side : Side) {content placeText : Text} {place : SeekTarget}
    (noQuote : quoteMark ∉ content) (isRead : place.IsRead)
    (tight : Tight ("insert ".toList ++ (quoted content ++ (sideLead side ++ placeText)))) :
    read resolver (' ' :: ({ kind := .insert side, argument := some content, seek := some place } :
        Instruction).print) =
        .ok { kind := .insert side, argument := some content, seek := some place } ↔
      place.isPlain = true := by
  rw [← map_read_place_iff isRead (fun place =>
    { kind := .insert side, argument := some content, seek := some place }) fun _ => rfl]
  have isTight := tight_print_place isRead
  rw [print_insert, read_of_verb (tight_insert side tight isTight) ((verbForms resolver).take 4) rfl rfl
    (readInsert_eq side noQuote isTight.isSome)]

theorem readApplySoundRule_eq {rule : RuleRef} {name place : Text} (isRule : resolver name = some rule)
    (noQuote : quoteMark ∉ name) (isSome : place ≠ []) :
    readApplySoundRule resolver ("apply sound rule ".toList ++ (quoted name ++ (" to ".toList ++ place))) =
      some ((SeekTarget.read place).map fun place =>
        { kind := .applySoundRule, rule := some rule, seek := some place }) := by
  have notEmpty : place.isEmpty = false := by simpa [List.isEmpty_iff] using isSome
  unfold readApplySoundRule
  rw [after?_append, Option.bind_some, cutQuoted?_quoted noQuote]
  simp only [Option.bind_eq_bind, Option.bind_some, after?_append, notEmpty, resolve, isRule]
  cases SeekTarget.read place <;> rfl

theorem read_applySoundRule_iff {rule : RuleRef} {placeText : Text} {place : SeekTarget}
    (isRule : resolver rule.name = some rule) (noQuote : quoteMark ∉ rule.name)
    (isRead : place.IsRead)
    (tight : Tight ("apply sound rule ".toList ++ (quoted rule.name ++ (" to ".toList ++ placeText)))) :
    read resolver (' ' :: ({ kind := .applySoundRule, rule := some rule, seek := some place } :
        Instruction).print) =
        .ok { kind := .applySoundRule, rule := some rule, seek := some place } ↔
      place.isPlain = true := by
  rw [← map_read_place_iff isRead (fun place =>
    { kind := .applySoundRule, rule := some rule, seek := some place }) fun _ => rfl]
  have isTight := tight_print_place isRead
  rw [print_applySoundRule, read_of_verb (tight_applySoundRule tight isTight)
    ((verbForms resolver).take 9) rfl rfl
    (readApplySoundRule_eq isRule noQuote isTight.isSome)]

/-- The values that are read of a citation: there is at least one, none is empty, and
there is no blank in them. -/
structure AreCategories (names : Text) : Prop where
  isSome : names ≠ []
  solid : ∀ char ∈ names, isBlank char = false
  noDot : names.dropWhile (· == '.') = names
  areSome : (splitAt '.' names).any List.isEmpty = false

theorem areCategories_of_readCategories {text names : Text} (tight : Tight text)
    (gave : readCategories text = .ok names) : AreCategories names := by
  unfold readCategories at gave
  rw [tight.trim] at gave
  dsimp only at gave
  split at gave
  · cases gave
  · rename_i areNames
    cases gave
    rw [Bool.or_eq_true, not_or, Bool.not_eq_true, Bool.not_eq_true] at areNames
    refine ⟨?_, fun char isMember => ?_, List.dropWhile_idempotent _ _, areNames.1⟩
    · intro isNone
      rw [isNone] at areNames
      cases areNames.1
    · refine (tight.solid_or_space char ((List.dropWhile_sublist _).subset isMember)).resolve_left ?_
      rintro rfl
      rw [List.contains_iff_mem.mpr isMember] at areNames
      cases areNames.2

theorem readCategories_dot {names : Text} (areCategories : AreCategories names) :
    readCategories ('.' :: names) = .ok names := by
  have tight : Tight ('.' :: names) := Text.tight_of_solid (List.cons_ne_nil _ _)
    (List.forall_mem_cons.mpr ⟨by decide, areCategories.solid⟩)
  have noSpace : names.contains ' ' = false := by
    cases isThere : names.contains ' ' with
    | false => rfl
    | true =>
        have solid := areCategories.solid ' ' (List.contains_iff_mem.mp isThere)
        cases solid
  unfold readCategories
  rw [tight.trim, List.dropWhile_cons_of_pos rfl, areCategories.noDot]
  dsimp only
  rw [areCategories.areSome, noSpace]
  rfl

/-- What the sounds in front of the arrow must be if the printed form of a sound change
begins with a verb. -/
theorem verb_eq_of_behind {sounds verb rest behind first more : Text} (noSpace : ' ' ∉ sounds)
    (isBehind : after? verb (sounds ++ ' ' :: rest) = some behind)
    (isCut : cut? " " verb = some (first, more)) : sounds = first ∧ rest = more ++ behind := by
  have isLine := Text.cut?_append_right isCut behind
  rw [← after?_eq_some.mp isBehind,
    show cut? " ".toList (sounds ++ ' ' :: rest) = some (sounds, rest) from
      Text.cut?_char noSpace rest] at isLine
  exact Prod.mk.inj (Option.some.inj isLine)

/-- The phrases and verbs that have a second word, which no arrow is. -/
theorem after?_arrow_eq_none {sounds rest : Text} (noSpace : ' ' ∉ sounds) {verb : Text}
    (isLong : ((cut? " " verb).any fun parts => parts.2.head?.any (· != '-')) = true) :
    after? verb (sounds ++ ' ' :: '-' :: rest) = none := by
  cases isBehind : after? verb (sounds ++ ' ' :: '-' :: rest) with
  | none => rfl
  | some behind =>
      obtain ⟨⟨first, more⟩, isCut, isSome⟩ := (Option.any_eq_true _ _).mp isLong
      obtain ⟨char, isFirst, notArrow⟩ := (Option.any_eq_true _ _).mp isSome
      obtain ⟨others, rfl⟩ := List.head?_eq_some_iff.mp isFirst
      obtain ⟨-, isRest⟩ := verb_eq_of_behind noSpace isBehind isCut
      cases (List.cons.inj isRest).1
      cases notArrow

theorem readInsert_arrow {sounds rest : Text} (noSpace : ' ' ∉ sounds) :
    readInsert (sounds ++ ' ' :: '-' :: rest) = none := by
  unfold readInsert
  cases isBehind : after? "insert " (sounds ++ ' ' :: '-' :: rest) with
  | none => rfl
  | some behind =>
      obtain ⟨-, isRest⟩ := verb_eq_of_behind noSpace isBehind
        (show cut? " ".toList "insert ".toList = some ("insert".toList, []) from rfl)
      rw [List.nil_append] at isRest
      rw [Option.bind_some, ← isRest]
      rfl

theorem readAttach_lead (side : Side) (verb rest : Text) :
    ∃ result, readAttach side verb (verb ++ rest) = some result ∧
      ∀ instruction, result = .ok instruction → instruction.kind = .attach side := by
  unfold readAttach
  rw [after?_append, Option.bind_eq_bind, Option.bind_some]
  split
  · refine ⟨_, rfl, fun instruction gave => ?_⟩
    obtain ⟨text, -, rfl⟩ := Except.map_eq_ok.mp gave
    rfl
  · refine ⟨_, rfl, fun instruction gave => ?_⟩
    obtain ⟨source, -, rfl⟩ := Except.map_eq_ok.mp gave
    rfl

theorem read_soundChange_iff {change : SoundChange} (isRead : change.IsRead)
    (tight : Tight change.print) :
    read resolver (' ' :: change.print) = .ok { kind := .soundChange, change := some change } ↔
      ({ kind := .soundChange, change := some change } : Instruction).isPlain = true := by
  have isRoundTrip := SoundChange.read_print_iff isRead
  have noSpace : ' ' ∉ Slot.printSide change.before := by
    intro isMember
    have solid := Slot.solid_printSide isRead.before ' ' isMember
    cases solid
  obtain ⟨rest, isLine⟩ : ∃ rest,
      change.print = Slot.printSide change.before ++ ' ' :: '-' :: '>' :: rest := by
    rw [SoundChange.print_eq, List.append_assoc]
    exact ⟨_, rfl⟩
  have isStolen : ∀ {verb : Text} {side : Side} (before : List (Text × Form))
      {behind : List (Text × Form)},
      Slot.printSide change.before ++ [' '] = verb →
      verbForms resolver = before ++ (verb, readAttach side verb) :: behind →
      ("no change".toList :: "sound disappears".toList :: before.map Prod.fst).all
        (fun other => partWays other verb) = true →
      read resolver (' ' :: change.print) ≠
        .ok { kind := .soundChange, change := some change } := by
    intro verb side before behind isVerb isForm apart gave
    have isText : change.print = verb ++ '-' :: '>' :: rest := by
      rw [isLine, ← isVerb, List.append_assoc]
      rfl
    obtain ⟨result, isResult, isAttach⟩ :=
      readAttach_lead side verb ('-' :: '>' :: rest)
    rw [isText, read_of_verb (isText ▸ tight) before isForm apart isResult] at gave
    have isKind := isAttach _ gave
    cases isKind
  unfold isPlain
  dsimp only
  rw [Option.all_some, Bool.and_eq_true, Bool.not_eq_true', Bool.not_eq_true', Bool.or_eq_false_iff,
    beq_eq_false_iff_ne, beq_eq_false_iff_ne, ← isRoundTrip]
  by_cases isAppend : Slot.printSide change.before = "append"
  · refine iff_of_false (isStolen ((verbForms resolver).take 2)
      (by rw [isAppend]; rfl) rfl rfl) ?_
    exact fun plain => plain.1.1 isAppend
  · by_cases isPrepend : Slot.printSide change.before = "prepend"
    · refine iff_of_false (isStolen ((verbForms resolver).take 3)
        (by rw [isPrepend]; rfl) rfl rfl) ?_
      exact fun plain => plain.1.2 isPrepend
    · have isOther : ∀ entry ∈ verbForms resolver, entry.2 = readInsert ∨
          entry.1 = "append ".toList ∨ entry.1 = "prepend ".toList ∨
          ((cut? " " entry.1).any fun parts => parts.2.head?.any (· != '-')) = true := by
        simp only [verbForms, List.forall_mem_cons, List.not_mem_nil, false_implies, implies_true,
          and_true]
        exact ⟨.inr (.inr (.inr rfl)), .inr (.inr (.inr rfl)), .inr (.inl trivial),
          .inr (.inr (.inl trivial)), .inl trivial, .inr (.inr (.inr rfl)), .inr (.inr (.inr rfl)),
          .inr (.inr (.inr rfl)), .inr (.inr (.inr rfl)), .inr (.inr (.inr rfl)),
          .inr (.inr (.inr rfl))⟩
      have notVerb : ∀ {verb : Text}, Slot.printSide change.before ≠ verb → ' ' ∉ verb →
          after? (verb ++ [' ']) change.print = none := by
        intro verb differs isWord
        cases isBehind : after? (verb ++ [' ']) change.print with
        | none => rfl
        | some behind =>
            rw [isLine] at isBehind
            exact absurd (verb_eq_of_behind noSpace isBehind (Text.cut?_char isWord [])).1 differs
      have noForm : ((verbForms resolver).map Prod.snd).findSome?
          (fun form => form change.print) = none := by
        refine List.findSome?_eq_none_iff.mpr fun form isForm => ?_
        obtain ⟨entry, isEntry, rfl⟩ := List.mem_map.mp isForm
        rcases isOther entry isEntry with isInsert | isVerb | isVerb | isLong
        · rw [isInsert, isLine]
          exact readInsert_arrow noSpace
        · refine ledBy_of_mem_verbForms entry isEntry _ ?_
          rw [isVerb]
          exact notVerb isAppend (by decide)
        · refine ledBy_of_mem_verbForms entry isEntry _ ?_
          rw [isVerb]
          exact notVerb isPrepend (by decide)
        · refine ledBy_of_mem_verbForms entry isEntry _ ?_
          rw [isLine]
          exact after?_arrow_eq_none noSpace isLong
      have noPhrase : readPhrase change.print = none := by
        rw [isLine]
        exact readPhrase_eq_none (after?_arrow_eq_none noSpace (by decide))
          (after?_arrow_eq_none noSpace (by decide))
      have isArrow : occursIn "->" change.print = true := by
        rw [isLine]
        exact Text.occursIn_iff.mpr ⟨Slot.printSide change.before ++ [' '], rest, by simp⟩
      rw [read_of_tight tight, forms_eq, List.findSome?_cons, noPhrase, List.findSome?_append, noForm,
        List.findSome?_cons, readSoundChange, isArrow, if_pos rfl]
      dsimp only [Option.none_or, Option.getD_some]
      rw [Except.map_eq_ok]
      constructor
      · rintro ⟨found, isFound, same⟩
        cases same
        exact ⟨⟨isAppend, isPrepend⟩, isFound⟩
      · rintro ⟨-, isFound⟩
        exact ⟨change, isFound, rfl⟩

end

/-- What is known of the printed form of an instruction that was read. -/
structure IsPrintable (resolver : Resolver) (instruction : Instruction) : Prop where
  tight : Tight instruction.print
  named : ∀ number ∈ instruction.printedOrdinals, (Ordinal.nameOf? number).isSome = true
  reads : read resolver (' ' :: instruction.print) = .ok instruction ↔
    instruction.isPlain = true

section

variable {resolver : Resolver} {line : Text} {instruction : Instruction}

theorem IsVerbatim.isPrintable (isVerbatim : IsVerbatim line instruction) (tight : Tight line)
    (gave : read resolver (' ' :: line) = .ok instruction) : IsPrintable resolver instruction where
  tight := isVerbatim.printed ▸ tight
  named := isVerbatim.named
  reads := iff_of_true (isVerbatim.printed ▸ gave) isVerbatim.plain

theorem isPrintable_of_readAttach {side : Side} {verb : Text} (tight : Tight line)
    (isVerb : verb = (InstructionKind.attach side).name ++ [' '])
    (gave : read resolver (' ' :: line) = .ok instruction)
    (isRead : readAttach side verb line = some (.ok instruction)) :
    IsPrintable resolver instruction := by
  obtain ⟨rest, behind, isRead⟩ := Option.bind_eq_some_iff.mp isRead
  have isLine := after?_eq_some.mp behind
  rw [isVerb] at behind
  have tightRest := tight_behind tight behind
  split at isRead
  · obtain ⟨text, isText, rfl⟩ := Except.map_eq_ok.mp (Option.some.inj isRead)
    have isVerbatim : IsVerbatim line { kind := .attach side, argument := some text } := by
      refine ⟨?_, rfl, fun _ isMember => nomatch isMember⟩
      rw [isLine, isVerb, readLiteral_eq_ok tightRest isText, List.append_assoc]
      rfl
    exact isVerbatim.isPrintable tight gave
  · obtain ⟨source, isSource, rfl⟩ := Except.map_eq_ok.mp (Option.some.inj isRead)
    have isPlace := SeekTarget.isRead_of_read isSource
    have tightVerb : Tight (InstructionKind.attach side).name := by
      cases side <;> exact Text.tight_of_solid (by decide) (by decide)
    refine ⟨tightVerb.append (tight_print_place isPlace), fun number isMember => ?_,
      (read_attach_iff side isPlace).trans (by simp [isPlain])⟩
    cases List.mem_singleton.mp isMember
    exact isPlace.named

theorem isPrintable_of_readInsert (tight : Tight line)
    (isRead : readInsert line = some (.ok instruction)) : IsPrintable resolver instruction := by
  obtain ⟨⟨content, rest⟩, isCut, isRead⟩ := Option.bind_eq_some_iff.mp isRead
  obtain ⟨behind, isBehind, isCut⟩ := Option.bind_eq_some_iff.mp isCut
  obtain ⟨side, -, isRead⟩ := List.exists_of_findSome?_eq_some isRead
  obtain ⟨placeText, isPlaceText, isRead⟩ := Option.bind_eq_some_iff.mp isRead
  split at isRead
  · cases isRead
  · obtain ⟨place, isPlace, rfl⟩ := Except.map_eq_ok.mp (Option.some.inj isRead)
    obtain ⟨isQuoted, noQuote⟩ := cutQuoted?_eq_some isCut
    have isPlace := SeekTarget.isRead_of_read isPlace
    rw [after?_eq_some.mp isBehind, isQuoted, after?_eq_some.mp isPlaceText] at tight
    refine ⟨?_, fun number isMember => ?_,
      (read_insert_iff side noQuote isPlace tight).trans (by simp [isPlain])⟩
    · rw [print_insert]
      exact tight_insert side tight (tight_print_place isPlace)
    · cases List.mem_singleton.mp isMember
      exact isPlace.named

theorem isPrintable_of_readApplySoundRule (isByName : resolver.IsByName) (tight : Tight line)
    (isRead : readApplySoundRule resolver line = some (.ok instruction)) :
    IsPrintable resolver instruction := by
  obtain ⟨⟨name, rest⟩, isCut, isRead⟩ := Option.bind_eq_some_iff.mp isRead
  obtain ⟨behind, isBehind, isCut⟩ := Option.bind_eq_some_iff.mp isCut
  obtain ⟨placeText, isPlaceText, isRead⟩ := Option.bind_eq_some_iff.mp isRead
  split at isRead
  · cases isRead
  · obtain ⟨rule, isRule, isRead⟩ := Except.bind_eq_ok.mp (Option.some.inj isRead)
    obtain ⟨place, isPlace, isRead⟩ := Except.bind_eq_ok.mp isRead
    cases isRead
    obtain ⟨isQuoted, noQuote⟩ := cutQuoted?_eq_some isCut
    have isPlace := SeekTarget.isRead_of_read isPlace
    have isFound := resolve_eq_ok.mp isRule
    have isName := isByName name rule isFound
    rw [after?_eq_some.mp isBehind, isQuoted, after?_eq_some.mp isPlaceText, ← isName] at tight
    rw [← isName] at noQuote isFound
    refine ⟨?_, fun number isMember => ?_,
      (read_applySoundRule_iff isFound noQuote isPlace tight).trans (by simp [isPlain])⟩
    · rw [print_applySoundRule]
      exact tight_applySoundRule tight (tight_print_place isPlace)
    · cases List.mem_singleton.mp isMember
      exact isPlace.named

theorem isPrintable_of_readWithCategories (lead : Text) {kind : InstructionKind} (tight : Tight line)
    (isVerb : ∀ names, ({ kind, argument := some names } : Instruction).print =
      (lead ++ [' ']) ++ '.' :: names)
    (plain : ∀ names, ({ kind, argument := some names } : Instruction).isPlain = true)
    (noOrdinals : ∀ names, ({ kind, argument := some names } : Instruction).printedOrdinals = [])
    (before : List (Text × Form)) {behind : List (Text × Form)}
    (isForm : verbForms resolver =
      before ++ (lead ++ [' '], readWithCategories (lead ++ [' ']) kind) :: behind)
    (apart : ("no change".toList :: "sound disappears".toList :: before.map Prod.fst).all
      (fun other => partWays other (lead ++ [' '])) = true)
    (isRead : readWithCategories (lead ++ [' ']) kind line = some (.ok instruction)) :
    IsPrintable resolver instruction := by
  obtain ⟨rest, isBehind, isRead⟩ := Option.bind_eq_some_iff.mp isRead
  obtain ⟨names, areNames, rfl⟩ := Except.map_eq_ok.mp (Option.some.inj isRead)
  have areCategories := areCategories_of_readCategories (tight_behind tight isBehind) areNames
  have tightNames : Tight ('.' :: names) := Text.tight_of_solid (List.cons_ne_nil _ _)
    (List.forall_mem_cons.mpr ⟨by decide, areCategories.solid⟩)
  rw [after?_eq_some.mp isBehind, List.append_assoc] at tight
  have tightLine : Tight ((lead ++ [' ']) ++ '.' :: names) := by
    rw [List.append_assoc]
    exact tight.of_append.1.append tightNames
  refine ⟨isVerb names ▸ tightLine, ?_, iff_of_true ?_ (plain names)⟩
  · rw [noOrdinals]
    exact fun _ isMember => nomatch isMember
  · rw [isVerb, read_of_verb tightLine before isForm apart]
    unfold readWithCategories
    rw [after?_append, Option.bind_eq_bind, Option.bind_some, readCategories_dot areCategories]
    rfl

theorem isPrintable_of_readSoundChange (isRead : readSoundChange line = some (.ok instruction)) :
    IsPrintable resolver instruction := by
  unfold readSoundChange at isRead
  split at isRead
  · obtain ⟨change, isChange, rfl⟩ := Except.map_eq_ok.mp (Option.some.inj isRead)
    have isChange := SoundChange.isRead_of_read isChange
    exact ⟨SoundChange.tight_print isChange, (fun _ isMember => nomatch isMember),
      read_soundChange_iff isChange (SoundChange.tight_print isChange)⟩
  · cases isRead

/-- What was read as an instruction is read as it is printed, if and only if it is
plain. -/
theorem isPrintable_of_read (isByName : resolver.IsByName) {text : Text}
    (gave : read resolver text = .ok instruction) : IsPrintable resolver instruction := by
  have isSome : squeeze text ≠ [] := by
    intro isNone
    unfold read at gave
    rw [isNone] at gave
    cases gave
  have tight := tight_squeeze isSome
  have isFound : (forms resolver).findSome? (fun form => form (squeeze text)) =
      some (.ok instruction) := by
    unfold read at gave
    dsimp only at gave
    cases isResult : (forms resolver).findSome? fun form => form (squeeze text) with
    | none =>
        rw [isResult] at gave
        cases gave
    | some result =>
        rw [isResult, Option.getD_some] at gave
        rw [gave]
  have again : read resolver (' ' :: squeeze text) = .ok instruction := by
    rw [read_of_tight tight, isFound, Option.getD_some]
  obtain ⟨form, isForm, isRead⟩ := List.exists_of_findSome?_eq_some isFound
  simp only [forms, List.mem_cons, List.not_mem_nil, or_false] at isForm
  rcases isForm with rfl | rfl | rfl | rfl | rfl | rfl | rfl | rfl | rfl | rfl | rfl | rfl | rfl |
    rfl
  · exact (isVerbatim_of_readPhrase isRead).isPrintable tight again
  · have isVerbatim : ∀ text, IsVerbatim ("new sound is".toList ++ ' ' :: quoted text)
        { kind := .changeSound, argument := some text } :=
      fun text => ⟨rfl, rfl, fun _ isMember => nomatch isMember⟩
    exact (isVerbatim_of_readWithLiteral "new sound is" tight isVerbatim isRead).isPrintable tight
      again
  · have isVerbatim : ∀ text, IsVerbatim ("change ending to".toList ++ ' ' :: quoted text)
        { kind := .changeEnding, argument := some text } :=
      fun text => ⟨rfl, rfl, fun _ isMember => nomatch isMember⟩
    exact (isVerbatim_of_readWithLiteral "change ending to" tight isVerbatim isRead).isPrintable
      tight again
  · exact isPrintable_of_readAttach tight rfl again isRead
  · exact isPrintable_of_readAttach tight rfl again isRead
  · exact isPrintable_of_readInsert tight isRead
  · exact (isVerbatim_of_readStress isRead).isPrintable tight again
  · exact (isVerbatim_of_readMarkClass isRead).isPrintable tight again
  · exact isPrintable_of_readWithCategories "add category" tight (fun _ => rfl) (fun _ => rfl)
      (fun _ => rfl) ((verbForms resolver).take 7) rfl rfl isRead
  · exact isPrintable_of_readWithCategories "replace category with" tight (fun _ => rfl)
      (fun _ => rfl) (fun _ => rfl) ((verbForms resolver).take 8) rfl rfl isRead
  · exact isPrintable_of_readApplySoundRule isByName tight isRead
  · exact (isVerbatim_of_readApplyRule isByName tight isRead).isPrintable tight again
  · exact isPrintable_of_readSoundChange isRead
  · exact (isVerbatim_of_readChangeClass isRead).isPrintable tight again

end

end Instruction

end Diachrony
