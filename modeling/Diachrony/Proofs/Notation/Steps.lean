import Diachrony.Sequence
import Diachrony.Proofs.Notation.Relinking

/-!
# Steps, one a line

A line of a written sequence names the rules of a step between bars, and a mark at its end
says how much the step matters.  Nothing else is read of it: not the blanks around the
names, nor the number of the line, nor the lines that hold no step.

So what is printed of a step is read as that step again, if the mark can be told from the
names it stands behind: no name ends with a question mark itself.
-/
namespace Diachrony.SequenceStep

open Text (before? trim trimEnd splitAt joinWith endsWith isBlank isLineBreak)

variable {resolver : Resolver} {step : SequenceStep}

def namesIn (line : Text) : List Text := (splitAt '|' (cutMark line).1).map trim

/-- A line is read as what its mark says of the rules that its names are found to be. -/
theorem read_eq_ok {line : Text} :
    read resolver line = .ok step ↔
      (cutMark line).2 = (step.optional, step.dispreferred) ∧ [] ∉ namesIn line ∧
        resolver.Finds (namesIn line) step.rules := by
  obtain ⟨primary, alternative?, isOptional, isDispreferred⟩ := step
  unfold read namesIn Resolver.Finds rules
  obtain ⟨written, optional, dispreferred⟩ := cutMark line
  dsimp only
  generalize (splitAt '|' written).map trim = names
  have anyEmpty : names.any List.isEmpty = true ↔ [] ∈ names := by
    simp only [List.any_eq_true, List.isEmpty_iff, exists_eq_right]
  by_cases isMissing : [] ∈ names
  · rw [if_pos (anyEmpty.mpr isMissing)]
    exact iff_of_false (fun gave => nomatch gave) fun ⟨_, areSome, _⟩ => areSome isMissing
  · rw [if_neg (anyEmpty.not.mpr isMissing), and_iff_right isMissing]
    match names with
    | [] => exact iff_of_false (fun gave => nomatch gave) fun ⟨_, named⟩ => nomatch named
    | [name] =>
        constructor
        · intro gave
          obtain ⟨first, isFound, same⟩ := Except.bind_eq_ok.mp gave
          cases same
          exact ⟨rfl, .cons (Resolver.id_eq_ok.mp isFound) .nil⟩
        · rintro ⟨same, _ | ⟨isFound, rest⟩⟩
          cases same
          cases alternative? with
          | none => exact Except.bind_eq_ok.mpr ⟨_, Resolver.id_eq_ok.mpr isFound, rfl⟩
          | some id => cases rest
    | [name, alternative] =>
        constructor
        · intro gave
          obtain ⟨first, isFound, gave⟩ := Except.bind_eq_ok.mp gave
          obtain ⟨second, isAlternative, same⟩ := Except.bind_eq_ok.mp gave
          cases same
          exact ⟨rfl, .cons (Resolver.id_eq_ok.mp isFound)
            (.cons (Resolver.id_eq_ok.mp isAlternative) .nil)⟩
        · rintro ⟨same, _ | ⟨isFound, rest⟩⟩
          cases same
          cases alternative? with
          | none => cases rest
          | some id =>
              obtain _ | ⟨isAlternative, -⟩ := rest
              exact Except.bind_eq_ok.mpr ⟨_, Resolver.id_eq_ok.mpr isFound,
                Except.bind_eq_ok.mpr ⟨_, Resolver.id_eq_ok.mpr isAlternative, rfl⟩⟩
    | name :: alternative :: other :: names =>
        refine iff_of_false (fun gave => nomatch gave) ?_
        rintro ⟨-, _ | ⟨_, rest⟩⟩
        cases alternative? with
        | none => cases rest
        | some id => exact nomatch rest

/-- The lines of a text that hold steps, without the blanks around them. -/
def stepLines (text : Text) : List Text :=
  ((Text.lines text).map trim).filter fun line => !isSkipped line

/-- The steps of a sequence are read line by line. -/
theorem readAll_eq_ok {sequence : Data} {text : Text} {steps : List SequenceStep} :
    readAll resolver sequence text = .ok steps ↔
      (stepLines text).mapM (read resolver) = .ok steps := by
  have sameLines : stepLines text =
      (((Text.numberedLines text).map fun numbered => (numbered.1, trim numbered.2)).filter
        fun numbered => !isSkipped numbered.2).map Prod.snd := by
    unfold stepLines
    rw [← Text.numberedLines_snd, List.map_map, List.filter_map, List.filter_map, List.map_map]
    rfl
  rw [readAll, sameLines, Except.mapM_eq_ok_iff, Except.mapM_eq_ok_iff, List.forall₂_map_left_iff]
  simp only [Except.mapError_eq_ok]

theorem optional_or_dispreferred_of_cutMark {line : Text}
    (isCut : (cutMark line).2 = (step.optional, step.dispreferred)) :
    step.optional = false ∨ step.dispreferred = false := by
  unfold cutMark at isCut
  split at isCut
  · exact .inl (Prod.mk.inj isCut).1.symm
  · split at isCut <;> exact .inr (Prod.mk.inj isCut).2.symm

/-- What stands in front of a mark is a beginning of the line. -/
theorem exists_append_of_cutMark (line : Text) : ∃ back, line = (cutMark line).1 ++ back := by
  have isEnd : ∀ names : Text, ∃ back, names = trimEnd names ++ back := fun names =>
    ⟨List.rtakeWhile isBlank names, List.rdropWhile_append_rtakeWhile.symm⟩
  have isMarked : ∀ mark names : Text, before? mark line = some names →
      ∃ back, line = trimEnd names ++ back := by
    intro mark names isCut
    obtain ⟨back, whole⟩ := isEnd names
    exact ⟨back ++ mark, by rw [← List.append_assoc, ← whole, Text.before?_eq_some.mp isCut]⟩
  unfold cutMark
  split
  · exact isMarked _ _ ‹_›
  · split
    · exact isMarked _ _ ‹_›
    · exact ⟨[], (List.append_nil line).symm⟩

/-- A mark is taken off the names that it stands behind, if these end with none. -/
theorem cutMark_append_mark {names : Text} (unmarked : endsWith "?" names = false)
    (trimmed : trimEnd names = names)
    (notBoth : step.optional = false ∨ step.dispreferred = false) :
    cutMark (names ++ step.mark) = (names, step.optional, step.dispreferred) := by
  have notLast : ∀ rest, names ≠ rest ++ ['?'] := by
    rintro rest rfl
    rw [endsWith, show before? "?" (rest ++ ['?']) = some rest from Text.before?_append rest _]
      at unmarked
    cases unmarked
  have noMark : before? "?" names = none := by
    simpa [endsWith] using unmarked
  unfold cutMark mark
  cases isDispreferred : step.dispreferred with
  | true =>
      have notOptional := notBoth.resolve_right (by simp [isDispreferred])
      rw [if_pos rfl, Text.before?_append, notOptional]
      dsimp only
      rw [trimmed]
  | false =>
      rw [if_neg Bool.false_ne_true]
      cases step.optional with
      | true =>
          have notDispreferred : before? "??" (names ++ ['?']) = none := by
            rw [Option.eq_none_iff_forall_ne_some]
            intro rest isCut
            have whole : names ++ ['?'] = (rest ++ ['?']) ++ ['?'] := by
              simpa using Text.before?_eq_some.mp isCut
            exact notLast rest (List.append_cancel_right whole)
          rw [if_pos rfl, show "?".toList = ['?'] from rfl, notDispreferred, Text.before?_append]
          dsimp only
          rw [trimmed]
      | false =>
          have notDispreferred : before? "??" names = none := by
            rw [Option.eq_none_iff_forall_ne_some]
            intro rest isCut
            have whole : names = (rest ++ ['?']) ++ ['?'] := by
              simpa using Text.before?_eq_some.mp isCut
            exact notLast _ whole
          rw [if_neg Bool.false_ne_true, show "".toList = [] from rfl, List.append_nil,
            notDispreferred, noMark]

/-- A name as it stands in a line: it can be told from the bars, the blanks and the marks
around it. -/
structure IsLegible (name : Text) : Prop where
  isSome : name ≠ []
  trimmed : trim name = name
  noBar : '|' ∉ name
  oneLine : ∀ char ∈ name, isLineBreak char = false
  unmarked : endsWith "?" name = false

/-- Names that can be a line: each of them is legible, and the first one opens no comment. -/
structure MakeLine (names : List Text) : Prop where
  areSome : names ≠ []
  areLegible : ∀ name ∈ names, IsLegible name
  noComment : ∀ name ∈ names.head?, name.head? ≠ some '#'

theorem mem_of_mem_namesIn {line name : Text} (isName : name ∈ namesIn line) :
    ∀ char ∈ name, char ∈ line ∧ char ≠ '|' := by
  obtain ⟨piece, isPiece, rfl⟩ := List.mem_map.mp isName
  obtain ⟨back, whole⟩ := exists_append_of_cutMark line
  intro char isMember
  obtain ⟨notBar, inLine⟩ := Text.of_mem_pieces isPiece char (Text.mem_of_mem_trim isMember)
  rw [whole]
  exact ⟨List.mem_append_left back inLine, by simpa using notBar⟩

/-- The first name of a line opens as the line does. -/
theorem head?_of_mem_namesIn {line name : Text} (trimmed : trim line = line)
    (areSome : [] ∉ namesIn line) (isFirst : name ∈ (namesIn line).head?) :
    name.head? = line.head? := by
  obtain ⟨back, whole⟩ := exists_append_of_cutMark line
  unfold namesIn at areSome isFirst
  cases isCut : (cutMark line).1 with
  | nil =>
      rw [isCut] at areSome
      exact absurd (List.mem_singleton.mpr rfl) areSome
  | cons char written =>
      rw [isCut] at whole areSome isFirst
      have solid : isBlank char = false := Text.head_trim_solid (by rw [trimmed, whole]; rfl)
      rw [splitAt, Text.pieces] at areSome isFirst
      split at isFirst
      · rename_i isBar
        rw [if_pos isBar] at areSome
        exact absurd List.mem_cons_self areSome
      · rw [whole]
        split at isFirst <;> cases isFirst <;> rw [Text.trim_cons_of_solid solid] <;> rfl

theorem makeLine_namesIn {line : Text} (trimmed : trim line = line)
    (isStep : isSkipped line = false) (oneLine : ∀ char ∈ line, isLineBreak char = false)
    (areSome : [] ∉ namesIn line)
    (unmarked : ∀ name ∈ namesIn line, endsWith "?" name = false) : MakeLine (namesIn line) where
  areSome := by
    unfold namesIn splitAt
    simpa using Text.pieces_ne_nil _ _
  areLegible name isName := {
    isSome := fun isNone => areSome (isNone ▸ isName)
    trimmed := by
      obtain ⟨piece, -, rfl⟩ := List.mem_map.mp isName
      exact Text.trim_trim piece
    noBar := fun isBar => (mem_of_mem_namesIn isName '|' isBar).2 rfl
    oneLine := fun char isMember => oneLine char (mem_of_mem_namesIn isName char isMember).1
    unmarked := unmarked name isName }
  noComment name isFirst := by
    rw [head?_of_mem_namesIn trimmed areSome isFirst]
    rw [isSkipped, Bool.or_eq_false_iff] at isStep
    simpa using isStep.2

/-- What is printed of a step is a line of its own, and is read as this step. -/
structure IsLineOf (names : RuleNames) (line : Text) (step : SequenceStep) : Prop where
  printed : step.print names.nameOf? = some line
  isRead : read names.resolver line = .ok step
  trimmed : trim line = line
  isStep : isSkipped line = false
  oneLine : ∀ char ∈ line, isLineBreak char = false

theorem MakeLine.getLast? {names : List Text} (makeLine : MakeLine names) :
    ∃ char, (joinWith ['|'] names).getLast? = some char ∧ isBlank char = false ∧ char ≠ '?' := by
  have isLast := List.getLast?_eq_some_getLast makeLine.areSome
  generalize names.getLast _ = name at isLast
  have isLegible := makeLine.areLegible name (List.mem_of_getLast? isLast)
  have isLastChar := List.getLast?_eq_some_getLast isLegible.isSome
  generalize name.getLast _ = char at isLastChar
  refine ⟨char, ?_, ?_, ?_⟩
  · rw [Text.getLast?_joinWith ['|'] isLast isLegible.isSome, isLastChar]
  · exact Text.last_trim_solid (by rw [isLegible.trimmed, isLastChar])
  · rintro rfl
    have isMarked := Text.endsWith_singleton.mpr isLastChar
    exact absurd (isLegible.unmarked.symm.trans isMarked) Bool.false_ne_true

theorem MakeLine.head? {names : List Text} (makeLine : MakeLine names) :
    ∃ char, (joinWith ['|'] names).head? = some char ∧ isBlank char = false ∧ char ≠ '#' := by
  cases names with
  | nil => exact absurd rfl makeLine.areSome
  | cons name names =>
      have isLegible := makeLine.areLegible name List.mem_cons_self
      obtain ⟨char, isFirst⟩ := Option.isSome_iff_exists.mp (List.isSome_head?.mpr isLegible.isSome)
      refine ⟨char, ?_, ?_, ?_⟩
      · rw [Text.head?_joinWith ['|'] isLegible.isSome, isFirst]
      · exact Text.head_trim_solid (by rw [isLegible.trimmed, isFirst])
      · rintro rfl
        exact makeLine.noComment name rfl isFirst

theorem mem_mark {char : Char} (isMember : char ∈ step.mark) : char = '?' := by
  unfold mark at isMember
  split at isMember
  · simpa using isMember
  · split at isMember
    · simpa using isMember
    · cases isMember

section

variable {written : List Text} (makeLine : MakeLine written)

include makeLine

theorem MakeLine.cutMark_append (notBoth : step.optional = false ∨ step.dispreferred = false) :
    cutMark (joinWith ['|'] written ++ step.mark) =
      (joinWith ['|'] written, step.optional, step.dispreferred) := by
  obtain ⟨last, isLast, lastSolid, notMark⟩ := makeLine.getLast?
  refine cutMark_append_mark ?_ ?_ notBoth
  · rw [← Bool.not_eq_true, show "?".toList = ['?'] from rfl, Text.endsWith_singleton, isLast,
      Option.some.injEq]
    exact notMark
  · exact Text.trimEnd_of_solid fun char isChar => by
      rw [isLast, Option.some.injEq] at isChar
      rwa [← isChar]

theorem MakeLine.namesIn_append (notBoth : step.optional = false ∨ step.dispreferred = false) :
    namesIn (joinWith ['|'] written ++ step.mark) = written := by
  unfold namesIn
  rw [makeLine.cutMark_append notBoth, Text.splitAt_joinWith makeLine.areSome fun name isName =>
    (makeLine.areLegible name isName).noBar]
  exact (List.map_congr_left fun name isName =>
    (makeLine.areLegible name isName).trimmed).trans (List.map_id written)

theorem MakeLine.trim_append :
    trim (joinWith ['|'] written ++ step.mark) = joinWith ['|'] written ++ step.mark := by
  obtain ⟨first, isFirst, firstSolid, -⟩ := makeLine.head?
  obtain ⟨last, isLast, lastSolid, -⟩ := makeLine.getLast?
  refine Text.trim_of_solid (fun char isChar => ?_) fun char isChar => ?_
  · rw [List.head?_append, isFirst, Option.some_or, Option.some.injEq] at isChar
    rwa [← isChar]
  · rw [List.getLast?_append, isLast] at isChar
    cases isMark : step.mark.getLast? with
    | none =>
        rw [isMark, Option.none_or, Option.some.injEq] at isChar
        rwa [← isChar]
    | some mark =>
        rw [isMark, Option.some_or, Option.some.injEq] at isChar
        rw [← isChar, mem_mark (List.mem_of_getLast? isMark)]
        decide

theorem MakeLine.isSkipped_append :
    isSkipped (joinWith ['|'] written ++ step.mark) = false := by
  obtain ⟨first, isFirst, -, notHash⟩ := makeLine.head?
  have isHead : (joinWith ['|'] written ++ step.mark).head? = some first := by
    rw [List.head?_append, isFirst, Option.some_or]
  have isSome := List.ne_nil_of_mem (List.mem_of_mem_head? isHead)
  rw [isSkipped, isHead, List.isEmpty_eq_false_iff.mpr isSome]
  simpa using notHash

theorem MakeLine.oneLine_append :
    ∀ char ∈ joinWith ['|'] written ++ step.mark, isLineBreak char = false := by
  intro char isMember
  rcases List.mem_append.mp isMember with isMember | isMember
  · rcases Text.mem_joinWith isMember with isBar | ⟨name, isName, isMember⟩
    · rw [List.mem_singleton.mp isBar]
      decide
    · exact (makeLine.areLegible name isName).oneLine char isMember
  · rw [mem_mark isMember]
    decide

/-- The printed line of a step with legible names. -/
theorem isLineOf_joinWith {names : RuleNames} (areApart : names.AreApart)
    (finds : names.resolver.Finds written step.rules)
    (notBoth : step.optional = false ∨ step.dispreferred = false) :
    IsLineOf names (joinWith ['|'] written ++ step.mark) step where
  printed := by
    rw [print, RuleNames.mapM_nameOf? areApart finds]
    rfl
  isRead := by
    rw [read_eq_ok, makeLine.cutMark_append notBoth, makeLine.namesIn_append notBoth]
    exact ⟨rfl, fun isName => (makeLine.areLegible [] isName).isSome rfl, finds⟩
  trimmed := makeLine.trim_append
  isStep := makeLine.isSkipped_append
  oneLine := makeLine.oneLine_append

end

/-- A step that was read of a line has a line of its own. -/
theorem exists_isLineOf {names : RuleNames} (areApart : names.AreApart)
    (unmarked : ∀ entry ∈ names, endsWith "?" entry.1 = false) {text line : Text}
    (isLine : line ∈ stepLines text) (isRead : read names.resolver line = .ok step) :
    ∃ printed, IsLineOf names printed step := by
  obtain ⟨isLine, isStep⟩ := List.mem_filter.mp isLine
  obtain ⟨raw, isRaw, rfl⟩ := List.mem_map.mp isLine
  obtain ⟨isCut, areSome, finds⟩ := read_eq_ok.mp isRead
  have makeLine : MakeLine (namesIn (trim raw)) := by
    refine makeLine_namesIn (Text.trim_trim raw) (by simpa using isStep)
      (fun char isMember => Text.whole_of_mem_lines isRaw char (Text.mem_of_mem_trim isMember))
      areSome fun name isName => ?_
    obtain ⟨rule, isFound⟩ := finds.exists_of_mem isName
    exact unmarked _ (RuleNames.mem_of_resolver isFound)
  exact ⟨_, isLineOf_joinWith makeLine areApart finds (optional_or_dispreferred_of_cutMark isCut)⟩

theorem exists_lines {names : RuleNames} {steps : List SequenceStep}
    (eachHas : ∀ step ∈ steps, ∃ line, IsLineOf names line step) :
    ∃ lines, List.Forall₂ (fun step line => IsLineOf names line step) steps lines := by
  induction steps with
  | nil => exact ⟨[], .nil⟩
  | cons step steps inductionHypothesis =>
      obtain ⟨⟨line, isLine⟩, eachHas⟩ := List.forall_mem_cons.mp eachHas
      obtain ⟨lines, areLines⟩ := inductionHypothesis eachHas
      exact ⟨line :: lines, .cons isLine areLines⟩

/-- Lines of steps are lines of what they make, and each of them holds its step. -/
theorem stepLines_joinWith {names : RuleNames} {steps : List SequenceStep} {lines : List Text}
    (areLines : List.Forall₂ (fun step line => IsLineOf names line step) steps lines) :
    stepLines (joinWith ['\n'] lines) = lines := by
  have eachIsLine : ∀ line ∈ lines, ∃ step, IsLineOf names line step := by
    induction areLines with
    | nil => exact fun _ isMember => nomatch isMember
    | cons isLine _ inductionHypothesis =>
        exact List.forall_mem_cons.mpr ⟨⟨_, isLine⟩, inductionHypothesis⟩
  have areKept : ∀ line ∈ lines, trim line = line ∧ isSkipped line = false := by
    intro line isMember
    obtain ⟨step, isLine⟩ := eachIsLine line isMember
    exact ⟨isLine.trimmed, isLine.isStep⟩
  have sameLines : Text.lines (joinWith ['\n'] lines) = lines := by
    refine Text.lines_joinWith (fun line isMember => ?_) fun isLast => ?_
    · obtain ⟨step, isLine⟩ := eachIsLine line isMember
      exact isLine.oneLine
    · have notStep := (areKept [] (List.mem_of_getLast? isLast)).2
      cases notStep
  unfold stepLines
  rw [sameLines, List.map_congr_left (fun line isMember => (areKept line isMember).1), List.map_id',
    List.filter_eq_self]
  intro line isMember
  rw [(areKept line isMember).2]
  rfl

/-- Where no two names share an id and none ends with a question mark, the steps of a sequence
that was read can be printed, and what is printed is read as these steps again. -/
theorem readAll_printed_steps {names : RuleNames} (areApart : names.AreApart)
    (unmarked : ∀ entry ∈ names, endsWith "?" entry.1 = false) {sequence : Data} {text : Text}
    {steps : List SequenceStep} (areRead : readAll names.resolver sequence text = .ok steps) :
    ∃ printed, printAll names.nameOf? steps = some printed ∧
      ∀ other, readAll names.resolver other printed = .ok steps := by
  have eachHas : ∀ step ∈ steps, ∃ line, IsLineOf names line step := by
    intro step isMember
    obtain ⟨line, isLine, isRead⟩ :=
      Except.exists_of_mem_of_mapM (readAll_eq_ok.mp areRead) isMember
    exact exists_isLineOf areApart unmarked isLine isRead
  obtain ⟨lines, areLines⟩ := exists_lines eachHas
  have arePrinted : steps.mapM (print names.nameOf?) = some lines :=
    mapM_eq_pure (areLines.imp fun _ _ isLine => isLine.printed)
  refine ⟨joinWith ['\n'] lines, ?_, fun other => ?_⟩
  · rw [printAll, arePrinted]
    rfl
  · rw [readAll_eq_ok, stepLines_joinWith areLines, Except.mapM_eq_ok_iff]
    exact (areLines.imp fun _ _ isLine => isLine.isRead).flip

/-- Two rules, one of them with a blank in its name. -/
def finalNames : RuleNames := [("final w", 1), ("plural", 2)]

/-- A step with an alternative that may be left out, and one in reserve. -/
def finalSteps : List SequenceStep :=
  [{ rule := 1, alternative := some 2, optional := true }, { rule := 2, dispreferred := true }]

/-- A comment, an empty line, and blanks around the names. -/
def finalText : Text := "# early\n  final w |plural ?\n\n\tplural ??"

theorem readAll_printed_steps_finalSteps :
    finalNames.AreApart ∧ (∀ entry ∈ finalNames, endsWith "?" entry.1 = false) ∧
      readAll finalNames.resolver .null finalText = .ok finalSteps ∧
      ∃ printed, printAll finalNames.nameOf? finalSteps = some printed ∧
        ∀ other, readAll finalNames.resolver other printed = .ok finalSteps := by
  have areApart : finalNames.AreApart := by
    unfold RuleNames.AreApart
    decide
  have unmarked : ∀ entry ∈ finalNames, endsWith "?" entry.1 = false := by
    decide
  have areRead : readAll finalNames.resolver .null finalText = .ok finalSteps := by
    rw [← Except.toOption_eq_some]
    decide +kernel
  exact ⟨areApart, unmarked, areRead, readAll_printed_steps areApart unmarked areRead⟩

end Diachrony.SequenceStep
