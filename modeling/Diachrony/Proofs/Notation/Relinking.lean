import Diachrony.Graph
import Diachrony.Proofs.Notation.Completeness

/-!
# Reading with other names

What a text is read as depends on the names of rules only where it refers to rules.
Wherever the rules that a logic refers to are found in the same way, its text is read as
this logic again.
-/
namespace Diachrony

open Text (after? before? squeeze trim)

variable {resolver other : Resolver}

/-- A table of rule names finds rules by their names. -/
theorem RuleNames.isByName_resolver (names : RuleNames) : names.resolver.IsByName := by
  intro name rule isFound
  obtain ⟨id, -, rfl⟩ := Option.map_eq_some_iff.mp isFound
  rfl

def RuleNames.AreApart (names : RuleNames) : Prop :=
  ∀ first ∈ names, ∀ second ∈ names, first.2 = second.2 → first.1 = second.1

theorem RuleNames.mem_of_resolver {names : RuleNames} {name : Text} {rule : RuleRef}
    (isFound : names.resolver name = some rule) : (name, rule.id) ∈ names := by
  obtain ⟨id, isListed, rfl⟩ := Option.map_eq_some_iff.mp isFound
  obtain ⟨front, back, rfl, -⟩ := List.lookup_eq_some_iff.mp isListed
  exact List.mem_append_right front List.mem_cons_self

/-- Where no two names share an id, a rule is listed under the name it was found by. -/
theorem RuleNames.nameOf?_of_resolver {names : RuleNames} (areApart : names.AreApart)
    {name : Text} {rule : RuleRef} (isFound : names.resolver name = some rule) :
    names.nameOf? rule.id = some name := by
  have isListed := mem_of_resolver isFound
  unfold nameOf?
  cases isFirst : names.find? fun entry => entry.2 == rule.id with
  | none =>
      have notListed := List.find?_eq_none.mp isFirst _ isListed
      exact absurd (beq_self_eq_true rule.id) notListed
  | some entry =>
      have sameId : entry.2 = rule.id := by simpa using List.find?_some isFirst
      exact congrArg some (areApart entry (List.mem_of_find?_eq_some isFirst) _ isListed sameId)

/-- A name gives the id of the rule that is found under it. -/
theorem Resolver.id_eq_ok {ε : Type} {fault : ε} {name : Text} {id : Int} :
    (match resolver name with
      | some rule => .ok rule.id
      | none => .error fault : Except ε Int) = .ok id ↔
      ∃ rule, resolver name = some rule ∧ rule.id = id := by
  cases resolver name with
  | none => simp
  | some rule => simp

def Resolver.Finds (resolver : Resolver) (names : List Text) (ids : List Int) : Prop :=
  List.Forall₂ (fun name id => ∃ rule, resolver name = some rule ∧ rule.id = id) names ids

theorem Resolver.Finds.exists_of_mem {names : List Text} {ids : List Int}
    (finds : resolver.Finds names ids) {name : Text} (isMember : name ∈ names) :
    ∃ rule, resolver name = some rule := by
  induction finds with
  | nil => cases isMember
  | cons isFound _ inductionHypothesis =>
      rcases List.mem_cons.mp isMember with rfl | isMember
      · obtain ⟨rule, isFound, -⟩ := isFound
        exact ⟨rule, isFound⟩
      · exact inductionHypothesis isMember

theorem RuleNames.mapM_nameOf? {names : RuleNames} (areApart : names.AreApart)
    {written : List Text} {ids : List Int} (finds : names.resolver.Finds written ids) :
    ids.mapM names.nameOf? = some written := by
  refine mapM_eq_pure (List.Forall₂.flip (finds.imp ?_))
  rintro name id ⟨rule, isFound, rfl⟩
  exact nameOf?_of_resolver areApart isFound

/-- A graph finds rules by their names. -/
theorem Graph.isByName_resolver (graph : Graph) : graph.resolver.IsByName := by
  intro name rule isFound
  obtain ⟨id, -, rfl⟩ := Option.map_eq_some_iff.mp isFound
  rfl

namespace Instruction

/-- Whether the rule that an instruction refers to, if any, is found under its name. -/
def IsFound (resolver : Resolver) (instruction : Instruction) : Prop :=
  ∀ rule, instruction.rule = some rule → resolver rule.name = some rule

/-- A form of the notation that asks for nothing but the rule it refers to. -/
structure Links (form : Resolver → Form) : Prop where
  found : ∀ {resolver line instruction}, resolver.IsByName →
    form resolver line = some (.ok instruction) → instruction.IsFound resolver
  passes : ∀ {resolver other line}, form resolver line = none → form other line = none
  again : ∀ {resolver other line instruction}, resolver.IsByName →
    form resolver line = some (.ok instruction) → instruction.IsFound other →
      form other line = some (.ok instruction)

/-- A form that refers to no rule. -/
theorem links_of_completesAlone {form : Form} (completes : CompletesAlone form) :
    Links fun _ => form where
  found := by
    intro resolver line instruction _ gave rule isRule
    rw [(completes line instruction gave).2] at isRule
    cases isRule
  passes := fun isNone => isNone
  again := fun _ gave _ => gave

theorem isFound_iff {instruction : Instruction} {rule : RuleRef}
    (isRule : instruction.rule = some rule) :
    instruction.IsFound resolver ↔ resolver rule.name = some rule := by
  constructor
  · intro isFound
    exact isFound rule isRule
  · intro isFound found isFoundRule
    cases isRule.symm.trans isFoundRule
    exact isFound

theorem links_readApplyRule : Links readApplyRule where
  found := by
    intro resolver line instruction isByName gave
    obtain ⟨rest, -, gave⟩ := Option.bind_eq_some_iff.mp gave
    obtain ⟨name, -, gave⟩ := Except.bind_eq_ok.mp (Option.some.inj gave)
    obtain ⟨rule, isRule, gave⟩ := Except.bind_eq_ok.mp gave
    cases gave
    have isFound := resolve_eq_ok.mp isRule
    rw [isFound_iff rfl, isByName name rule isFound, isFound]
  passes := by
    intro resolver other line isNone
    cases isLed : after? "apply rule " line with
    | none =>
        unfold readApplyRule
        rw [isLed]
        rfl
    | some rest =>
        unfold readApplyRule at isNone
        rw [isLed] at isNone
        cases isNone
  again := by
    intro resolver other line instruction isByName gave isFound
    obtain ⟨rest, isLed, gave⟩ := Option.bind_eq_some_iff.mp gave
    obtain ⟨name, isName, gave⟩ := Except.bind_eq_ok.mp (Option.some.inj gave)
    obtain ⟨rule, isRule, gave⟩ := Except.bind_eq_ok.mp gave
    cases gave
    rw [isFound_iff rfl, isByName name rule (resolve_eq_ok.mp isRule)] at isFound
    refine Option.bind_eq_some_iff.mpr ⟨rest, isLed, congrArg some ?_⟩
    exact Except.bind_eq_ok.mpr ⟨name, isName, Except.bind_eq_ok.mpr
      ⟨rule, resolve_eq_ok.mpr isFound, rfl⟩⟩

theorem links_readApplySoundRule : Links readApplySoundRule where
  found := by
    intro resolver line instruction isByName gave
    obtain ⟨⟨name, rest⟩, -, gave⟩ := Option.bind_eq_some_iff.mp gave
    obtain ⟨place, -, gave⟩ := Option.bind_eq_some_iff.mp gave
    split at gave
    · cases gave
    · obtain ⟨rule, isRule, gave⟩ := Except.bind_eq_ok.mp (Option.some.inj gave)
      obtain ⟨place, -, gave⟩ := Except.bind_eq_ok.mp gave
      cases gave
      have isFound := resolve_eq_ok.mp isRule
      rw [isFound_iff rfl, isByName name rule isFound, isFound]
  passes := by
    intro resolver other line isNone
    unfold readApplySoundRule at isNone ⊢
    cases isQuoted : (after? "apply sound rule " line).bind cutQuoted? with
    | none => rfl
    | some parts =>
        rw [isQuoted] at isNone
        obtain ⟨name, rest⟩ := parts
        change ((after? " to " rest).bind _) = none at isNone
        change ((after? " to " rest).bind _) = none
        cases isBehind : after? " to " rest with
        | none => rfl
        | some place =>
            rw [isBehind, Option.bind_some] at isNone
            rw [Option.bind_some]
            split at isNone
            · rename_i isEmpty
              rw [if_pos isEmpty]
            · cases isNone
  again := by
    intro resolver other line instruction isByName gave isFound
    obtain ⟨⟨name, rest⟩, isQuoted, gave⟩ := Option.bind_eq_some_iff.mp gave
    obtain ⟨place, isBehind, gave⟩ := Option.bind_eq_some_iff.mp gave
    split at gave
    · cases gave
    · rename_i isSome
      obtain ⟨rule, isRule, gave⟩ := Except.bind_eq_ok.mp (Option.some.inj gave)
      obtain ⟨target, isTarget, gave⟩ := Except.bind_eq_ok.mp gave
      cases gave
      rw [isFound_iff rfl, isByName name rule (resolve_eq_ok.mp isRule)] at isFound
      refine Option.bind_eq_some_iff.mpr ⟨(name, rest), isQuoted,
        Option.bind_eq_some_iff.mpr ⟨place, isBehind, ?_⟩⟩
      rw [if_neg isSome]
      exact congrArg some (Except.bind_eq_ok.mpr ⟨rule, resolve_eq_ok.mpr isFound,
        Except.bind_eq_ok.mpr ⟨target, isTarget, rfl⟩⟩)

/-- The forms of the notation before it is known how rules are found. -/
def linkedForms : List (Resolver → Form) :=
  [fun _ => readPhrase, fun _ => readWithLiteral "new sound is " .changeSound,
    fun _ => readWithLiteral "change ending to " .changeEnding, fun _ => readAttach .after "append ",
    fun _ => readAttach .before "prepend ", fun _ => readInsert, fun _ => readStress,
    fun _ => readMarkClass, fun _ => readWithCategories "add category " .addCategory,
    fun _ => readWithCategories "replace category with " .replaceCategory, readApplySoundRule,
    readApplyRule, fun _ => readSoundChange, fun _ => readChangeClass]

theorem forms_eq_linked (resolver : Resolver) :
    forms resolver = linkedForms.map fun form => form resolver := rfl

theorem links_of_mem : ∀ form ∈ linkedForms, Links form := by
  simp only [linkedForms, List.forall_mem_cons, List.not_mem_nil, false_implies, implies_true,
    and_true]
  exact ⟨links_of_completesAlone completesAlone_readPhrase,
    links_of_completesAlone (completesAlone_readWithLiteral _ .changeSound),
    links_of_completesAlone (completesAlone_readWithLiteral _ .changeEnding),
    links_of_completesAlone (completesAlone_readAttach _ _),
    links_of_completesAlone (completesAlone_readAttach _ _),
    links_of_completesAlone completesAlone_readInsert,
    links_of_completesAlone completesAlone_readStress,
    links_of_completesAlone completesAlone_readMarkClass,
    links_of_completesAlone (completesAlone_readWithCategories _ .addCategory),
    links_of_completesAlone (completesAlone_readWithCategories _ .replaceCategory),
    links_readApplySoundRule, links_readApplyRule,
    links_of_completesAlone completesAlone_readSoundChange,
    links_of_completesAlone completesAlone_readChangeClass⟩

theorem findSome?_again (other : Resolver) {forms : List (Resolver → Form)}
    (areLinked : ∀ form ∈ forms, Links form)
    (isByName : resolver.IsByName) {line : Text} {instruction : Instruction}
    (gave : (forms.map fun form => form resolver).findSome? (fun form => form line) =
      some (.ok instruction)) :
    instruction.IsFound resolver ∧
      (instruction.IsFound other →
        (forms.map fun form => form other).findSome? (fun form => form line) =
          some (.ok instruction)) := by
  induction forms with
  | nil => cases gave
  | cons form forms inductionHypothesis =>
      obtain ⟨isLinked, areLinked⟩ := List.forall_mem_cons.mp areLinked
      rw [List.map_cons, List.findSome?_cons] at gave
      rw [List.map_cons, List.findSome?_cons]
      cases isForm : form resolver line with
      | none =>
          rw [isForm] at gave
          rw [isLinked.passes isForm]
          exact inductionHypothesis areLinked gave
      | some result =>
          rw [isForm] at gave
          cases gave
          refine ⟨isLinked.found isByName isForm, fun isFound => ?_⟩
          rw [isLinked.again isByName isForm isFound]

/-- An instruction is read again wherever the rule that it refers to is found. -/
theorem read_again (other : Resolver) (isByName : resolver.IsByName) {text : Text} {instruction : Instruction}
    (gave : read resolver text = .ok instruction) :
    instruction.IsFound resolver ∧
      (instruction.IsFound other → read other text = .ok instruction) := by
  unfold read at gave ⊢
  rw [forms_eq_linked] at gave ⊢
  dsimp only at gave ⊢
  cases isResult : (linkedForms.map fun form => form resolver).findSome?
      (fun form => form (squeeze text)) with
  | none =>
      rw [isResult] at gave
      cases gave
  | some result =>
      rw [isResult, Option.getD_some] at gave
      subst gave
      have isAgain := findSome?_again other links_of_mem isByName isResult
      refine ⟨isAgain.1, fun isFound => ?_⟩
      rw [isAgain.2 isFound]
      rfl

end Instruction

namespace Logic

namespace Draft

/-- What one line makes of a draft: it reads at most one instruction, and the draft keeps
what it had. -/
theorem readLine_again (other : Resolver) (isByName : resolver.IsByName) {draft after : Draft}
    {number : Nat} {line : Text} (gave : draft.readLine resolver number line = .ok after) :
    draft.instructions ⊆ after.instructions ∧
      (∀ instruction ∈ after.instructions,
        instruction ∈ draft.instructions ∨ instruction.IsFound resolver) ∧
      ((∀ instruction ∈ after.instructions, instruction.IsFound other) →
        draft.readLine other number line = .ok after) := by
  unfold readLine at gave ⊢
  split at gave
  · cases gave
    exact ⟨fun _ isMember => isMember, fun _ isMember => .inl isMember, fun _ => rfl⟩
  · obtain ⟨instruction, isInstruction, gave⟩ := Except.bind_eq_ok.mp gave
    cases gave
    obtain ⟨isFound, isAgain⟩ := Instruction.read_again other isByName isInstruction
    refine ⟨fun _ isMember => mem_instructions_addInstruction.mpr (.inr isMember),
      fun found isMember => ?_, fun areFound => ?_⟩
    · rcases mem_instructions_addInstruction.mp isMember with rfl | isMember
      · exact .inr isFound
      · exact .inl isMember
    · have isFoundAgain := areFound instruction (mem_instructions_addInstruction.mpr (.inl rfl))
      exact Except.bind_eq_ok.mpr ⟨instruction, isAgain isFoundAgain, rfl⟩
  · rename_i notComment notInstruction
    have isOpened : draft.instructions ⊆ after.instructions ∧
        ∀ instruction ∈ after.instructions,
          instruction ∈ draft.instructions ∨ instruction.IsFound resolver := by
      split at gave
      · cases gave
      · split at gave
        · cases gave
        · obtain ⟨condition, -, gave⟩ := Except.bind_eq_ok.mp gave
          cases gave
          exact ⟨fun _ isMember => isMember, fun _ isMember => .inl isMember⟩
    exact ⟨isOpened.1, isOpened.2, fun _ => gave⟩

theorem outline_again (other : Resolver) (isByName : resolver.IsByName) {draft after : Draft}
    {lines : List Text} (gave : draft.outline? resolver lines = some after) :
    draft.instructions ⊆ after.instructions ∧
      (∀ instruction ∈ after.instructions,
        instruction ∈ draft.instructions ∨ instruction.IsFound resolver) ∧
      ((∀ instruction ∈ after.instructions, instruction.IsFound other) →
        draft.outline? other lines = some after) := by
  induction lines generalizing draft with
  | nil =>
      cases gave
      exact ⟨fun _ isMember => isMember, fun _ isMember => .inl isMember, fun _ => rfl⟩
  | cons line lines inductionHypothesis =>
      rw [outline?] at gave ⊢
      split at gave
      · rename_i isBlank
        rw [if_pos isBlank]
        exact inductionHypothesis gave
      · rename_i isSome
        rw [if_neg isSome]
        obtain ⟨next, isNext, gave⟩ := Option.bind_eq_some_iff.mp gave
        have isNext := Except.toOption_eq_some.mp isNext
        obtain ⟨fewer, areFound, isAgain⟩ := readLine_again other isByName isNext
        obtain ⟨fewerLater, areFoundLater, isAgainLater⟩ := inductionHypothesis gave
        refine ⟨List.Subset.trans fewer fewerLater, fun instruction isMember => ?_, fun areOthers => ?_⟩
        · rcases areFoundLater instruction isMember with isMember | isFound
          · exact areFound instruction isMember
          · exact .inr isFound
        · rw [isAgain fun instruction isMember => areOthers instruction (fewerLater isMember)]
          exact isAgainLater areOthers

end Draft

theorem isFound_of_ruleRefs {logic : Logic}
    (areFound : ∀ rule ∈ logic.ruleRefs, resolver rule.name = some rule) :
    ∀ instruction ∈ logic.instructions, instruction.IsFound resolver :=
  fun instruction isMember rule isRule =>
    areFound rule (List.mem_filterMap.mpr ⟨instruction, isMember, isRule⟩)

/-- The rules that a logic refers to are the ones that were found under their names. -/
theorem found_of_read (isByName : resolver.IsByName) {text : Text} {logic : Logic}
    (gave : read resolver text = .ok logic) :
    ∀ rule ∈ logic.ruleRefs, resolver rule.name = some rule := by
  intro rule isMember
  obtain ⟨instruction, isInstruction, isRule⟩ := List.mem_filterMap.mp isMember
  obtain ⟨draft, isDraft, rfl, -⟩ := read_eq_ok.mp gave
  have isFound := (Draft.outline_again resolver isByName isDraft).2.1 instruction
    (Draft.mem_instructions_logic.mp isInstruction)
  rcases isFound with isMember | isFound
  · cases isMember
  · exact isFound rule isRule

/-- A text is read as the same logic wherever the rules that the logic refers to are found
in the same way. -/
theorem read_again (isByName : resolver.IsByName) {text : Text} {logic : Logic}
    (gave : read resolver text = .ok logic)
    (areFound : ∀ rule ∈ logic.ruleRefs, other rule.name = some rule) :
    read other text = .ok logic := by
  obtain ⟨draft, isDraft, rfl, areFit⟩ := read_eq_ok.mp gave
  refine read_eq_ok.mpr ⟨draft, ?_, rfl, areFit⟩
  refine (Draft.outline_again other isByName isDraft).2.2 fun instruction isMember => ?_
  exact isFound_of_ruleRefs areFound instruction (Draft.mem_instructions_logic.mpr isMember)

/-- What is read where fewer names are known is what is read where more are known. -/
theorem read_mono (isByName : resolver.IsByName)
    (more : ∀ name rule, resolver name = some rule → other name = some rule) {text : Text}
    {logic : Logic} (gave : read resolver text = .ok logic) : read other text = .ok logic :=
  read_again isByName gave fun rule isMember =>
    more rule.name rule (found_of_read isByName gave rule isMember)

end Logic

end Diachrony
