import Diachrony.Proofs.Graph.Additions

/-!
# The languages between which the steps of a sequence lead

The steps of a sequence are looked at one by one: each has to stay within the languages of the
sequence and may not lead back.  What this leaves open is whether a step starts where the one
in front of it has led.  Within one language it always does.  Between two languages it does
unless the step starts in the language that has been left already, or in the one that has not
been reached yet; so it may also with steps that are optional, or alternatives of each other.
-/
namespace Diachrony

namespace RuleSequence

/-- Whether two rules can be next to each other in a sequence.  Either the second one starts
where the first one leads; or, in a sequence that changes the language, it starts in the old
language when the new one is reached, or in the new one when the old one has not been left. -/
inductive Joins (sequence : RuleSequence) (former latter : Rule) : Prop
  | leadsOn : former.toLanguage = latter.fromLanguage → Joins sequence former latter
  | turnsBack : sequence.fromLanguage ≠ sequence.toLanguage →
      former.toLanguage = sequence.toLanguage → latter.fromLanguage = sequence.fromLanguage →
      Joins sequence former latter
  | skipsOver : sequence.fromLanguage ≠ sequence.toLanguage →
      former.fromLanguage = sequence.fromLanguage → former.toLanguage = sequence.fromLanguage →
      latter.fromLanguage = sequence.toLanguage → latter.toLanguage = sequence.toLanguage →
      Joins sequence former latter

variable {sequence : RuleSequence} {rule former latter : Rule}

def newRecord (sequence : RuleSequence) : Fields :=
  [("name", .text sequence.name), ("from_language", .text sequence.fromLanguage),
    ("to_language", .text sequence.toLanguage), ("id", .null)]

theorem fits_iff :
    sequence.fits rule = true ↔
      (rule.fromLanguage = sequence.fromLanguage ∨ rule.fromLanguage = sequence.toLanguage) ∧
      (rule.toLanguage = sequence.fromLanguage ∨ rule.toLanguage = sequence.toLanguage) ∧
      (sequence.fromLanguage ≠ sequence.toLanguage → rule.fromLanguage = sequence.toLanguage →
        rule.toLanguage = sequence.toLanguage) := by
  unfold fits
  simp only [List.contains_cons, List.contains_nil, Bool.or_false, Bool.and_eq_true,
    Bool.or_eq_true, beq_iff_eq, Bool.not_eq_true', and_assoc]
  refine and_congr_right fun isFrom => and_congr_right fun isTo => ?_
  rw [← Bool.not_eq_true]
  simp only [Bool.and_eq_true, bne_iff_ne, beq_iff_eq, not_and, and_imp]
  refine forall₂_congr fun differ isTarget => ⟨isTo.resolve_left, fun isTarget isSource => ?_⟩
  exact differ (isSource.symm.trans isTarget)

/-- Rules that fit a sequence each by itself can be next to each other. -/
theorem joins_of_fits (isFormer : sequence.fits former = true)
    (isLatter : sequence.fits latter = true) : sequence.Joins former latter := by
  obtain ⟨formerFrom, formerTo, -⟩ := fits_iff.mp isFormer
  obtain ⟨latterFrom, latterTo, latterOn⟩ := fits_iff.mp isLatter
  by_cases isOne : sequence.fromLanguage = sequence.toLanguage
  · rw [isOne, or_self] at formerTo latterFrom
    exact .leadsOn (formerTo.trans latterFrom.symm)
  rcases formerTo with formerTo | formerTo <;> rcases latterFrom with latterFrom | latterFrom
  · exact .leadsOn (formerTo.trans latterFrom.symm)
  · refine .skipsOver isOne (formerFrom.resolve_right fun isTarget => ?_) formerTo latterFrom
      (latterOn isOne latterFrom)
    exact isOne (formerTo.symm.trans ((fits_iff.mp isFormer).2.2 isOne isTarget))
  · exact .turnsBack isOne formerTo latterFrom
  · exact .leadsOn (formerTo.trans latterFrom.symm)

/-- What a sequence is given when it is added says nothing about its steps. -/
theorem steps_of_assignKnown {after : RuleSequence} {fields : Fields}
    (gave : Record.assignKnown known sequence fields = .ok after) :
    after.steps = sequence.steps := by
  refine Record.assignKnown_induction (fun found => found.steps = sequence.steps) rfl
    (fun before field next _ isKnown same => ?_) gave
  have isChoice := Record.mem_of_among isKnown
  simp only [List.mem_cons, Prod.mk.injEq, List.not_mem_nil, or_false] at isChoice
  rcases isChoice with ⟨-, gave⟩ | ⟨-, gave⟩ | ⟨-, gave⟩
  all_goals
    obtain ⟨given, -, isNext⟩ := Except.bind_eq_ok.mp gave.symm
    cases isNext
    exact same

end RuleSequence

namespace Edit

variable {graph after : Graph} {sequence : RuleSequence} {written : Written (List SequenceStep)}

/-- Steps are accepted when a sequence is added with them, or when it is given them in place of
those that it has. -/
inductive AcceptsSteps (graph : Graph) (written : Written (List SequenceStep))
    (sequence : RuleSequence) (after : Graph) : Prop
  | added (record : Fields) :
      (enterSequence (fun _ => .ok written) record).on graph = (.ok sequence, after) →
        AcceptsSteps graph written sequence after
  | updated (id : Int) :
      (updateSteps id written).on graph = (.ok sequence, after) →
        AcceptsSteps graph written sequence after

/-- A sequence is stored with the steps that were written, and each of them fits it. -/
structure HasGot (written : Written (List SequenceStep)) (sequence : RuleSequence)
    (after : Graph) : Prop where
  stored : ∃ id, after.sequences.get? id = some sequence
  steps : ∀ given, written = .value given → sequence.steps = given
  fit : ∀ step ∈ sequence.steps, step.FitsIn after sequence

theorem on_stepsOf_value {name : Data} {given steps : List SequenceStep}
    (gave : (stepsOf name (.value given)).on graph = (.ok steps, graph)) : steps = given :=
  (Except.ok.inj (congrArg Prod.fst gave)).symm

theorem hasGot_put {name : Data} {steps : List SequenceStep}
    (isWritten : (stepsOf name written).on graph = (.ok steps, graph))
    (isGiven : sequence.steps = steps) {nextId : Int}
    (areFit : ∀ step ∈ sequence.steps, step.FitsIn graph sequence) (id : Int) :
    HasGot written sequence
      { graph with nextId, sequences := graph.sequences.insert id sequence } where
  stored := ⟨id, (Table.get?_insert _ _ _ _).trans (if_pos rfl)⟩
  steps := by
    rintro given rfl
    exact isGiven.trans (on_stepsOf_value isWritten)
  fit := areFit

theorem yields_enterSequence_fit (record : Fields) :
    (enterSequence (fun _ => .ok written) record).Yields graph (HasGot written) := by
  refine yields_bind_lift fun name _ => yields_bind_lift fun _ _ => yields_bind_lift fun _ _ => ?_
  refine yields_bind_lift fun given isGiven => yields_bind_lift fun _ _ => ?_
  refine yields_bind_ask fun _ => yields_bind_ask fun _ => ?_
  refine yields_bind_ask fun _ => yields_bind_ask fun _ => ?_
  cases isGiven
  refine (onlyAsks_stepsOf _ _).yields_bind fun steps isWritten => ?_
  refine yields_bind_allocateFor fun id _ => yields_bind_lift fun name _ => ?_
  refine yields_bind_lift fun sequence isSequence => ?_
  refine (onlyAsks_checkSteps sequence).yields_bind fun _ isPassed => ?_
  have areFit := checkSteps_eq_ok.mp isPassed
  exact hasGot_put isWritten (RuleSequence.steps_of_assignKnown isSequence) areFit id

theorem yields_updateSteps_fit (id : Int) :
    (updateSteps id written).Yields graph (HasGot written) := by
  refine yields_bind_ask fun sequence => ?_
  refine (onlyAsks_stepsOf _ _).yields_bind fun steps isWritten => ?_
  refine (onlyAsks_checkSteps _).yields_bind fun _ isPassed => ?_
  exact hasGot_put isWritten rfl (checkSteps_eq_ok.mp isPassed) id

theorem AcceptsSteps.hasGot (accepts : AcceptsSteps graph written sequence after) :
    HasGot written sequence after := by
  cases accepts with
  | added record gave => exact (ends_iff.mp (yields_enterSequence_fit record)).1 _ _ gave
  | updated id gave => exact (ends_iff.mp (yields_updateSteps_fit id)).1 _ _ gave

/-- A sequence is given any steps that fit it. -/
theorem updateSteps_of_fit {id : Int} (isStored : graph.sequences.get? id = some sequence)
    {steps : List SequenceStep} (areFit : ∀ step ∈ steps, step.FitsIn graph sequence) :
    ∃ after, (updateSteps id (.value steps)).on graph = (.ok { sequence with steps }, after) := by
  refine ⟨{ graph with sequences := graph.sequences.insert id { sequence with steps } }, ?_⟩
  unfold updateSteps
  rw [(onlyAsks_ask _).on_bind_eq_ok]
  refine ⟨sequence, on_ask_eq_ok.mpr (found_iff.mpr isStored), ?_⟩
  rw [(onlyAsks_stepsOf _ _).on_bind_eq_ok]
  refine ⟨steps, rfl, ?_⟩
  dsimp only
  rw [(onlyAsks_checkSteps _).on_bind_eq_ok]
  exact ⟨(), checkSteps_eq_ok.mpr areFit, rfl⟩

/-- Another sequence between the same languages is added with any steps that fit it. -/
theorem enterSequence_of_fit (isFrom : graph.languages.contains sequence.fromLanguage = true)
    (isTo : graph.languages.contains sequence.toLanguage = true) {steps : List SequenceStep}
    (areFit : ∀ step ∈ steps, step.FitsIn graph sequence) :
    ∃ id after, (enterSequence (fun _ => .ok (.value steps)) sequence.newRecord).on graph =
      (.ok ⟨id, sequence.name, sequence.fromLanguage, sequence.toLanguage, steps, none, none⟩,
        after) := by
  let added : RuleSequence :=
    ⟨graph.nextId, sequence.name, sequence.fromLanguage, sequence.toLanguage, steps, none, none⟩
  obtain ⟨source, isSource⟩ := exists_language isFrom
  obtain ⟨target, isTarget⟩ := exists_language isTo
  have ends : (enterSequence (fun _ => .ok (.value steps)) sequence.newRecord).Ends graph
      (fun made _ => made = added) fun _ => False := by
    have areSteps : (stepsOf (.text sequence.name) (.value steps)).on graph =
        (.ok steps, graph) := rfl
    have isDescribed : Record.assignKnown RuleSequence.known added sequence.newRecord =
        .ok added := rfl
    have isName : Record.asText "name" (.text sequence.name) = .ok sequence.name := rfl
    have isNamed : Record.require sequence.newRecord "name" = .ok (.text sequence.name) := rfl
    have isSaid : Record.require sequence.newRecord "from_language" =
        .ok (.text sequence.fromLanguage) := rfl
    have isSaidTo : Record.require sequence.newRecord "to_language" =
        .ok (.text sequence.toLanguage) := rfl
    have isNull : Record.require sequence.newRecord "id" = .ok .null := rfl
    unfold enterSequence needField
    rw [ends_bind_lift isNamed, ends_bind_lift isSaid, ends_bind_lift isSaidTo,
      ends_bind_lift rfl, ends_bind_lift isNull, ends_bind_ask (languageName_text isFrom),
      ends_bind_ask (languageName_text isTo)]
    unfold addSequence
    rw [ends_bind_ask isSource, ends_bind_ask isTarget, ends_bind_of_on areSteps, ends_bind,
      ends_allocateFor_null, ends_bind_lift isName, ends_bind_lift isDescribed, ends_bind]
    exact ends_checkSteps (fun notFit => notFit areFit) fun _ => rfl
  obtain ⟨areMade, noneFails⟩ := ends_iff.mp ends
  cases outcome : (enterSequence (fun _ => .ok (.value steps)) sequence.newRecord).on graph with
  | mk result after =>
      cases result with
      | ok value => exact ⟨graph.nextId, after, by rw [areMade value after outcome]⟩
      | error failure => exact (noneFails failure after outcome).elim

/-- The sequence that steps were accepted for is stored with them, and its steps fit it.  Of two
steps next to each other, the second one starts in the language that the first one leads to,
unless the sequence changes the language, and either the second step starts in the old language
when the first one has reached the new one, or it stays in the new one when the first one stays
in the old one.  None of this depends on other steps: steps that fit are accepted in any order,
in place of those that the sequence has and for a new sequence between its languages. -/
theorem accepted_steps_join (accepts : AcceptsSteps graph written sequence after) :
    (∃ id, after.sequences.get? id = some sequence) ∧
    (∀ given, written = .value given → sequence.steps = given) ∧
    (∀ step ∈ sequence.steps, step.FitsIn after sequence) ∧
    (∀ place former latter, sequence.steps[place]? = some former →
      sequence.steps[place + 1]? = some latter →
        ∃ rule next, after.rules.get? former.rule = some rule ∧
          after.rules.get? latter.rule = some next ∧ sequence.Joins rule next) ∧
    ∀ steps, (∀ step ∈ steps, step.FitsIn after sequence) →
      (∃ id later,
        (updateSteps id (.value steps)).on after = (.ok { sequence with steps }, later)) ∧
      (after.languages.contains sequence.fromLanguage = true →
        after.languages.contains sequence.toLanguage = true →
          ∃ id later, (enterSequence (fun _ => .ok (.value steps)) sequence.newRecord).on after =
            (.ok ⟨id, sequence.name, sequence.fromLanguage, sequence.toLanguage, steps, none, none⟩,
              later)) := by
  obtain ⟨⟨id, isStored⟩, areGiven, areFit⟩ := accepts.hasGot
  refine ⟨⟨id, isStored⟩, areGiven, areFit, fun place former latter isFormer isLatter => ?_,
    fun _ areFit => ⟨⟨id, updateSteps_of_fit isStored areFit⟩,
      fun isFrom isTo => enterSequence_of_fit isFrom isTo areFit⟩⟩
  obtain ⟨rule, isRule, fits, -⟩ := areFit former (List.mem_of_getElem? isFormer)
  obtain ⟨next, isNext, nextFits, -⟩ := areFit latter (List.mem_of_getElem? isLatter)
  exact ⟨rule, next, isRule, isNext, RuleSequence.joins_of_fits fits nextFits⟩

end Edit

/-- An older language and a newer one, with a rule that leads from the one to the other and a
rule for each of them. -/
def Graph.branching : Graph := .ofRun [
  .addLanguage { name := "A", shortName := "a" } Mutation.isNamed_a,
  .addLanguage { name := "B", shortName := "b" } Mutation.isNamed_b,
  .addRule [("name", .text "r"), ("from_language", .text "a"), ("to_language", .text "b"),
    ("text", .text "- append 'r'"), ("id", .null)] none,
  .addRule [("name", .text "s"), ("from_language", .text "a"), ("to_language", .null),
    ("text", .text "- append 's'"), ("id", .null)] none,
  .addRule [("name", .text "t"), ("from_language", .text "b"), ("to_language", .null),
    ("text", .text "- append 't'"), ("id", .null)] none]

/-- The record of a sequence from the older language to the newer one. -/
def RuleSequence.branchingRecord : Fields :=
  [("name", .text "q"), ("from_language", .text "a"), ("to_language", .text "b"), ("id", .null)]

namespace Edit

open Diachrony.Graph (branching)
open RuleSequence (branchingRecord)

theorem accepted_steps_join_branching :
    ∃ sequence after, AcceptsSteps branching (.text "s\nr\nt") sequence after ∧
      sequence.steps = [{ rule := 2 }, { rule := 1 }, { rule := 3 }] ∧
      ∃ rule next, after.rules.get? 2 = some rule ∧ after.rules.get? 1 = some next ∧
        sequence.Joins rule next := by
  have isSeen : (((enterSequence (fun _ => .ok (.text "s\nr\nt")) branchingRecord).on
      branching).1.toOption.map RuleSequence.steps) =
        some [{ rule := 2 }, { rule := 1 }, { rule := 3 }] := by decide +kernel
  obtain ⟨sequence, gave, areSteps⟩ := Except.exists_of_toOption_map isSeen
  have accepts :=
    AcceptsSteps.added branchingRecord (on_of_toOption (Except.toOption_eq_some.mpr gave))
  refine ⟨sequence, _, accepts, areSteps, ?_⟩
  obtain ⟨-, -, -, areJoined, -⟩ := accepted_steps_join accepts
  exact areJoined 0 { rule := 2 } { rule := 1 } (by rw [areSteps]; rfl) (by rw [areSteps]; rfl)

/-- Steps are accepted of which the second one does not start in the language that the first one
leads to. -/
def AcceptsApart (graph : Graph) (text : Text) : Prop :=
  ∃ sequence after former latter rule next, AcceptsSteps graph (.text text) sequence after ∧
    sequence.steps[0]? = some former ∧ sequence.steps[1]? = some latter ∧
    after.rules.get? former.rule = some rule ∧ after.rules.get? latter.rule = some next ∧
    rule.toLanguage ≠ next.fromLanguage

/-- The language that the first one of some steps leads to, and the one that the second one
starts in. -/
def languagesMet (graph : Graph) (record : Fields) (text : Text) : Option (Text × Text) := do
  let (result, after) := (enterSequence (fun _ => .ok (.text text)) record).on graph
  let sequence ← result.toOption
  let former ← sequence.steps[0]?
  let latter ← sequence.steps[1]?
  let rule ← after.rules.get? former.rule
  let next ← after.rules.get? latter.rule
  return (rule.toLanguage, next.fromLanguage)

theorem acceptsApart_of_met {record : Fields} {text leads starts : Text}
    (areMet : languagesMet graph record text = some (leads, starts)) (differ : leads ≠ starts) :
    AcceptsApart graph text := by
  obtain ⟨sequence, gave, areMet⟩ := Option.bind_eq_some_iff.mp areMet
  obtain ⟨former, isFormer, areMet⟩ := Option.bind_eq_some_iff.mp areMet
  obtain ⟨latter, isLatter, areMet⟩ := Option.bind_eq_some_iff.mp areMet
  obtain ⟨rule, isRule, areMet⟩ := Option.bind_eq_some_iff.mp areMet
  obtain ⟨next, isNext, same⟩ := Option.bind_eq_some_iff.mp areMet
  cases same
  have accepts := AcceptsSteps.added record (on_of_toOption gave)
  exact ⟨sequence, _, former, latter, rule, next, accepts, isFormer, isLatter, isRule, isNext,
    differ⟩

/-- A step of the older language is accepted behind the one that has left it, and a step of the
newer one where the older one has not been left. -/
theorem accepted_steps_may_turn_back :
    AcceptsApart branching "r\ns" ∧ AcceptsApart branching "s\nt" := by
  have turnsBack : languagesMet branching branchingRecord "r\ns" =
      some (("b" : Text), ("a" : Text)) := by decide +kernel
  have skipsOver : languagesMet branching branchingRecord "s\nt" =
      some (("a" : Text), ("b" : Text)) := by decide +kernel
  exact ⟨acceptsApart_of_met turnsBack (by decide), acceptsApart_of_met skipsOver (by decide)⟩

end Edit

end Diachrony
