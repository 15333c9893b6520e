import Diachrony.Proofs.Except
import Diachrony.Record.Entity

/-!
# What assigning fields leaves alone

The fields that are assigned to a thing which is being entered are not the ones that it
was made with, and what it was made with stays.
-/
namespace Diachrony

namespace Record

variable {α : Type} {known : Assign α} {value : α}

/-- What each assignment keeps, the assignment of some fields keeps. -/
theorem assignKnown_induction (Holds : α → Prop) {fields : Fields} (start : Holds value)
    (each : ∀ before field after, field ∈ fields → known before field.1 field.2 = some (.ok after) →
      Holds before → Holds after)
    {after : α} (gave : assignKnown known value fields = .ok after) : Holds after := by
  induction fields generalizing value with
  | nil =>
      cases gave
      exact start
  | cons field fields inductionHypothesis =>
      unfold assignKnown at gave
      rw [List.foldlM_cons] at gave
      obtain ⟨next, isNext, gave⟩ := Except.bind_eq_ok.mp gave
      change (known value field.1 field.2).getD (.ok value) = .ok next at isNext
      refine inductionHypothesis ?_ (fun before other after isMember =>
        each before other after (List.mem_cons_of_mem _ isMember)) gave
      cases isKnown : known value field.1 field.2 with
      | none =>
          rw [isKnown] at isNext
          cases isNext
          exact start
      | some result =>
          rw [isKnown] at isNext
          exact each value field next List.mem_cons_self (isKnown.trans (congrArg some isNext)) start

theorem mem_of_among {name : Text} {choices : List (Text × Except Error α)} {result : Except Error α}
    (isKnown : among name choices = some result) : (name, result) ∈ choices := by
  unfold among at isKnown
  induction choices with
  | nil => cases isKnown
  | cons choice choices inductionHypothesis =>
      obtain ⟨other, found⟩ := choice
      rw [List.lookup_cons] at isKnown
      split at isKnown
      · rename_i isName
        rw [eq_of_beq isName, Option.some.inj isKnown]
        exact List.mem_cons_self
      · exact List.mem_cons_of_mem _ (inductionHypothesis isKnown)

theorem not_mem_of_without {names : List Text} {fields : Fields} {field : Text × Data}
    (isMember : field ∈ without names fields) : field.1 ∉ names := by
  have notNamed := (List.mem_filter.mp isMember).2
  simpa using notNamed

end Record

open Record

theorem Word.keeps_of_known {word after : Word} {name : Text} {data : Data} (notId : name ≠ "id")
    (notLanguage : name ≠ "language") (isKnown : known word name data = some (.ok after)) :
    after.id = word.id ∧ after.language = word.language := by
  have isChoice := mem_of_among isKnown
  simp only [List.mem_cons, Prod.mk.injEq, List.not_mem_nil, or_false] at isChoice
  rcases isChoice with ⟨isName, gave⟩ | ⟨isName, gave⟩ | ⟨isName, gave⟩ | ⟨isName, gave⟩ |
    ⟨isName, gave⟩ | ⟨isName, gave⟩ | ⟨isName, gave⟩ | ⟨isName, gave⟩ | ⟨isName, gave⟩ |
    ⟨isName, gave⟩
  · exact absurd isName notId
  · obtain ⟨given, -, same⟩ := Except.bind_eq_ok.mp gave.symm
    cases same
    exact ⟨rfl, rfl⟩
  · exact absurd isName notLanguage
  all_goals
    obtain ⟨given, -, same⟩ := Except.bind_eq_ok.mp gave.symm
    cases same
    exact ⟨rfl, rfl⟩

/-- Whether two rules have all in common but categories, source and notes. -/
structure Rule.SameButDetails (rule other : Rule) : Prop where
  id : other.id = rule.id
  name : other.name = rule.name
  fromLanguage : other.fromLanguage = rule.fromLanguage
  toLanguage : other.toLanguage = rule.toLanguage
  logic : other.logic = rule.logic
  sourceText : other.sourceText = rule.sourceText

theorem Rule.SameButDetails.trans {first second third : Rule} (before : first.SameButDetails second)
    (behind : second.SameButDetails third) : first.SameButDetails third :=
  ⟨behind.id.trans before.id, behind.name.trans before.name,
    behind.fromLanguage.trans before.fromLanguage, behind.toLanguage.trans before.toLanguage,
    behind.logic.trans before.logic, behind.sourceText.trans before.sourceText⟩

theorem Rule.sameButDetails_of_known {rule after : Rule} {name : Text} {data : Data}
    (isKnown : detailsKnown rule name data = some (.ok after)) : rule.SameButDetails after := by
  unfold detailsKnown at isKnown
  split at isKnown
  · rename_i isDetail
    have isChoice := mem_of_among isKnown
    simp only [List.mem_cons, Prod.mk.injEq, List.not_mem_nil, or_false] at isChoice
    rcases isChoice with ⟨rfl, gave⟩ | ⟨rfl, gave⟩ | ⟨rfl, gave⟩ | ⟨rfl, gave⟩ | ⟨rfl, gave⟩ |
      ⟨rfl, gave⟩ | ⟨rfl, gave⟩ | ⟨rfl, gave⟩ | ⟨rfl, gave⟩
    all_goals first
      | exact absurd isDetail (by decide)
      | obtain ⟨given, -, same⟩ := Except.bind_eq_ok.mp gave.symm
        cases same
        exact ⟨rfl, rfl, rfl, rfl, rfl, rfl⟩
  · cases isKnown

theorem Rule.sameButDetails_of_assignKnown {rule after : Rule} {fields : Fields}
    (gave : assignKnown detailsKnown rule fields = .ok after) : rule.SameButDetails after :=
  assignKnown_induction rule.SameButDetails ⟨rfl, rfl, rfl, rfl, rfl, rfl⟩
    (fun _ _ _ _ isKnown same => same.trans (sameButDetails_of_known isKnown)) gave

theorem RuleSequence.keeps_of_known {sequence after : RuleSequence} {name : Text} {data : Data}
    (isKnown : known sequence name data = some (.ok after)) :
    after.id = sequence.id ∧ after.fromLanguage = sequence.fromLanguage ∧
      after.toLanguage = sequence.toLanguage := by
  have isChoice := mem_of_among isKnown
  simp only [List.mem_cons, Prod.mk.injEq, List.not_mem_nil, or_false] at isChoice
  rcases isChoice with ⟨-, gave⟩ | ⟨-, gave⟩ | ⟨-, gave⟩
  all_goals
    obtain ⟨given, -, same⟩ := Except.bind_eq_ok.mp gave.symm
    cases same
    exact ⟨rfl, rfl, rfl⟩

theorem RuleSequence.keeps_of_assignKnown {sequence after : RuleSequence} {fields : Fields}
    (gave : assignKnown known sequence fields = .ok after) :
    after.id = sequence.id ∧ after.fromLanguage = sequence.fromLanguage ∧
      after.toLanguage = sequence.toLanguage := by
  refine assignKnown_induction (fun found => found.id = sequence.id ∧
    found.fromLanguage = sequence.fromLanguage ∧ found.toLanguage = sequence.toLanguage)
    ⟨rfl, rfl, rfl⟩ (fun before field next _ isKnown same => ?_) gave
  have kept := keeps_of_known isKnown
  exact ⟨kept.1.trans same.1, kept.2.1.trans same.2.1, kept.2.2.trans same.2.2⟩

theorem Paradigm.keeps_of_known {paradigm after : Paradigm} {name : Text} {data : Data}
    (notId : name ≠ "id") (notLanguage : name ≠ "language")
    (isKnown : known paradigm name data = some (.ok after)) :
    after.id = paradigm.id ∧ after.language = paradigm.language := by
  unfold known at isKnown
  split at isKnown
  · obtain ⟨grid, -, same⟩ := Except.bind_eq_ok.mp (Option.some.inj isKnown)
    cases same
    exact ⟨rfl, rfl⟩
  · have isChoice := mem_of_among isKnown
    simp only [List.mem_cons, Prod.mk.injEq, List.not_mem_nil, or_false] at isChoice
    rcases isChoice with ⟨isName, gave⟩ | ⟨isName, gave⟩ | ⟨isName, gave⟩ | ⟨isName, gave⟩
    · exact absurd isName notId
    · obtain ⟨given, -, same⟩ := Except.bind_eq_ok.mp gave.symm
      cases same
      exact ⟨rfl, rfl⟩
    · exact absurd isName notLanguage
    · obtain ⟨given, -, same⟩ := Except.bind_eq_ok.mp gave.symm
      cases same
      exact ⟨rfl, rfl⟩

end Diachrony
