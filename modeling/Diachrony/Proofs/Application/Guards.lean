import Diachrony.Proofs.Application.Independence
import Diachrony.Reversal

/-!
# Guards

Applying a rule may come back to the same rule, through an instruction or through the
stress of a word.  What keeps it from going round for ever are two guards: the rules that
are being applied, and the languages whose stress is being worked out.

`Graph.applyWithin` hands them on from rule to rule.  Here stands an interpreter that has
them in its memory, beside the inventories.  It enters a rule before it runs it and leaves
it however the run ends; it puts a language among those whose stress is being worked out
before it asks the stress rule, and takes it out again however that ends.  Whatever it asks
about the guards it asks of the memory of that moment.  It nests no deeper than it is
allowed, and where it nests deeper it may do anything at all.

It gives what `Graph.apply` and `Graph.reverse` give, and leaves the guards as it found
them, whether it gives a form or fails.
-/
namespace Diachrony

open Work

variable {α : Type}

/-- The rules that are being applied, the outermost first, and the languages whose stress
is being worked out. -/
structure Guards where
  active : List RuleRef := []
  pending : List Text := []
  deriving DecidableEq

/-- What an interpreter keeps while it is at work. -/
structure Memory where
  inventories : Inventories := {}
  guards : Guards := {}

namespace Guards

def isApplying (guards : Guards) (rule : Int) : Bool :=
  guards.active.any fun other => other.id == rule

def enter (guards : Guards) (rule : RuleRef) : Guards :=
  { guards with active := guards.active ++ [rule] }

def leave (guards : Guards) : Guards :=
  { guards with active := guards.active.dropLast }

def await (guards : Guards) (language : Text) : Guards :=
  { guards with pending := guards.pending.insert language }

def settle (guards : Guards) (language : Text) : Guards :=
  { guards with pending := guards.pending.filter fun other => other != language }

theorem leave_enter (guards : Guards) (rule : RuleRef) : (guards.enter rule).leave = guards := by
  unfold enter leave
  rw [List.dropLast_concat]

theorem await_pending {guards : Guards} {language : Text}
    (notPending : language ∉ guards.pending) :
    (guards.await language).pending = language :: guards.pending :=
  List.insert_of_not_mem notPending

/-- What is taken out is only what was put in, if the language was not pending before. -/
theorem settle_await {guards : Guards} {language : Text}
    (notPending : language ∉ guards.pending) :
    (guards.await language).settle language = guards := by
  have areOthers : ∀ other ∈ guards.pending, (other != language) = true := by
    intro other isMember
    exact bne_iff_ne.mpr fun same => notPending (same ▸ isMember)
  unfold settle
  rw [await_pending notPending, List.filter_cons_of_neg (by simp),
    List.filter_eq_self.mpr areOthers]
  rfl

end Guards

/-- Work of an interpreter that keeps guards. -/
abbrev Guarded (α : Type) := Work Memory α

namespace Guarded

def lift (session : Session α) : Guarded α :=
  ExceptT.mk fun memory =>
    ((session.on memory.inventories).1,
      { memory with inventories := (session.on memory.inventories).2 })

def change (turn : Guards → Guards) (memory : Memory) : Memory :=
  { memory with guards := turn memory.guards }

/-- Runs work between two changes of the guards. The second one is made also if the work
fails. -/
def between (first last : Guards → Guards) (work : Guarded α) : Guarded α := do
  modify (change first)
  ExceptT.mk do
    let result ← work.run
    modify (change last)
    return result

def during (rule : RuleRef) (work : Guarded α) : Guarded α :=
  between (fun guards => guards.enter rule) Guards.leave work

/-- Runs work while the stress of words in a language is being worked out. -/
def stressing (language : Text) (work : Guarded α) : Guarded α :=
  between (fun guards => guards.await language) (fun guards => guards.settle language) work

/-- Guarded work gives what a session gives, and leaves the guards as they were. -/
def Keeps (guards : Guards) (work : Guarded α) (session : Session α) : Prop :=
  ∀ made, work.on ⟨made, guards⟩ = ((session.on made).1, ⟨(session.on made).2, guards⟩)

variable {guards : Guards}

def GoesWith (guards : Guards) (memory : Memory) (made : Inventories) : Prop :=
  memory = ⟨made, guards⟩

theorem keeps_iff {work : Guarded α} {session : Session α} :
    Keeps guards work session ↔ AgreeOn (GoesWith guards) (· = ·) work session := by
  constructor
  · rintro keeps _ made rfl
    rw [keeps made]
    exact ⟨.refl _, rfl⟩
  · intro agreed made
    obtain ⟨related, kept⟩ := agreed ⟨made, guards⟩ made rfl
    exact Prod.ext related.eq kept

theorem agree_lift (session : Session α) :
    AgreeOn (GoesWith guards) (· = ·) (lift session) session :=
  keeps_iff.mp fun _ => rfl

/-- What is asked of the memory is asked of the guards that are kept. -/
theorem agree_get {β : Type} {relation : α → β → Prop} {next : Memory → Guarded α}
    {session : Session β}
    (second : ∀ made, AgreeOn (GoesWith guards) relation (next ⟨made, guards⟩) session) :
    AgreeOn (GoesWith guards) relation (get >>= next) session := by
  rintro _ made rfl
  exact second made ⟨made, guards⟩ made rfl

theorem agree_between {first last : Guards → Guards} (restores : last (first guards) = guards)
    {work : Guarded α} {session : Session α}
    (inside : AgreeOn (GoesWith (first guards)) (· = ·) work session) :
    AgreeOn (GoesWith guards) (· = ·) (between first last work) session := by
  refine keeps_iff.mp fun made => ?_
  have ran := keeps_iff.mpr inside made
  have isRun : (between first last work).on ⟨made, guards⟩ =
      ((work.on ⟨made, first guards⟩).1, change last (work.on ⟨made, first guards⟩).2) := rfl
  rw [isRun, ran]
  exact congrArg (fun kept =>
    ((session.on made).1, (⟨(session.on made).2, kept⟩ : Memory))) restores

theorem agree_during {rule : RuleRef} {work : Guarded α} {session : Session α}
    (inside : AgreeOn (GoesWith (guards.enter rule)) (· = ·) work session) :
    AgreeOn (GoesWith guards) (· = ·) (during rule work) session :=
  agree_between (guards.leave_enter rule) inside

theorem agree_stressing {language : Text} (notPending : language ∉ guards.pending)
    {work : Guarded α} {session : Session α}
    (inside : AgreeOn (GoesWith (guards.await language)) (· = ·) work session) :
    AgreeOn (GoesWith guards) (· = ·) (stressing language work) session :=
  agree_between (Guards.settle_await notPending) inside

end Guarded

theorem Reversal.agree_keepPassing {σ τ : Type} {Kept : σ → τ → Prop}
    {passes : WordForm → Work σ Bool} {otherPasses : WordForm → Work τ Bool}
    (agrees : ∀ form, AgreeOn Kept (· = ·) (passes form) (otherPasses form)) (limit : Int)
    (forms : List WordForm) :
    AgreeOn Kept (· = ·) (Reversal.keepPassing passes limit forms)
      (Reversal.keepPassing otherPasses limit forms) := by
  induction forms generalizing limit with
  | nil => exact agree_pure rfl
  | cons form forms inductionHypothesis =>
      refine agree_bind_eq (agrees form) fun passed => ?_
      refine agree_ite (fun _ => ?_) fun _ => inductionHypothesis limit
      refine agree_ite (fun _ => agree_pure rfl) fun _ => ?_
      exact agree_bind_eq (inductionHypothesis _) fun _ => agree_pure rfl

/-- What an interpreter does where it must never come to: where rules nest deeper than it
is allowed. -/
structure Astray where
  tooDeep : Rule → Extent → WordForm → Guarded Outcome
  tooFarBack : Rule → Text → Session (List Text)

/-- The surroundings of a rule for an interpreter that asks its memory about the guards.
`applies` is how it applies another rule. -/
def Frame.guarded (graph : Graph) (marker : Text) (language : Language) (inventory : Inventory)
    (applies : Rule → Extent → WordForm → Guarded Outcome) : Frame Memory where
  graph := graph
  marker := marker
  language := language
  inventory := inventory
  call := fun id extent form => do
    let called ← graph.rule id
    applies called extent form
  stressBy := fun id form => do
    let memory ← get
    if memory.guards.pending.contains language.shortName || memory.guards.isApplying id then
      return none
    else do
      let called ← graph.rule id
      let outcome ← Guarded.stressing language.shortName (applies called .wholeWord form)
      return if outcome.applied then outcome.form.stressedIndex else none

namespace Graph

/-- Applies a rule as `Graph.applyWithin` does, with the guards in memory and as many rules
inside each other as there are levels. -/
def applyGuarded (graph : Graph) (marker : Text) (astray : Astray) (levels : Nat) (rule : Rule)
    (extent : Extent) (form : WordForm) : Guarded Outcome := do
  let memory ← get
  if memory.guards.isApplying rule.id then
    throw (.recursiveRule rule.name (memory.guards.active.map fun other => other.name))
  else
    match levels with
    | 0 => astray.tooDeep rule extent form
    | levels + 1 =>
      let language ← graph.language rule.fromLanguage
      let inventory ← Guarded.lift (Work.inventory language)
      let frame := Frame.guarded graph marker language inventory
        (graph.applyGuarded marker astray levels)
      Guarded.during rule.ref (frame.run rule extent form)

/-- The texts before a rule as `Reversal.beforeRule` finds them, with as many rules inside
each other as there are levels. -/
def textsBefore (graph : Graph) (astray : Astray) (language : Language) :
    Nat → List RuleRef → Rule → Text → Session (List Text)
  | 0, _, rule, text => astray.tooFarBack rule text
  | levels + 1, seen, rule, text =>
    Reversal.beforeLogic
      { language
        beforeRule := fun id text => do
          let called ← graph.rule id
          if (seen ++ [rule.ref]).any fun other => other.id == called.id then return [text]
          else graph.textsBefore astray language levels (seen ++ [rule.ref]) called text }
      rule.logic text

def reverseGuarded (graph : Graph) (marker : Text) (astray : Astray) (levels : Nat)
    (rule : Rule) (form : WordForm) (limit : Int) : Guarded (List WordForm) := do
  let language ← graph.language rule.fromLanguage
  let _ ← graph.language rule.toLanguage
  let texts ← Guarded.lift (graph.textsBefore astray language levels [] rule form.text)
  let passes (candidate : WordForm) : Guarded Bool := do
    let outcome ← graph.applyGuarded marker astray levels rule .wholeWord candidate
    return outcome.applied &&
      comparable marker outcome.form.text == comparable marker form.text
  Reversal.keepPassing passes limit (texts.map (Reversal.candidate rule form))

variable {graph : Graph} {marker : Text} {astray : Astray}

/-- A stored rule that is not being applied is one of those that are left to call. -/
theorem inactiveRules_pos {rules : List Rule} {active : List RuleRef} {rule : Rule}
    (isMember : rule ∈ rules)
    (isInactive : (active.any fun other => other.id == rule.id) = false) :
    0 < (inactiveRules rules active).length := by
  have isLeft : rule ∈ inactiveRules rules active := by
    rw [inactiveRules, List.mem_filter, isInactive]
    exact ⟨isMember, rfl⟩
  exact List.length_pos_of_mem isLeft

/-- A rule is applied with the guards in memory as it is called among the rules that are
being applied, if it is applied so where it is not one of them. -/
theorem agree_unlessActive {levels : Nat} {guards : Guards} {called : Rule} {extent : Extent}
    {form : WordForm}
    (applied : guards.isApplying called.id = false →
      AgreeOn (Guarded.GoesWith guards) (· = ·)
        (graph.applyGuarded marker astray levels called extent form)
        (graph.applyWithin marker guards.active guards.pending called extent form)) :
    AgreeOn (Guarded.GoesWith guards) (· = ·)
      (graph.applyGuarded marker astray levels called extent form)
      (if guards.isApplying called.id then
        throw (.recursiveRule called.name (guards.active.map fun other => other.name))
      else graph.applyWithin marker guards.active guards.pending called extent form) := by
  cases isActive : guards.isApplying called.id with
  | false => exact applied isActive
  | true =>
      unfold applyGuarded
      refine Guarded.agree_get fun made => ?_
      rw [if_pos isActive]
      exact agree_throw _ _

/-- Whatever stress is being worked out besides, `applies` calls stored rules as they are
called among the rules that are being applied. -/
def CallsAmong (graph : Graph) (marker : Text) (active : List RuleRef)
    (applies : Rule → Extent → WordForm → Guarded Outcome) : Prop :=
  ∀ guards : Guards, guards.active = active → ∀ called ∈ graph.rules.values, ∀ extent form,
    AgreeOn (Guarded.GoesWith guards) (· = ·) (applies called extent form)
      (if guards.isApplying called.id then
        throw (.recursiveRule called.name (guards.active.map fun other => other.name))
      else graph.applyWithin marker guards.active guards.pending called extent form)

/-- The surroundings with the guards in memory are like those to which they are handed on.  A
stress rule is asked while its language is among those whose stress is being worked out, and
the language is not left there. -/
theorem alike_guarded {guards : Guards} {applies : Rule → Extent → WordForm → Guarded Outcome}
    (callsAmong : graph.CallsAmong marker guards.active applies) (language : Language)
    (inventory : Inventory) :
    Frame.Alike (Guarded.GoesWith guards) (· = ·) (fun _ => True)
      (Frame.guarded graph marker language inventory applies)
      (graph.frameWithin marker guards.active guards.pending language inventory) where
  isLikeness := WordForm.isLikeness_eq
  language := rfl
  inventory := rfl
  marker := rfl
  languages := rfl
  rules := fun _ _ => rfl
  calls := by
    rintro id extent form _ - rfl
    have called : AgreeOn (Guarded.GoesWith guards) (· = ·)
        ((Frame.guarded graph marker language inventory applies).call id extent form)
        (graph.callWithin marker guards.active guards.pending id extent form) :=
      agree_lookup fun called isCalled => callsAmong guards rfl called
        (Table.mem_values_of_get? (found_eq_ok isCalled)) extent form
    exact called.mono fun _ _ same => same ▸ ⟨rfl, rfl⟩
  stress := by
    rintro id form _ - rfl
    refine Guarded.agree_get fun made => agree_ite (fun _ => agree_pure rfl) fun isFree => ?_
    have notPending : language.shortName ∉ guards.pending := by
      intro isPending
      exact isFree (Bool.or_eq_true_iff.mpr (.inl (List.contains_iff_mem.mpr isPending)))
    rw [← bind_assoc, ← Guards.await_pending notPending]
    refine agree_bind_eq (agree_lookup fun called isCalled => ?_) fun _ => agree_pure rfl
    exact Guarded.agree_stressing notPending (callsAmong (guards.await language.shortName) rfl
      called (Table.mem_values_of_get? (found_eq_ok isCalled)) .wholeWord form)

/-- A rule that is not being applied gives what it gives among the rules that are, and
leaves the guards as they were. -/
theorem agree_applyGuarded {levels : Nat} {guards : Guards} {rule : Rule}
    (isStored : rule ∈ graph.rules.values) (isInactive : guards.isApplying rule.id = false)
    (areEnough : (inactiveRules graph.rules.values guards.active).length ≤ levels)
    (extent : Extent) (form : WordForm) :
    AgreeOn (Guarded.GoesWith guards) (· = ·)
      (graph.applyGuarded marker astray levels rule extent form)
      (graph.applyWithin marker guards.active guards.pending rule extent form) := by
  induction levels generalizing guards rule extent form with
  | zero => exact absurd areEnough (Nat.not_le_of_lt (inactiveRules_pos isStored isInactive))
  | succ levels inductionHypothesis =>
      have callsAmong : graph.CallsAmong marker (guards.enter rule.ref).active
          (graph.applyGuarded marker astray levels) := by
        intro inner sameActive called isCalled extent form
        have fewer := inactiveRules_length_lt isStored isInactive
        refine agree_unlessActive fun isInactive => inductionHypothesis isCalled isInactive ?_ _ _
        rw [sameActive]
        exact Nat.le_of_lt_succ (Nat.lt_of_lt_of_le fewer areEnough)
      rw [applyWithin_eq]
      unfold applyGuarded
      refine Guarded.agree_get fun made => ?_
      rw [if_neg (by rw [isInactive]; exact Bool.false_ne_true)]
      refine agree_lookup fun language _ => ?_
      refine agree_bind_eq (Guarded.agree_lift _) fun inventory => Guarded.agree_during ?_
      have areCalled : ∀ id ∈ rule.logic.references, True := fun _ _ => trivial
      exact (Frame.agree_run
        (alike_guarded callsAmong language inventory) areCalled extent rfl).mono
        fun _ _ => Outcome.Alike.eq

/-- A rule that has not been seen has the texts before it that it has on any level that is
high enough. -/
theorem textsBefore_eq {language : Language} {levels : Nat} {seen : List RuleRef} {rule : Rule}
    (isStored : rule ∈ graph.rules.values)
    (isNew : (seen.any fun other => other.id == rule.id) = false)
    (areEnough : (inactiveRules graph.rules.values seen).length ≤ levels) (text : Text) :
    graph.textsBefore astray language levels seen rule text =
      Reversal.beforeRule graph language seen rule text := by
  induction levels generalizing seen rule text with
  | zero => exact absurd areEnough (Nat.not_le_of_lt (inactiveRules_pos isStored isNew))
  | succ levels inductionHypothesis =>
      have fewer := inactiveRules_length_lt isStored isNew
      rw [Reversal.beforeRule]
      unfold textsBefore
      congr 2
      funext id text
      unfold Graph.rule
      split
      · rename_i isNone
        rw [isNone]
        rfl
      · rename_i called isCalled
        rw [isCalled]
        change (if _ then _ else _) = _
        split <;> rename_i isSeen
        · rfl
        · exact inductionHypothesis (Table.mem_values_of_get? isCalled) (by simpa using isSeen)
            (Nat.le_of_lt_succ (Nat.lt_of_lt_of_le fewer areEnough)) text

/-- A stored rule is applied with the guards in memory as it is without them. -/
theorem agree_applyOutermost {rule : Rule} (isStored : rule ∈ graph.rules.values)
    (form : WordForm) :
    AgreeOn (Guarded.GoesWith {}) (· = ·)
      (graph.applyGuarded marker astray graph.rules.values.length rule .wholeWord form)
      (graph.apply rule form marker) :=
  agree_applyGuarded isStored rfl (List.length_filter_le _ _) .wholeWord form

theorem agree_reverseGuarded {rule : Rule} (isStored : rule ∈ graph.rules.values)
    (form : WordForm) (limit : Int) :
    AgreeOn (Guarded.GoesWith {}) (· = ·)
      (graph.reverseGuarded marker astray graph.rules.values.length rule form limit)
      (graph.reverse rule form limit marker) := by
  refine agree_lookup fun language _ => agree_lookup fun _ _ => ?_
  rw [textsBefore_eq isStored rfl (List.length_filter_le _ _)]
  refine agree_bind_eq (Guarded.agree_lift _) fun texts => ?_
  refine Reversal.agree_keepPassing (fun candidate => ?_) limit _
  exact agree_bind_eq (agree_applyOutermost isStored candidate) fun _ => agree_pure rfl

end Graph

end Diachrony
