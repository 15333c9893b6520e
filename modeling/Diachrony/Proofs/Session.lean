import Diachrony.Proofs.Except
import Diachrony.Session

/-!
# Agreement of work

Work may go on from what earlier work has left to remember.  `Work.AgreeOn` relates two
works that give the same from memories that correspond, and leave memories that correspond.
The two memories may be of different kinds.  It is a relation between two works and not a
property of one, since work may hand on other work that is put off; the two differ as values
and agree as work.

While every language of a graph stands under its own short name, it does not matter which
inventories a session goes on from: an inventory that is there is the one that would be made.
`Work.Agree` relates two sessions that give the same, whatever inventories of the stored
languages each of them goes on from.
-/
namespace Diachrony

/-- Each inventory is that of the language stored under the same name. -/
def Inventories.AreOf (languages : Table Text Language) (made : Inventories) : Prop :=
  ∀ name inventory, made.get? name = some inventory →
    ∃ language, languages.get? name = some language ∧ inventory = .ofLanguage language

theorem Inventories.areOf_empty (languages : Table Text Language) :
    Inventories.AreOf languages {} := by
  intro name inventory isMade
  cases isMade

def Inventories.AreBothOf (languages : Table Text Language) (made other : Inventories) : Prop :=
  made.AreOf languages ∧ other.AreOf languages

/-- Every stored language goes by the short name it is stored under. -/
def KeepShortNames (languages : Table Text Language) : Prop :=
  ∀ name language, languages.get? name = some language → language.shortName = name

namespace Work

variable {σ τ α β γ δ : Type} {Kept : σ → τ → Prop} {languages : Table Text Language}

theorem liftM_bind (result : Except Error α) (next : α → Except Error β) :
    (liftM (result >>= next) : Work σ β) =
      (liftM result : Work σ α) >>= fun value => liftM (next value) := by
  cases result <;> rfl

theorem found_bind (value : α) (next : α → Work σ β) :
    ((liftM (.ok value : Except Error α) : Work σ α) >>= next) = next value :=
  rfl

theorem missing_bind (failure : Error) (next : α → Work σ β) :
    ((liftM (.error failure : Except Error α) : Work σ α) >>= next) = throw failure :=
  rfl

/-- Two results are related: values by a relation, errors by being the same. -/
inductive Related (relation : α → β → Prop) : Except Error α → Except Error β → Prop
  | ok {left : α} {right : β} (areRelated : relation left right) :
      Related relation (.ok left) (.ok right)
  | error (error : Error) : Related relation (.error error) (.error error)

theorem Related.eq {left right : Except Error α} (related : Related (· = ·) left right) :
    left = right := by
  cases related with
  | ok same => rw [same]
  | error => rfl

theorem Related.refl (result : Except Error α) : Related (· = ·) result result := by
  cases result with
  | ok value => exact .ok rfl
  | error failure => exact .error failure

/-- From whatever corresponding memories two works go on, their results are related, and
they leave corresponding memories. -/
def AgreeOn (Kept : σ → τ → Prop) (relation : α → β → Prop) (left : Work σ α)
    (right : Work τ β) : Prop :=
  ∀ memory other, Kept memory other →
    Related relation (left.on memory).1 (right.on other).1 ∧
      Kept (left.on memory).2 (right.on other).2

/-- From whatever inventories of the stored languages two sessions go on, their
results are related, and they leave inventories of the stored languages. -/
abbrev Agree (languages : Table Text Language) (relation : α → β → Prop)
    (left : Session α) (right : Session β) : Prop :=
  AgreeOn (Inventories.AreBothOf languages) relation left right

theorem agree_pure {relation : α → β → Prop} {left : α} {right : β}
    (areRelated : relation left right) :
    AgreeOn Kept relation (pure left) (pure right) := by
  exact fun _ _ kept => ⟨.ok areRelated, kept⟩

theorem agree_throw (relation : α → β → Prop) (error : Error) :
    AgreeOn Kept relation (throw error) (throw error) := by
  exact fun _ _ kept => ⟨.error error, kept⟩

/-- What needs no memory agrees with itself. -/
theorem agree_liftM (result : Except Error α) :
    AgreeOn Kept (· = ·) (liftM result : Work σ α) (liftM result : Work τ α) :=
  fun _ _ kept => ⟨.refl result, kept⟩

theorem agree_bind {relation : α → β → Prop} {next : γ → δ → Prop}
    {left : Work σ α} {right : Work τ β} {leftNext : α → Work σ γ}
    {rightNext : β → Work τ δ} (first : AgreeOn Kept relation left right)
    (second : ∀ value other, relation value other →
      AgreeOn Kept next (leftNext value) (rightNext other)) :
    AgreeOn Kept next (left >>= leftNext) (right >>= rightNext) := by
  intro memory other kept
  obtain ⟨related, leftKept⟩ := first memory other kept
  rw [on_bind, on_bind]
  revert related leftKept
  generalize left.on memory = leftRun
  generalize right.on other = rightRun
  obtain ⟨leftResult, leftMemory⟩ := leftRun
  obtain ⟨rightResult, rightMemory⟩ := rightRun
  intro related leftKept
  cases related with
  | ok areRelated => exact second _ _ areRelated leftMemory rightMemory leftKept
  | error failure => exact ⟨.error failure, leftKept⟩

/-- Two works that agree on equal values may go on in the same way. -/
theorem agree_bind_eq {next : γ → δ → Prop} {left : Work σ α} {right : Work τ α}
    {leftNext : α → Work σ γ} {rightNext : α → Work τ δ}
    (first : AgreeOn Kept (· = ·) left right)
    (second : ∀ value, AgreeOn Kept next (leftNext value) (rightNext value)) :
    AgreeOn Kept next (left >>= leftNext) (right >>= rightNext) :=
  agree_bind first fun value _ same => same ▸ second value

theorem AgreeOn.mono {relation other : α → β → Prop} {left : Work σ α} {right : Work τ β}
    (agreed : AgreeOn Kept relation left right)
    (areOthers : ∀ value value', relation value value' → other value value') :
    AgreeOn Kept other left right := by
  intro memory another kept
  obtain ⟨related, leftKept⟩ := agreed memory another kept
  refine ⟨?_, leftKept⟩
  revert related
  generalize (left.on memory).1 = leftResult
  generalize (right.on another).1 = rightResult
  intro related
  cases related with
  | ok areRelated => exact .ok (areOthers _ _ areRelated)
  | error failure => exact .error failure

/-- Going on behind the same lookup. -/
theorem agree_lookup {next : γ → δ → Prop} {result : Except Error α}
    {leftNext : α → Work σ γ} {rightNext : α → Work τ δ}
    (second : ∀ value, result = .ok value →
      AgreeOn Kept next (leftNext value) (rightNext value)) :
    AgreeOn Kept next ((liftM result : Work σ α) >>= leftNext)
      ((liftM result : Work τ α) >>= rightNext) := by
  cases result with
  | ok value => exact second value rfl
  | error failure => exact agree_throw next failure

theorem agree_ite {relation : α → β → Prop} {condition : Prop} [Decidable condition]
    {left leftElse : Work σ α} {right rightElse : Work τ β}
    (whenTrue : condition → AgreeOn Kept relation left right)
    (whenFalse : ¬condition → AgreeOn Kept relation leftElse rightElse) :
    AgreeOn Kept relation (if condition then left else leftElse)
      (if condition then right else rightElse) := by
  split
  · exact whenTrue ‹_›
  · exact whenFalse ‹_›

theorem agree_foldlM {step : β → α → Work σ β} {other : β → α → Work τ β}
    (steps : ∀ state item, AgreeOn Kept (· = ·) (step state item) (other state item))
    (items : List α) (state : β) :
    AgreeOn Kept (· = ·) (items.foldlM step state) (items.foldlM other state) := by
  induction items generalizing state with
  | nil => exact agree_pure rfl
  | cons item items inductionHypothesis =>
      rw [List.foldlM_cons, List.foldlM_cons]
      exact agree_bind_eq (steps state item) inductionHypothesis

theorem agree_mapM {step : α → Work σ β} {other : α → Work τ β}
    (steps : ∀ item, AgreeOn Kept (· = ·) (step item) (other item)) (items : List α) :
    AgreeOn Kept (· = ·) (items.mapM step) (items.mapM other) := by
  induction items with
  | nil => exact agree_pure rfl
  | cons item items inductionHypothesis =>
      rw [List.mapM_cons, List.mapM_cons]
      refine agree_bind_eq (steps item) fun value => ?_
      exact agree_bind_eq inductionHypothesis fun values => agree_pure rfl

/-- The inventory of a language that is stored under its short name is the same,
whether it is there or has to be made. -/
theorem agree_inventory {language : Language}
    (isStored : languages.get? language.shortName = some language) :
    Agree languages (· = ·) (inventory language) (inventory language) := by
  have served : ∀ made : Inventories, made.AreOf languages →
      (serve made language).1 = .ofLanguage language ∧
        (serve made language).2.AreOf languages := by
    intro made madeOwned
    cases isMade : made.get? language.shortName with
    | some found =>
        obtain ⟨owner, ownerStored, same⟩ := madeOwned _ _ isMade
        rw [isStored] at ownerStored
        cases ownerStored
        exact ⟨by simp [serve, isMade, same], by simpa [serve, isMade] using madeOwned⟩
    | none =>
        refine ⟨by simp [serve, isMade], ?_⟩
        intro name found isFound
        simp only [serve, isMade, Table.get?_insert] at isFound
        split at isFound
        · rename_i isName
          cases isFound
          exact ⟨language, isName ▸ isStored, rfl⟩
        · exact madeOwned name found isFound
  intro made other areOwned
  obtain ⟨leftServed, leftOwned⟩ := served made areOwned.1
  obtain ⟨rightServed, rightOwned⟩ := served other areOwned.2
  exact ⟨.ok (leftServed.trans rightServed.symm), leftOwned, rightOwned⟩

/-- What is put off gives works that agree, since each of them has been done from
corresponding memories. -/
theorem agree_later {relation : α → β → Prop} {next : γ → δ → Prop}
    {left : Work σ α} {right : Work τ β} {leftNext : Work σ α → Work σ γ}
    {rightNext : Work τ β → Work τ δ} (first : AgreeOn Kept relation left right)
    (second : ∀ value other, AgreeOn Kept relation value other →
      AgreeOn Kept next (leftNext value) (rightNext other)) :
    AgreeOn Kept next (later left >>= leftNext) (later right >>= rightNext) := by
  intro memory other kept
  rw [on_later, on_later]
  refine second _ _ ?_ memory other kept
  intro _ _ _
  exact first memory other kept

/-- Changing errors changes what is given and nothing else. -/
theorem on_adapt (change : Error → Error) (work : Work σ α) (memory : σ) :
    Work.on memory (ExceptT.adapt change work) =
      ((work.on memory).1.mapError change, (work.on memory).2) :=
  rfl

theorem agree_adapt {relation : α → β → Prop} {left : Work σ α} {right : Work τ β}
    (change : Error → Error) (agreed : AgreeOn Kept relation left right) :
    AgreeOn Kept relation (ExceptT.adapt change left : Work σ α)
      (ExceptT.adapt change right : Work τ β) := by
  intro memory other kept
  obtain ⟨related, leftKept⟩ := agreed memory other kept
  rw [on_adapt, on_adapt]
  refine ⟨?_, leftKept⟩
  revert related
  generalize (left.on memory).1 = leftResult
  generalize (right.on other).1 = rightResult
  intro related
  cases related with
  | ok areRelated => exact .ok areRelated
  | error failure => exact .error (change failure)

/-- Taking errors as results changes what is given and nothing else. -/
theorem on_settle (session : Session α) (made : Inventories) :
    (settle session).on made = (Error.settle (session.on made).1, (session.on made).2) := by
  unfold settle Work.on ExceptT.run StateT.run Id.run
  simp only [tryCatch, tryCatchThe, MonadExceptOf.tryCatch, ExceptT.tryCatch, bind,
    ExceptT.bind, ExceptT.mk, StateT.bind, ExceptT.bindCont]
  cases session made with
  | mk result after => cases result <;> rfl

/-- A session that gives a value after another one has gone on from what that one gave. -/
theorem on_bind_eq_ok {session : Session α} {next : α → Session β} {made left : Inventories}
    {value : β} :
    (session >>= next).on made = (.ok value, left) ↔
      ∃ given between, session.on made = (.ok given, between) ∧
        (next given).on between = (.ok value, left) := by
  rw [on_bind]
  generalize session.on made = run
  obtain ⟨result, between⟩ := run
  cases result with
  | ok given =>
      constructor
      · exact fun gave => ⟨given, between, rfl, gave⟩
      · rintro ⟨_, _, ⟨⟩, gave⟩
        exact gave
  | error failure => simp

/-- Each item has given its value, from the inventories that were left by those in front. -/
theorem forall₂_of_on_mapM {step : α → Session β} {items : List α}
    {values : List β} {made left : Inventories}
    (gave : (items.mapM step).on made = (.ok values, left)) :
    List.Forall₂ (fun item value => ∃ made left, (step item).on made = (.ok value, left))
      items values := by
  induction items generalizing values made with
  | nil =>
      cases gave
      exact .nil
  | cons item items inductionHypothesis =>
      rw [List.mapM_cons] at gave
      obtain ⟨value, between, isGiven, gave⟩ := on_bind_eq_ok.mp gave
      obtain ⟨others, _, areGiven, same⟩ := on_bind_eq_ok.mp gave
      cases same
      exact .cons ⟨made, between, isGiven⟩ (inductionHypothesis areGiven)

theorem on_settle_eq_ok {session : Session α} {made left : Inventories} {result : Except Error α} :
    (settle session).on made = (.ok result, left) ↔
      session.on made = (result, left) ∧
        ∀ failure, result = .error failure → failure.isRecordable = true := by
  rw [on_settle]
  generalize session.on made = run
  obtain ⟨given, between⟩ := run
  cases given with
  | ok value =>
      simp only [Error.settle, Prod.mk.injEq, Except.ok.injEq]
      refine ⟨fun same => ⟨same, fun failure isError => ?_⟩, fun same => same.1⟩
      rw [← same.1] at isError
      cases isError
  | error failure =>
      by_cases isRecordable : failure.isRecordable = true
      · simp only [Error.settle, isRecordable, if_true, Prod.mk.injEq, Except.ok.injEq]
        refine ⟨fun same => ⟨same, fun other isError => ?_⟩, fun same => same.1⟩
        rw [← same.1] at isError
        cases isError
        exact isRecordable
      · simp only [Error.settle, isRecordable, if_false, Prod.mk.injEq, reduceCtorEq, false_and,
          false_iff, Bool.false_eq_true]
        rintro ⟨⟨rfl, -⟩, areRecordable⟩
        exact isRecordable (areRecordable failure rfl)

theorem agree_settle {Kept : Inventories → Inventories → Prop} {left right : Session α}
    (agreed : AgreeOn Kept (· = ·) left right) :
    AgreeOn Kept (· = ·) (settle left) (settle right) := by
  intro made other kept
  obtain ⟨related, leftKept⟩ := agreed made other kept
  rw [on_settle, on_settle, related.eq]
  exact ⟨.refl _, leftKept⟩

/-- A session that agrees with another one gives what that one gives from no
inventories. -/
theorem AgreeOn.result_eq {left right : Session α}
    (agreed : AgreeOn (Inventories.AreBothOf languages) (· = ·) left right) {made : Inventories}
    (madeOwned : made.AreOf languages) : (left.on made).1 = right.result :=
  (agreed made {} ⟨madeOwned, Inventories.areOf_empty languages⟩).1.eq

@[simp] theorem result_pure (value : α) : (pure value : Session α).result = .ok value :=
  rfl

@[simp] theorem result_liftM (result : Except Error α) :
    (liftM result : Session α).result = result :=
  rfl

@[simp] theorem result_settle (session : Session α) :
    (settle session).result = Error.settle session.result := by
  unfold result
  rw [on_settle]

theorem AgreeOn.result_bind {Kept : Inventories → Inventories → Prop} {session : Session α}
    {next : α → Session β} (begins : Kept {} {})
    (restarts : ∀ made other, Kept made other → Kept made {})
    (first : AgreeOn Kept (· = ·) session session)
    (second : ∀ value, AgreeOn Kept (· = ·) (next value) (next value)) :
    (session >>= next).result = session.result >>= fun value => (next value).result := by
  have leftKept := restarts _ _ (first {} {} begins).2
  unfold result
  rw [on_bind]
  revert leftKept
  generalize session.on {} = run
  obtain ⟨result, made⟩ := run
  intro leftKept
  cases result with
  | error failure => rfl
  | ok value => exact ((second value) made {} leftKept).1.eq

theorem result_bind {session : Session α} {next : α → Session β}
    (first : Agree languages (· = ·) session session)
    (second : ∀ value, Agree languages (· = ·) (next value) (next value)) :
    (session >>= next).result = session.result >>= fun value => (next value).result :=
  have begins := Inventories.areOf_empty languages
  AgreeOn.result_bind ⟨begins, begins⟩ (fun _ _ kept => ⟨kept.1, begins⟩) first second

theorem result_mapM {step : α → Session β}
    (steps : ∀ item, Agree languages (· = ·) (step item) (step item)) (items : List α) :
    (items.mapM step).result = items.mapM fun item => (step item).result := by
  induction items with
  | nil => rfl
  | cons item items inductionHypothesis =>
      have others (value : β) : Agree languages (· = ·)
          (items.mapM step >>= fun values => pure (value :: values))
          (items.mapM step >>= fun values => pure (value :: values)) :=
        agree_bind_eq (agree_mapM steps items) fun _ => agree_pure rfl
      rw [List.mapM_cons, List.mapM_cons, result_bind (steps item) others, ← inductionHypothesis]
      refine bind_congr fun value => ?_
      exact result_bind (agree_mapM steps items) fun _ => agree_pure rfl

/-- What gives a value in the end has given one before. -/
theorem result_bind_ok {session : Session α} {next : α → Session β} {value : β}
    (first : Agree languages (· = ·) session session)
    (second : ∀ value, Agree languages (· = ·) (next value) (next value))
    (gave : (session >>= next).result = .ok value) :
    ∃ between, session.result = .ok between ∧ (next between).result = .ok value :=
  Except.bind_eq_ok.mp (result_bind first second ▸ gave)

end Work

end Diachrony
