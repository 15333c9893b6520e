import Diachrony.Application.Frame
import Diachrony.Proofs.Session

/-!
# How sessions fail

`Work.Ensures` says which values a session gives and in which ways it may fail, from
whatever inventories it goes on.  A session that may fail in no way at all always gives a
value; one that may fail in every way but one never fails in that way.

`Work.EnsuresFrom` says so of inventories of some kind that the session leaves as well.
The rules here are about it and follow the ways in which sessions are put together.
-/
namespace Diachrony

variable {α β : Type} {Fails : Error → Prop}

def FailsOnly (Fails : Error → Prop) (result : Except Error α) : Prop :=
  ∀ failure, result = .error failure → Fails failure

/-- A result is a value of some kind, or a failure of some kind. -/
def Meets (Fails : Error → Prop) (Holds : α → Prop) : Except Error α → Prop
  | .ok value => Holds value
  | .error failure => Fails failure

theorem failsOnly_ok (value : α) : FailsOnly Fails (.ok value : Except Error α) := by
  intro failure isError
  cases isError

theorem failsOnly_error {failure : Error} (isAllowed : Fails failure) :
    FailsOnly Fails (.error failure : Except Error α) := by
  intro other isError
  cases isError
  exact isAllowed

theorem failsOnly_bind {result : Except Error α} {next : α → Except Error β}
    (first : FailsOnly Fails result)
    (second : ∀ value, result = .ok value → FailsOnly Fails (next value)) :
    FailsOnly Fails (result >>= next) := by
  cases result with
  | ok value => exact second value rfl
  | error failure => exact failsOnly_error (first failure rfl)

theorem failsOnly_map {result : Except Error α} (change : α → β)
    (only : FailsOnly Fails result) : FailsOnly Fails (result.map change) := by
  cases result with
  | ok value => exact failsOnly_ok _
  | error failure => exact failsOnly_error (only failure rfl)

theorem failsOnly_mapM {items : List α} {step : α → Except Error β}
    (steps : ∀ item ∈ items, FailsOnly Fails (step item)) :
    FailsOnly Fails (items.mapM step) := by
  induction items with
  | nil => exact failsOnly_ok _
  | cons item items inductionHypothesis =>
      obtain ⟨first, others⟩ := List.forall_mem_cons.mp steps
      rw [List.mapM_cons]
      refine failsOnly_bind first fun value _ => ?_
      exact failsOnly_bind (inductionHypothesis others) fun values _ => failsOnly_ok _

theorem failsOnly_forM {items : List α} {step : α → Except Error Unit}
    (steps : ∀ item ∈ items, FailsOnly Fails (step item)) :
    FailsOnly Fails (items.forM step) := by
  induction items with
  | nil => exact failsOnly_ok _
  | cons item items inductionHypothesis =>
      obtain ⟨first, others⟩ := List.forall_mem_cons.mp steps
      exact failsOnly_bind first fun _ _ => inductionHypothesis others

theorem failsOnly_of_eq_ok {result : Except Error α} {value : α} (gave : result = .ok value) :
    FailsOnly Fails result := by
  rw [gave]
  exact failsOnly_ok value

/-- Inventories of some kind are of that kind still when others are made. -/
def Inventories.Endures (Kept : Inventories → Prop) : Prop :=
  ∀ made language, Kept made → Kept (Work.serve made language).2

def Inventories.Any (_ : Inventories) : Prop := True

theorem Inventories.endures_any : Inventories.Endures Inventories.Any :=
  fun _ _ _ => trivial

/-- Inventories of some kind, of which one serves for the languages with a short name. -/
def Inventories.Serving (Kept : Inventories → Prop) (name : Text) (inventory : Inventory)
    (made : Inventories) : Prop :=
  Kept made ∧ made.get? name = some inventory

/-- The inventory of a language serves for it as long as a session goes on. -/
theorem Inventories.Endures.serving {Kept : Inventories → Prop}
    (endures : Inventories.Endures Kept) (name : Text) (inventory : Inventory) :
    Inventories.Endures (Inventories.Serving Kept name inventory) := by
  intro made language isKept
  refine ⟨endures made language isKept.1, ?_⟩
  cases isMade : made.get? language.shortName with
  | some found => simpa [Work.serve, isMade] using isKept.2
  | none =>
      simp only [Work.serve, isMade, Table.get?_insert]
      rw [if_neg, isKept.2]
      rintro rfl
      cases isMade.symm.trans isKept.2

namespace Work

variable {Kept : Inventories → Prop}

/-- From whatever inventories it goes on, a session gives a value of some kind or fails
in some way. -/
def Ensures (Fails : Error → Prop) (Holds : α → Prop) (session : Session α) : Prop :=
  ∀ made, Meets Fails Holds (session.on made).1

/-- From whatever inventories it goes on, a session fails in some ways only. -/
abbrev FailsOnly (Fails : Error → Prop) (session : Session α) : Prop :=
  session.Ensures Fails fun _ => True

/-- From inventories of some kind, a session gives a value of some kind or fails in some way,
and leaves inventories of that kind. -/
def EnsuresFrom (Kept : Inventories → Prop) (Fails : Error → Prop) (Holds : α → Prop)
    (session : Session α) : Prop :=
  ∀ made, Kept made → Meets Fails Holds (session.on made).1 ∧ Kept (session.on made).2

/-- From inventories of some kind, a session fails in some ways only, and leaves inventories
of that kind. -/
abbrev FailsOnlyFrom (Kept : Inventories → Prop) (Fails : Error → Prop) (session : Session α) :
    Prop :=
  session.EnsuresFrom Kept Fails fun _ => True

theorem EnsuresFrom.ensures {session : Session α} {Holds : α → Prop}
    (ensures : session.EnsuresFrom Inventories.Any Fails Holds) : session.Ensures Fails Holds :=
  fun made => (ensures made trivial).1

variable {Holds : α → Prop} {Next : β → Prop}

theorem EnsuresFrom.of_on {session : Session α} (ensures : session.EnsuresFrom Kept Fails Holds)
    {made : Inventories} (isKept : Kept made) {value : α}
    (gave : (session.on made).1 = .ok value) : Holds value := by
  have met := (ensures made isKept).1
  rw [gave] at met
  exact met

/-- A session that fails in no way gives a value. -/
theorem EnsuresFrom.exists_value {session : Session α}
    (ensures : session.EnsuresFrom Kept (fun _ => False) Holds) {made : Inventories}
    (isKept : Kept made) :
    ∃ value left, session.on made = (.ok value, left) ∧ Holds value ∧ Kept left := by
  obtain ⟨met, staysKept⟩ := ensures made isKept
  revert met staysKept
  generalize session.on made = run
  obtain ⟨result, left⟩ := run
  cases result with
  | ok value => exact fun holds staysKept => ⟨value, left, rfl, holds, staysKept⟩
  | error failure => exact fun isAllowed => isAllowed.elim

theorem ensures_pure {value : α} (holds : Holds value) :
    EnsuresFrom Kept Fails Holds (pure value) := fun _ isKept => ⟨holds, isKept⟩

theorem fails_pure (value : α) : FailsOnlyFrom Kept Fails (pure value) :=
  ensures_pure trivial

theorem ensures_throw {failure : Error} (isAllowed : Fails failure) :
    EnsuresFrom Kept Fails Holds (throw failure : Session α) :=
  fun _ isKept => ⟨isAllowed, isKept⟩

theorem ensures_bind {session : Session α} {next : α → Session β}
    (first : session.EnsuresFrom Kept Fails Holds)
    (second : ∀ value, Holds value → (next value).EnsuresFrom Kept Fails Next) :
    (session >>= next).EnsuresFrom Kept Fails Next := by
  intro made isKept
  have met := first made isKept
  rw [on_bind]
  revert met
  generalize session.on made = run
  obtain ⟨result, after⟩ := run
  rintro ⟨met, isKept⟩
  cases result with
  | ok value => exact second value met after isKept
  | error failure => exact ⟨met, isKept⟩

/-- Going on behind work of which only the failures matter. -/
theorem fails_bind {session : Session α} {next : α → Session β}
    (first : session.FailsOnlyFrom Kept Fails)
    (second : ∀ value, (next value).EnsuresFrom Kept Fails Next) :
    (session >>= next).EnsuresFrom Kept Fails Next :=
  ensures_bind first fun value _ => second value

theorem ensures_liftM {result : Except Error α} (only : Diachrony.FailsOnly Fails result)
    (holds : ∀ value, result = .ok value → Holds value) :
    EnsuresFrom Kept Fails Holds (liftM result : Session α) := by
  cases result with
  | ok value => exact ensures_pure (holds value rfl)
  | error failure => exact ensures_throw (only failure rfl)

theorem ensures_lookup {result : Except Error α} {next : α → Session β}
    (only : Diachrony.FailsOnly Fails result)
    (second : ∀ value, result = .ok value → (next value).EnsuresFrom Kept Fails Next) :
    ((liftM result : Session α) >>= next).EnsuresFrom Kept Fails Next := by
  cases result with
  | ok value => exact second value rfl
  | error failure => exact ensures_throw (only failure rfl)

theorem ensures_ite {condition : Prop} [Decidable condition] {session other : Session α}
    (whenTrue : condition → session.EnsuresFrom Kept Fails Holds)
    (whenFalse : ¬condition → other.EnsuresFrom Kept Fails Holds) :
    (if condition then session else other).EnsuresFrom Kept Fails Holds := by
  split
  · exact whenTrue ‹_›
  · exact whenFalse ‹_›

theorem ensures_foldlM {σ : Type} {Steady : σ → Prop} {step : σ → α → Session σ}
    {items : List α}
    (steps : ∀ item ∈ items, ∀ state, Steady state →
      (step state item).EnsuresFrom Kept Fails Steady)
    {state : σ} (steady : Steady state) :
    (items.foldlM step state).EnsuresFrom Kept Fails Steady := by
  induction items generalizing state with
  | nil => exact ensures_pure steady
  | cons item items inductionHypothesis =>
      obtain ⟨first, others⟩ := List.forall_mem_cons.mp steps
      rw [List.foldlM_cons]
      exact ensures_bind (first state steady) fun next isNext => inductionHypothesis others isNext

theorem ensures_mapM {items : List β} {step : β → Session α}
    (steps : ∀ item ∈ items, (step item).EnsuresFrom Kept Fails Holds) :
    (items.mapM step).EnsuresFrom Kept Fails fun values => ∀ value ∈ values, Holds value := by
  induction items with
  | nil => exact ensures_pure fun value isMember => nomatch isMember
  | cons item items inductionHypothesis =>
      obtain ⟨first, others⟩ := List.forall_mem_cons.mp steps
      rw [List.mapM_cons]
      refine ensures_bind first fun value holds => ?_
      refine ensures_bind (inductionHypothesis others) fun values hold => ensures_pure ?_
      exact List.forall_mem_cons.mpr ⟨holds, hold⟩

/-- Among the values is one for each item, of the kind that this item gives. -/
theorem ensures_mapM_each {items : List β} {step : β → Session α} {Each : β → α → Prop}
    (steps : ∀ item ∈ items, (step item).EnsuresFrom Kept Fails (Each item)) :
    (items.mapM step).EnsuresFrom Kept Fails
      fun values => ∀ item ∈ items, ∃ value ∈ values, Each item value := by
  induction items with
  | nil => exact ensures_pure fun item isMember => nomatch isMember
  | cons item items inductionHypothesis =>
      obtain ⟨first, others⟩ := List.forall_mem_cons.mp steps
      rw [List.mapM_cons]
      refine ensures_bind first fun value holds => ?_
      refine ensures_bind (inductionHypothesis others) fun values hold => ensures_pure ?_
      refine List.forall_mem_cons.mpr ⟨⟨value, List.mem_cons_self, holds⟩, fun other isOther => ?_⟩
      obtain ⟨found, isFound, holds⟩ := hold other isOther
      exact ⟨found, List.mem_cons_of_mem _ isFound, holds⟩

theorem fails_mapM {items : List α} {step : α → Session β}
    (steps : ∀ item ∈ items, (step item).FailsOnlyFrom Kept Fails) :
    (items.mapM step).FailsOnlyFrom Kept Fails := by
  induction items with
  | nil => exact fails_pure _
  | cons item items inductionHypothesis =>
      obtain ⟨first, others⟩ := List.forall_mem_cons.mp steps
      rw [List.mapM_cons]
      exact fails_bind first fun _ => fails_bind (inductionHypothesis others) fun _ => fails_pure _

theorem fails_filterM {items : List α} {keep : α → Session Bool}
    (steps : ∀ item ∈ items, (keep item).FailsOnlyFrom Kept Fails) :
    (items.filterM keep).FailsOnlyFrom Kept Fails := by
  have passed : ∀ kept, (items.filterAuxM keep kept).FailsOnlyFrom Kept Fails := by
    induction items with
    | nil => exact fun kept => fails_pure _
    | cons item items inductionHypothesis =>
        obtain ⟨first, others⟩ := List.forall_mem_cons.mp steps
        exact fun kept => fails_bind first fun _ => inductionHypothesis others _
  exact fails_bind (passed []) fun _ => fails_pure _

/-- The inventory that serves for a language now serves for it in all that follows. -/
theorem ensures_inventory {language : Language} {next : Inventory → Session β}
    (endures : Inventories.Endures Kept)
    (second : ∀ inventory, (∃ made, Inventories.Serving Kept language.shortName inventory made) →
      (next inventory).EnsuresFrom (Inventories.Serving Kept language.shortName inventory)
        Fails Next) :
    (inventory language >>= next).EnsuresFrom Kept Fails Next := by
  intro made isKept
  have serves : (serve made language).2.get? language.shortName = some (serve made language).1 := by
    cases isMade : made.get? language.shortName with
    | some found => simp [serve, isMade]
    | none => simp [serve, isMade]
  have isKept := endures made language isKept
  rw [on_bind]
  obtain ⟨met, isKept, -⟩ := second _ ⟨_, isKept, serves⟩ _ ⟨isKept, serves⟩
  exact ⟨met, isKept⟩

theorem fails_inventory (endures : Inventories.Endures Kept) (language : Language) :
    FailsOnlyFrom Kept Fails (inventory language) :=
  fun made isKept => ⟨trivial, endures made language isKept⟩

/-- Work that is put off fails as it would have failed at once. -/
theorem ensures_later {session : Session α} {next : Session α → Session β}
    (first : session.EnsuresFrom Kept Fails Holds)
    (second : ∀ put, put.EnsuresFrom Kept Fails Holds → (next put).EnsuresFrom Kept Fails Next) :
    (later session >>= next).EnsuresFrom Kept Fails Next := by
  intro made isKept
  rw [on_later]
  exact second _ (fun _ _ => first made isKept) made isKept

theorem ensures_adapt {session : Session α} {change : Error → Error}
    (areKept : ∀ failure, Fails failure → Fails (change failure))
    (ensures : session.EnsuresFrom Kept Fails Holds) :
    EnsuresFrom Kept Fails Holds (ExceptT.adapt change session : Session α) := by
  intro made isKept
  obtain ⟨met, isKept⟩ := ensures made isKept
  refine ⟨?_, isKept⟩
  change Meets Fails Holds ((session.on made).1.mapError change)
  revert met
  generalize (session.on made).1 = result
  intro met
  cases result with
  | ok value => exact met
  | error failure => exact areKept failure met

theorem ensures_settle {session : Session α} (ensures : session.EnsuresFrom Kept Fails Holds) :
    (settle session).EnsuresFrom Kept Fails (Meets Fails Holds) := by
  intro made isKept
  obtain ⟨met, staysKept⟩ := ensures made isKept
  rw [on_settle]
  refine ⟨?_, staysKept⟩
  revert met
  cases (session.on made).1 with
  | ok value => exact fun holds => holds
  | error failure =>
      intro isAllowed
      change Meets _ _ (if failure.isRecordable then _ else _)
      split
      · exact isAllowed
      · exact isAllowed

theorem EnsuresFrom.mono {session : Session α} {Other : α → Prop}
    (ensures : session.EnsuresFrom Kept Fails Holds)
    (areOthers : ∀ value, Holds value → Other value) :
    session.EnsuresFrom Kept Fails Other := by
  intro made isKept
  obtain ⟨met, isKept⟩ := ensures made isKept
  refine ⟨?_, isKept⟩
  revert met
  cases (session.on made).1 with
  | ok value => exact areOthers value
  | error failure => exact fun isAllowed => isAllowed

theorem EnsuresFrom.failsOnly {session : Session α}
    (ensures : session.EnsuresFrom Kept Fails Holds) : session.FailsOnlyFrom Kept Fails :=
  ensures.mono fun _ _ => trivial

def AnyError (_ : Error) : Prop := True

theorem failsOnlyFrom_any (session : Session α) :
    session.FailsOnlyFrom Inventories.Any AnyError := by
  intro made _
  refine ⟨?_, trivial⟩
  cases (session.on made).1 <;> trivial

/-- A value that a session gives, it gives from some inventories. -/
theorem FailsOnlyFrom.gave {session : Session α} (fails : session.FailsOnlyFrom Kept Fails) :
    session.EnsuresFrom Kept Fails
      fun value => ∃ made, Kept made ∧ (session.on made).1 = .ok value := by
  intro made isKept
  obtain ⟨met, staysKept⟩ := fails made isKept
  refine ⟨?_, staysKept⟩
  cases gave : (session.on made).1 with
  | ok value => exact ⟨made, isKept, gave⟩
  | error failure =>
      rw [gave] at met
      exact met

end Work

/-- A part that is there is of some kind; that it is missing is one of the failures. -/
def Given (Fails : Error → Prop) (part : Text) (Holds : α → Prop) : Option α → Prop
  | some value => Holds value
  | none => Fails (.missingPart part)

theorem Work.ensures_needed {Kept : Inventories → Prop} {part : Text} {Holds : α → Prop}
    {Next : β → Prop} {value? : Option α} {next : α → Session β}
    (given : Given Fails part Holds value?)
    (second : ∀ value, value? = some value → Holds value →
      (next value).EnsuresFrom Kept Fails Next) :
    ((liftM (needed part value?) : Session α) >>= next).EnsuresFrom Kept Fails Next := by
  cases value? with
  | some value => exact second value rfl given
  | none => exact ensures_throw given

end Diachrony
