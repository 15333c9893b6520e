import Diachrony.Graph.Edit

/-!
# How edits leave a graph

An edit that only asks leaves the graph as it is, whether it fails or not. One that
gives a result has come there step by step, each step on the graph that the one before
it left.  What holds when an edit ends, one way or the other, is found from its steps,
last step first.
-/
namespace Diachrony

namespace Graph

theorem found_eq_ok {α : Type} {kind : EntityKind} {identifier : Text} {value? : Option α}
    {value : α} (gave : found kind identifier value? = .ok value) : value? = some value := by
  cases value? with
  | none => cases gave
  | some stored =>
      cases gave
      rfl

end Graph

namespace Edit

variable {α β : Type}

def OnlyAsks (edit : Edit α) : Prop := ∀ graph, (edit.on graph).2 = graph

theorem on_bind_eq_ok {edit : Edit α} {next : α → Edit β} {graph after : Graph} {value : β} :
    (edit >>= next).on graph = (.ok value, after) ↔
      ∃ first between, edit.on graph = (.ok first, between) ∧
        (next first).on between = (.ok value, after) := by
  rw [on_bind]
  obtain ⟨result, between⟩ := edit.on graph
  cases result with
  | ok first =>
      constructor
      · intro wentOn
        exact ⟨first, between, rfl, wentOn⟩
      · rintro ⟨first, between, ⟨rfl, rfl⟩, wentOn⟩
        exact wentOn
  | error failure =>
      constructor
      · intro wentOn
        cases wentOn
      · rintro ⟨first, between, gave, -⟩
        cases gave

/-- What goes on behind asking goes on from the same graph. -/
theorem OnlyAsks.on_bind_eq_ok {edit : Edit α} {next : α → Edit β} {graph after : Graph}
    {value : β} (asks : edit.OnlyAsks) :
    (edit >>= next).on graph = (.ok value, after) ↔
      ∃ first, edit.on graph = (.ok first, graph) ∧
        (next first).on graph = (.ok value, after) := by
  rw [Edit.on_bind_eq_ok]
  constructor
  · rintro ⟨first, between, gave, wentOn⟩
    have kept := asks graph
    rw [gave] at kept
    cases kept
    exact ⟨first, gave, wentOn⟩
  · rintro ⟨first, gave, wentOn⟩
    exact ⟨first, graph, gave, wentOn⟩

theorem onlyAsks_pure (value : α) : OnlyAsks (pure value) := fun _ => rfl

theorem onlyAsks_throw (error : Error) : OnlyAsks (throw error : Edit α) := fun _ => rfl

theorem onlyAsks_lift (result : Except Error α) : OnlyAsks (lift result) := fun _ => rfl

theorem onlyAsks_ask (query : Graph → Except Error α) : OnlyAsks (ask query) := by
  intro graph
  rw [on_ask]

theorem onlyAsks_get : OnlyAsks get := fun _ => rfl

theorem OnlyAsks.bind {edit : Edit α} {next : α → Edit β} (asks : edit.OnlyAsks)
    (goesOn : ∀ value, (next value).OnlyAsks) : (edit >>= next).OnlyAsks := by
  intro graph
  have kept := asks graph
  rw [on_bind]
  revert kept
  generalize edit.on graph = run
  obtain ⟨result, between⟩ := run
  rintro rfl
  cases result with
  | ok value => exact goesOn value between
  | error failure => rfl

theorem onlyAsks_refuse (conflict : Option Conflict) : OnlyAsks (refuse conflict) := by
  cases conflict with
  | none => exact onlyAsks_pure ()
  | some conflict => exact onlyAsks_throw _

theorem onlyAsks_forM {items : List α} {visit : α → Edit PUnit}
    (each : ∀ item ∈ items, (visit item).OnlyAsks) : (items.forM visit).OnlyAsks := by
  induction items with
  | nil => exact onlyAsks_pure _
  | cons item items inductionHypothesis =>
      exact (each item List.mem_cons_self).bind fun _ =>
        inductionHypothesis fun other isMember => each other (List.mem_cons_of_mem _ isMember)

/-- A row of edits that only ask is made to its end if each of them is. -/
theorem on_forM_eq_ok {graph : Graph} {items : List α} {visit : α → Edit PUnit}
    (each : ∀ item ∈ items, (visit item).OnlyAsks) :
    (items.forM visit).on graph = (.ok (), graph) ↔
      ∀ item ∈ items, (visit item).on graph = (.ok (), graph) := by
  induction items with
  | nil => exact iff_of_true rfl fun _ isMember => nomatch isMember
  | cons item items inductionHypothesis =>
      obtain ⟨first, each⟩ := List.forall_mem_cons.mp each
      change (visit item >>= fun _ => items.forM visit).on graph = _ ↔ _
      rw [first.on_bind_eq_ok, List.forall_mem_cons, ← inductionHypothesis each]
      exact ⟨fun ⟨(), isFirst, areOthers⟩ => ⟨isFirst, areOthers⟩, fun ⟨isFirst, areOthers⟩ =>
        ⟨(), isFirst, areOthers⟩⟩

theorem onlyAsks_forM_option {item? : Option α} {visit : α → Edit PUnit}
    (each : ∀ item, (visit item).OnlyAsks) : (item?.forM visit).OnlyAsks := by
  cases item? with
  | none => exact onlyAsks_pure _
  | some item => exact each item

/-- An edit that changes nothing unless it succeeds. -/
def AllOrNothing (edit : Edit α) : Prop :=
  ∀ graph after failure, edit.on graph = (.error failure, after) → after = graph

theorem OnlyAsks.allOrNothing {edit : Edit α} (asks : edit.OnlyAsks) : edit.AllOrNothing := by
  intro graph after failure failed
  have kept := asks graph
  rw [failed] at kept
  exact kept

theorem OnlyAsks.bind_allOrNothing {edit : Edit α} {next : α → Edit β} (asks : edit.OnlyAsks)
    (goesOn : ∀ value, (next value).AllOrNothing) : (edit >>= next).AllOrNothing := by
  intro graph after failure failed
  have kept := asks graph
  rw [on_bind] at failed
  revert kept failed
  generalize edit.on graph = run
  obtain ⟨result, between⟩ := run
  intro failed kept
  cases kept
  cases result with
  | ok value => exact goesOn value between after failure failed
  | error failure =>
      cases failed
      rfl

/-- Behind the change that it ends with, an edit may not fail. -/
theorem AllOrNothing.map {edit : Edit α} (undivided : edit.AllOrNothing) (give : α → β) :
    (edit >>= fun value => pure (give value)).AllOrNothing := by
  intro graph after failure failed
  rw [on_bind] at failed
  cases ran : edit.on graph with
  | mk result between =>
      rw [ran] at failed
      cases result with
      | ok value => cases failed
      | error failure =>
          cases failed
          exact undivided graph _ _ ran

theorem allOrNothing_modify (change : Graph → Graph) :
    AllOrNothing (modify change : Edit PUnit) := by
  intro graph after failure failed
  cases failed

/-- How an edit of a graph ends: what holds of the value and the graph after it if it
succeeds, and of the graph alone if it fails. -/
def Ends (edit : Edit α) (graph : Graph) (Given : α → Graph → Prop) (Failed : Graph → Prop) :
    Prop :=
  match edit.on graph with
  | (.ok value, after) => Given value after
  | (.error _, after) => Failed after

section

variable {graph after : Graph} {Given : α → Graph → Prop} {Failed : Graph → Prop}

theorem ends_iff {edit : Edit α} :
    edit.Ends graph Given Failed ↔
      (∀ value after, edit.on graph = (.ok value, after) → Given value after) ∧
        ∀ error after, edit.on graph = (.error error, after) → Failed after := by
  unfold Ends
  obtain ⟨result, after⟩ := edit.on graph
  cases result with
  | ok value => simp
  | error error => simp

theorem Ends.mono {edit : Edit α} {More : α → Graph → Prop} {Fewer : Graph → Prop}
    (ends : edit.Ends graph Given Failed)
    (given : ∀ value after, Given value after → More value after)
    (failed : ∀ after, Failed after → Fewer after) : edit.Ends graph More Fewer := by
  rw [ends_iff] at ends ⊢
  exact ⟨fun value after gave => given value after (ends.1 value after gave),
    fun error after gave => failed after (ends.2 error after gave)⟩

@[simp] theorem ends_bind {edit : Edit β} {next : β → Edit α} :
    (edit >>= next).Ends graph Given Failed ↔
      edit.Ends graph (fun value after => (next value).Ends after Given Failed) Failed := by
  unfold Ends
  rw [on_bind]
  obtain ⟨result, between⟩ := edit.on graph
  cases result <;> rfl

@[simp] theorem ends_pure {value : α} :
    (pure value : Edit α).Ends graph Given Failed ↔ Given value graph := Iff.rfl

@[simp] theorem ends_throw {error : Error} :
    (throw error : Edit α).Ends graph Given Failed ↔ Failed graph := Iff.rfl

@[simp] theorem ends_get {Given : Graph → Graph → Prop} :
    (get : Edit Graph).Ends graph Given Failed ↔ Given graph graph := Iff.rfl

theorem ends_lift {result : Except Error α} :
    (lift result).Ends graph Given Failed ↔
      (∀ value, result = .ok value → Given value graph) ∧
        ∀ error, result = .error error → Failed graph := by
  cases result with
  | ok value => simp [Ends]
  | error error => simp [Ends]

theorem ends_ask {query : Graph → Except Error α} :
    (ask query).Ends graph Given Failed ↔
      (∀ value, query graph = .ok value → Given value graph) ∧
        ∀ error, query graph = .error error → Failed graph := by
  unfold ask
  rw [ends_bind, ends_get, ends_lift]

theorem ends_refuseIf {isConflicting : Bool} {conflict : Conflict} {Given : Unit → Graph → Prop} :
    (refuseIf isConflicting conflict).Ends graph Given Failed ↔
      (isConflicting = true → Failed graph) ∧ (isConflicting = false → Given () graph) := by
  cases isConflicting <;> simp [refuseIf, refuse]

theorem ends_refuse {conflict : Option Conflict} {Given : Unit → Graph → Prop} :
    (refuse conflict).Ends graph Given Failed ↔
      (∀ found, conflict = some found → Failed graph) ∧ (conflict = none → Given () graph) := by
  cases conflict <;> simp [refuse]

/-- An edit that succeeds is followed by what goes on from there. -/
theorem ends_bind_of_on {edit : Edit β} {value : β} {between : Graph} {next : β → Edit α}
    (gave : edit.on graph = (.ok value, between)) :
    (edit >>= next).Ends graph Given Failed ↔ (next value).Ends between Given Failed := by
  unfold Ends
  rw [on_bind, gave]

theorem ends_bind_lift {result : Except Error β} {value : β} {next : β → Edit α}
    (gave : result = .ok value) :
    (lift result >>= next).Ends graph Given Failed ↔ (next value).Ends graph Given Failed :=
  ends_bind_of_on (by rw [on_lift, gave])

theorem ends_bind_ask {query : Graph → Except Error β} {value : β} {next : β → Edit α}
    (gave : query graph = .ok value) :
    (ask query >>= next).Ends graph Given Failed ↔ (next value).Ends graph Given Failed :=
  ends_bind_of_on (by rw [on_ask, gave])

theorem ends_bind_refuseIf {isConflicting : Bool} {conflict : Conflict} {next : Unit → Edit α}
    (noConflict : isConflicting = false) :
    (refuseIf isConflicting conflict >>= next).Ends graph Given Failed ↔
      (next ()).Ends graph Given Failed :=
  ends_bind_of_on (by rw [noConflict]; rfl)

/-- An edit that only asks ends on the graph that it was made on. -/
theorem OnlyAsks.ends {edit : Edit α} (asks : edit.OnlyAsks) (failed : Failed graph)
    (given : ∀ value, edit.on graph = (.ok value, graph) → Given value graph) :
    edit.Ends graph Given Failed := by
  rw [ends_iff]
  refine ⟨fun value after gave => ?_, fun error after gave => ?_⟩
  · obtain rfl : after = graph := by rw [← asks graph, gave]
    exact given value gave
  · obtain rfl : after = graph := by rw [← asks graph, gave]
    exact failed

/-- A check ends on the graph that it was made on, and it is known when it is passed. -/
theorem OnlyAsks.ends_of_iff {check : Edit Unit} {Passes : Prop} {Given : Unit → Graph → Prop}
    (asks : check.OnlyAsks) (passes : check.on graph = (.ok (), graph) ↔ Passes)
    (failed : ¬Passes → Failed graph) (given : Passes → Given () graph) :
    check.Ends graph Given Failed := by
  have kept := asks graph
  unfold Ends
  cases isRun : check.on graph with
  | mk result after =>
      rw [isRun] at kept passes
      cases kept
      cases result with
      | ok value => exact given (passes.mp rfl)
      | error error => exact failed fun isPassed => nomatch congrArg Prod.fst (passes.mpr isPassed)

/-- A row of edits keeps what each of them keeps. -/
theorem ends_forM {Kept : Graph → Prop} {items : List β} {visit : β → Edit PUnit}
    (isKept : Kept graph)
    (each : ∀ item ∈ items, ∀ graph, Kept graph → (visit item).Ends graph (fun _ => Kept) Kept) :
    (items.forM visit).Ends graph (fun _ => Kept) Kept := by
  induction items generalizing graph with
  | nil => exact isKept
  | cons item items inductionHypothesis =>
      obtain ⟨first, each⟩ := List.forall_mem_cons.mp each
      change (visit item >>= fun _ => items.forM visit).Ends graph (fun _ => Kept) Kept
      rw [ends_bind]
      exact (first graph isKept).mono (fun _ _ isKept => inductionHypothesis isKept each)
        fun _ isKept => isKept

end

def Keeps (Kept : Graph → Prop) (edit : Edit α) : Prop :=
  ∀ graph : Graph, Kept graph → edit.Ends graph (fun _ => Kept) Kept

section

variable {Kept : Graph → Prop}

theorem OnlyAsks.keeps {edit : Edit α} (asks : edit.OnlyAsks) : edit.Keeps Kept :=
  fun _ isKept => asks.ends isKept fun _ _ => isKept

/-- What is kept holds of the graph that an edit leaves. -/
theorem Keeps.on {edit : Edit α} {graph : Graph} (keeps : edit.Keeps Kept) (isKept : Kept graph) :
    Kept (edit.on graph).2 := by
  have ends := ends_iff.mp (keeps graph isKept)
  cases isRun : edit.on graph with
  | mk result after =>
      cases result with
      | ok value => exact ends.1 value after isRun
      | error error => exact ends.2 error after isRun

theorem Keeps.bind {edit : Edit α} {next : α → Edit β} (keeps : edit.Keeps Kept)
    (goesOn : ∀ value, (next value).Keeps Kept) : (edit >>= next).Keeps Kept := by
  intro graph isKept
  rw [ends_bind]
  exact (keeps graph isKept).mono (fun value after isKept => goesOn value after isKept)
    fun _ isKept => isKept

theorem Keeps.passOver {edit : Edit α} (keeps : edit.Keeps Kept) :
    (do let _ ← edit : Edit Unit).Keeps Kept :=
  keeps.bind fun _ => (onlyAsks_pure _).keeps

theorem keeps_forM {items : List β} {visit : β → Edit PUnit}
    (each : ∀ item ∈ items, (visit item).Keeps Kept) : (items.forM visit).Keeps Kept :=
  fun _ isKept => ends_forM isKept each

theorem keeps_mapM {items : List β} {visit : β → Edit α}
    (each : ∀ item, (visit item).Keeps Kept) : (items.mapM visit).Keeps Kept := by
  induction items with
  | nil => exact (onlyAsks_pure _).keeps
  | cons item items inductionHypothesis =>
      rw [List.mapM_cons]
      exact (each item).bind fun _ => inductionHypothesis.bind fun _ => (onlyAsks_pure _).keeps

/-- What is needed of what was asked for is known where it goes on. -/
theorem keeps_ask {query : Graph → Except Error α} {next : α → Edit β}
    (goesOn : ∀ value (graph : Graph), Kept graph → query graph = .ok value →
      (next value).Ends graph (fun _ => Kept) Kept) : (ask query >>= next).Keeps Kept := by
  intro graph isKept
  rw [ends_bind, ends_ask]
  exact ⟨fun value isValue => goesOn value graph isKept isValue, fun _ _ => isKept⟩

end

end Edit

end Diachrony
