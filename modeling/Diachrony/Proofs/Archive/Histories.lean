import Diachrony.Archive
import Diachrony.Proofs.Graph.Numbering

/-!
# Histories of graphs

In the course of mutations and of restorings, the next free id is above all ids in use, and it
never goes down.
-/
namespace Diachrony

namespace Archive

open Edit Record

variable {α : Type} {policy : IdPolicy} {start : Int} {archive : Fields}

theorem follows_onPairs {enter : Fields → Edit α} {data : Data}
    (follows : ∀ record, fieldsOrPairs data = .ok record → (enter record).Follows policy start) :
    (onPairs enter data).Follows policy start :=
  keeps_bind_lift fun record isRecord => (follows record isRecord).passOver

theorem follows_onFields {enter : Fields → Edit α} {data : Data}
    (follows : ∀ record, fieldsOrPairs data = .ok record → (enter record).Follows policy start) :
    (onFields enter data).Follows policy start := by
  unfold onFields
  split
  · exact (follows _ rfl).passOver
  · exact (onlyAsks_throw _).keeps

theorem follows_readEach {name : Text} {readOne : Data → Edit Unit}
    (each : ∀ datas, items archive name = .ok datas → ∀ data ∈ datas,
      (readOne data).Follows policy start) :
    (readEach archive name readOne).Follows policy start :=
  keeps_bind_lift fun datas areDatas => keeps_forM fun data isMember => each datas areDatas data isMember

theorem follows_enterNextId (data : Data) : (enterNextId data).Follows policy start := by
  unfold enterNextId
  split
  · exact follows_advanceIds _
  · exact (onlyAsks_throw _).keeps

def numbered : List Text := ["words", "rules", "sequences", "compounds"]

/-- What an archive asks for as the ids of what it holds. -/
inductive Requests (archive : Fields) : Data → Prop
  | inRecord {name : Text} {datas : List Data} {data requested : Data} {record : Fields}
      (isNumbered : name ∈ numbered) (areItems : items archive name = .ok datas)
      (isMember : data ∈ datas) (isRecord : fieldsOrPairs data = .ok record)
      (isRequest : requested ∈ requestIn record) : Requests archive requested
  | ofParadigm {datas : List Data} {data : Data} {paradigm : Paradigm}
      (areItems : items archive "paradigms" = .ok datas) (isMember : data ∈ datas)
      (isParadigm : Paradigm.ofData data = .ok paradigm) : Requests archive (templateRequest paradigm)

/-- Reading an archive brings no id into use that a policy does not admit, if what it asks for
is granted. -/
theorem follows_readAll
    (grants : ∀ requested, Requests archive requested → policy.Grants start requested) :
    (readAll archive).Follows policy start := by
  have grantsIn : ∀ name ∈ numbered, ∀ datas, items archive name = .ok datas → ∀ data ∈ datas,
      ∀ record, fieldsOrPairs data = .ok record → ∀ requested ∈ requestIn record,
        policy.Grants start requested :=
    fun _ isNumbered _ areItems _ isMember _ isRecord requested isRequest =>
      grants requested (.inRecord isNumbered areItems isMember isRecord isRequest)
  have words := grantsIn "words" (by decide)
  have rules := grantsIn "rules" (by decide)
  have sequences := grantsIn "sequences" (by decide)
  have compounds := grantsIn "compounds" (by decide)
  unfold readAll
  refine Keeps.bind (follows_readEach fun _ _ _ _ => ?_) fun _ => ?_
  · exact (follows_lift _).bind fun language => follows_addLanguage language
  refine Keeps.bind (follows_readEach fun datas areItems data isMember => ?_) fun _ => ?_
  · exact follows_onPairs fun record isRecord =>
      follows_enterWord (words datas areItems data isMember record isRecord)
  refine Keeps.bind (follows_readEach fun datas areItems data isMember => ?_) fun _ => ?_
  · exact follows_onFields fun record isRecord =>
      follows_enterRuleName (rules datas areItems data isMember record isRecord)
  refine Keeps.bind (follows_readEach fun datas areItems data isMember => ?_) fun _ => ?_
  · exact follows_onFields fun record isRecord =>
      follows_enterRule (rules datas areItems data isMember record isRecord) none
  refine Keeps.bind (follows_readEach fun datas areItems data isMember => ?_) fun _ => ?_
  · exact follows_onFields fun record isRecord =>
      follows_enterSequence (sequences datas areItems data isMember record isRecord) readSteps
  refine Keeps.bind (follows_readEach fun datas areItems data isMember => ?_) fun _ => ?_
  · refine keeps_bind_lift fun paradigm isParadigm => Keeps.passOver ?_
    exact follows_addTemplate (grants _ (.ofParadigm areItems isMember isParadigm))
  refine Keeps.bind (follows_readEach fun datas areItems data isMember => ?_) fun _ => ?_
  · exact follows_onPairs fun record _ => follows_enterLink record
  refine Keeps.bind (follows_readEach fun datas areItems data isMember => ?_) fun _ => ?_
  · exact follows_onFields fun record isRecord =>
      follows_enterCompound (compounds datas areItems data isMember record isRecord)
  exact follows_enterNextId _

/-- The next free id is no less than the one that an archive tells. -/
theorem nextId_le_of_readAll {nextId : Int} {graph after : Graph}
    (isTold : get? archive "next_id" = some (.integer nextId))
    (gave : (readAll archive).on graph = (.ok (), after)) : nextId ≤ after.nextId := by
  unfold readAll at gave
  rw [isTold] at gave
  iterate 8 obtain ⟨_, _, -, gave⟩ := on_bind_eq_ok.mp gave
  cases gave
  change nextId ≤ max _ (nextId + 1 - 1)
  omega

theorem on_readAll {after : Graph} (gave : read (.record archive) = .ok after) :
    (readAll archive).on {} = (.ok (), after) := by
  unfold read at gave
  dsimp only at gave
  split at gave
  · rename_i graph isRead
    cases gave
    exact isRead
  · cases gave

/-- Only records are read. -/
theorem exists_record_of_read {data : Data} {after : Graph} (gave : read data = .ok after) :
    ∃ archive, data = .record archive := by
  cases data with
  | record archive => exact ⟨archive, rfl⟩
  | null | flag | integer | decimal | text | list => cases gave

end Archive

namespace Graph

open Archive Edit Record

variable {graph later after : Graph}

/-- A graph that mutations and archives come to, whatever is mutated and whatever the archives
hold. -/
inductive Occurs : Graph → Prop
  | empty : Occurs {}
  | mutate {graph : Graph} (mutation : Mutation) (occurs : Occurs graph) :
      Occurs (mutation.run.on graph).2
  | read {data : Data} {graph : Graph} (isRead : Archive.read data = .ok graph) : Occurs graph

/-- A graph comes of another one by mutations and by being restored from its own archive. -/
inductive Becomes (start : Graph) : Graph → Prop
  | refl : Becomes start start
  | mutate {graph : Graph} (mutation : Mutation) (becomes : Becomes start graph) :
      Becomes start (mutation.run.on graph).2
  | restore {graph after : Graph} {order : SetOrder} {data : Data} (becomes : Becomes start graph)
      (wrote : Archive.write graph order = .ok data) (readBack : Archive.read data = .ok after) :
      Becomes start after

theorem IsReachedBy.occurs {Allowed : Mutation → Prop} (isReached : graph.IsReachedBy Allowed) :
    graph.Occurs := by
  induction isReached with
  | empty => exact .empty
  | mutate _ _ inductionHypothesis => exact inductionHypothesis.mutate _

theorem obeys_empty (policy : IdPolicy) : Obeys policy 1 {} where
  grown := Int.le_refl 1
  words := fun _ isStored => nomatch isStored
  rules := fun _ isStored => nomatch isStored
  sequences := fun _ isStored => nomatch isStored
  paradigms := fun _ isStored => nomatch isStored
  compounds := fun _ isStored => nomatch isStored
  names := fun _ _ isNamed => nomatch isNamed

/-- Reading an archive brings no id into use that a policy does not admit, if what the archive
asks for is granted. -/
theorem obeys_of_read {policy : IdPolicy} {archive : Fields}
    (isRead : Archive.read (.record archive) = .ok graph)
    (grants : ∀ requested, Requests archive requested → policy.Grants 1 requested) :
    graph.Obeys policy 1 :=
  (ends_iff.mp (follows_readAll grants {} (obeys_empty policy))).1 () graph (on_readAll isRead)

/-- A graph that is restored goes on with the ids from where it was. -/
theorem nextId_le_of_restored {order : SetOrder} {data : Data}
    (wrote : Archive.write graph order = .ok data)
    (readBack : Archive.read data = .ok after) : graph.nextId ≤ after.nextId := by
  obtain ⟨rules, -, wrote⟩ := Except.bind_eq_ok.mp wrote
  cases wrote
  exact nextId_le_of_readAll rfl (on_readAll readBack)

theorem counted_of_read {data : Data} (isRead : Archive.read data = .ok graph) :
    graph.Obeys .counted 1 := by
  obtain ⟨archive, rfl⟩ := exists_record_of_read isRead
  exact obeys_of_read isRead fun requested _ => IdPolicy.counted_grants 1 requested

theorem counted_run {start : Int} (mutation : Mutation) (obeys : graph.Obeys .counted start) :
    (mutation.run.on graph).2.Obeys .counted start :=
  (Mutation.follows_run fun requested _ => IdPolicy.counted_grants start requested).on obeys

/-- Whatever happens, the ids in use are below the next free one. -/
theorem Occurs.counted (occurs : graph.Occurs) : graph.Obeys .counted 1 := by
  induction occurs with
  | empty => exact obeys_empty .counted
  | mutate mutation _ inductionHypothesis => exact counted_run mutation inductionHypothesis
  | read isRead => exact counted_of_read isRead

/-- In the course of mutations and restorings, the next free id never goes down. -/
theorem Becomes.counted {start : Int} (becomes : graph.Becomes later)
    (obeys : graph.Obeys .counted start) : later.Obeys .counted graph.nextId := by
  induction becomes with
  | refl => exact { obeys with grown := Int.le_refl _ }
  | mutate mutation _ inductionHypothesis => exact counted_run mutation inductionHypothesis
  | restore _ wrote readBack inductionHypothesis =>
      have grown := nextId_le_of_restored wrote readBack
      exact { counted_of_read readBack with grown := Int.le_trans inductionHypothesis.grown grown }

end Graph

end Diachrony
