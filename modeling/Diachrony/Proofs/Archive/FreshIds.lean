import Diachrony.Proofs.Archive.Restoring
import Diachrony.Proofs.Graph.Additions

/-!
# Fresh ids

An id that is handed out without being asked for was never in use before.  Restoring asks for all
ids but those of paradigms that have none above zero.
-/
namespace Diachrony

namespace IdPolicy

/-- Ids in use are some ids. -/
def among (Allowed : Int → Prop) : IdPolicy where
  Admits _ id := Allowed id
  AdmitsName _ _ given := Allowed (given.next - 1)
  lasts _ isAllowed := isAllowed
  nameLasts _ isAllowed := isAllowed
  named isAllowed := isAllowed

theorem among_grants_integer {start id : Int} {Allowed : Int → Prop} (isAllowed : Allowed id) :
    (among Allowed).Grants start (.integer id) := by
  intro graph given _ allots _
  have isGiven : Data.integer id = given.toData := allots
  cases given with
  | whole number =>
      cases isGiven
      change Allowed (id + 1 - 1)
      rwa [Int.add_sub_cancel]
  | flag | decimal => cases isGiven

/-- Ids in use are those that were in use in some graph, and those that were not handed out yet.
Names stand for what they stood for there, if they do not stand for what is new. -/
def since (start : Graph) : IdPolicy where
  Admits _ id := start.Uses id ∨ start.nextId ≤ id
  AdmitsName _ key given := start.ruleNames.get? key = some given ∨ start.nextId ≤ given.next - 1
  lasts _ isAllowed := isAllowed
  nameLasts _ isAllowed := isAllowed
  named := fun isNamed => isNamed.imp_left .name

/-- The next free id is all that a mutation gets that asks for none. -/
theorem since_grants_null (start : Graph) : (since start).Grants start.nextId .null := by
  intro graph given grown allots _
  cases allots
  refine .inr ?_
  change start.nextId ≤ graph.nextId + 1 - 1
  omega

end IdPolicy

namespace Graph

open Archive Edit Record

variable {graph later after : Graph}

/-- The ids that the things in a graph have, and that they are archived with. -/
inductive Owns (graph : Graph) : Int → Prop
  | word {word : Word} : word ∈ graph.words.values → Owns graph word.id
  | rule {rule : Rule} : rule ∈ graph.rules.values → Owns graph rule.id
  | sequence {sequence : RuleSequence} : sequence ∈ graph.sequences.values → Owns graph sequence.id
  | paradigm {paradigm : Paradigm} : paradigm ∈ graph.paradigms.values → Owns graph paradigm.id
  | compound {compound : Compound} : compound ∈ graph.compounds.values → Owns graph compound.id

/-- The records of things that have ids ask for these. -/
theorem exists_own_of_request {α : Type} {things : List α} {fields : α → Fields} {id : α → Int}
    (isOwn : ∀ thing, requestIn (fields thing) = [.integer (id thing)]) {data requested : Data}
    {record : Fields} (isMember : data ∈ things.map fun thing => .record (fields thing))
    (isRecord : fieldsOrPairs data = .ok record) (isRequest : requested ∈ requestIn record) :
    ∃ thing ∈ things, requested = .integer (id thing) := by
  obtain ⟨thing, isStored, rfl⟩ := List.mem_map.mp isMember
  cases isRecord
  rw [isOwn] at isRequest
  exact ⟨thing, isStored, List.mem_singleton.mp isRequest⟩

/-- An archive asks for the ids that things have, where these are ids that a paradigm may ask
for. -/
theorem owns_of_requests {order : SetOrder} {archive : Fields}
    (wrote : Archive.write graph order = .ok (.record archive))
    (arePositive : ∀ paradigm ∈ graph.paradigms.values, 0 < paradigm.id) {requested : Data}
    (isRequest : Requests archive requested) : ∃ id, graph.Owns id ∧ requested = .integer id := by
  obtain ⟨rules, areRules, wrote⟩ := Except.bind_eq_ok.mp wrote
  cases wrote
  cases isRequest with
  | inRecord isNumbered areItems isMember isRecord isRequest =>
      simp only [numbered, List.mem_cons, List.not_mem_nil, or_false] at isNumbered
      rcases isNumbered with rfl | rfl | rfl | rfl <;> cases areItems
      · have isOwn : ∀ word : Word, requestIn word.fields = [.integer word.id] := fun _ => rfl
        obtain ⟨word, isStored, isId⟩ := exists_own_of_request isOwn isMember isRecord isRequest
        exact ⟨word.id, .word isStored, isId⟩
      · obtain ⟨rule, isStored, isWritten⟩ := Except.exists_of_mem_of_mapM areRules isMember
        obtain ⟨text, -, isWritten⟩ := Except.bind_eq_ok.mp isWritten
        cases isWritten
        cases isRecord
        exact ⟨rule.id, .rule isStored, List.mem_singleton.mp isRequest⟩
      · have isOwn : ∀ sequence : RuleSequence,
            requestIn sequence.fields = [.integer sequence.id] := fun _ => rfl
        obtain ⟨sequence, isStored, isId⟩ := exists_own_of_request isOwn isMember isRecord isRequest
        exact ⟨sequence.id, .sequence isStored, isId⟩
      · have isOwn : ∀ compound : Compound,
            requestIn compound.fields = [.integer compound.id] := fun _ => rfl
        obtain ⟨compound, isStored, isId⟩ := exists_own_of_request isOwn isMember isRecord isRequest
        exact ⟨compound.id, .compound isStored, isId⟩
  | @ofParadigm _ _ written areItems isMember isParadigm =>
      cases areItems
      obtain ⟨stored, isStored, rfl⟩ := List.mem_map.mp isMember
      obtain rfl : stored = written := Except.ok.inj (stored.ofData_toData.symm.trans isParadigm)
      exact ⟨stored.id, .paradigm isStored, if_pos (arePositive stored isStored)⟩

/-- When a graph has been restored, the ids in use are those that its things had. -/
theorem owns_of_uses_restored {order : SetOrder} {data : Data}
    (wrote : Archive.write graph order = .ok data)
    (readBack : Archive.read data = .ok after)
    (arePositive : ∀ paradigm ∈ graph.paradigms.values, 0 < paradigm.id) {id : Int}
    (isUsed : after.Uses id) : graph.Owns id := by
  obtain ⟨archive, rfl⟩ := exists_record_of_read readBack
  have obeys : after.Obeys (.among graph.Owns) 1 := by
    refine obeys_of_read readBack fun requested isRequest => ?_
    obtain ⟨id, isOwned, rfl⟩ := owns_of_requests wrote arePositive isRequest
    exact IdPolicy.among_grants_integer isOwned
  exact obeys.admits isUsed

/-- An id that has not been handed out yet, and was in use neither now nor before. -/
def IsFreshSince (later graph : Graph) (id : Int) : Prop :=
  later.nextId ≤ id ∧ ¬later.Uses id ∧ ¬graph.Uses id

theorem isFreshSince_of_le (occurs : graph.Occurs) (becomes : graph.Becomes later) {id : Int}
    (isAbove : later.nextId ≤ id) : later.IsFreshSince graph id := by
  have counted := occurs.counted
  have countedLater := becomes.counted counted
  refine ⟨isAbove, fun isUsed => ?_, fun wasUsed => ?_⟩
  · have isBelow : id < later.nextId := countedLater.admits isUsed
    omega
  · have isBelow : id < graph.nextId := counted.admits wasUsed
    have grown := countedLater.grown
    omega

/-- The ids in use behind a mutation were in use before or are fresh.  Names stand for what they
stood for or for something fresh, and a thing is added where nothing was, under an id that is fresh
or was reserved. -/
structure NumbersAfresh (graph later : Graph) (mutation : Mutation) : Prop where
  ids : ∀ id, (mutation.run.on later).2.Uses id → later.Uses id ∨ later.IsFreshSince graph id
  names : ∀ key given, (mutation.run.on later).2.ruleNames.get? key = some given →
    later.ruleNames.get? key = some given ∨ later.IsFreshSince graph (given.next - 1)
  places : ∀ after, mutation.IsAddition → mutation.run.on later = (.ok (), after) →
    ∃ place : Place, later.at? place = none ∧ (after.at? place).isSome = true ∧
      ∀ id, place.id? = some id → later.Awaits id ∨ later.IsFreshSince graph id

theorem numbersAfresh (occurs : graph.Occurs) (becomes : graph.Becomes later) {mutation : Mutation}
    (noRequest : ∀ requested ∈ mutation.requests, requested = .null) :
    graph.NumbersAfresh later mutation := by
  have obeys : later.Obeys (.since later) later.nextId :=
    obeys_of_uses (Int.le_refl _) (fun _ isUsed => .inl isUsed) fun _ _ isNamed => .inl isNamed
  have follows : mutation.run.Follows (.since later) later.nextId :=
    Mutation.follows_run fun requested isRequest =>
      noRequest requested isRequest ▸ IdPolicy.since_grants_null later
  have noneAsked : ∀ id, ¬mutation.Asks id := by
    rintro id ⟨requested, isRequest, isNumber⟩
    rw [noRequest requested isRequest] at isNumber
    cases isNumber
  refine ⟨fun id isUsed => ?_, fun key given isNamed => ?_, fun after isAddition gave => ?_⟩
  · exact ((follows.on obeys).admits isUsed).imp_right (isFreshSince_of_le occurs becomes)
  · exact ((follows.on obeys).names key given isNamed).imp_right (isFreshSince_of_le occurs becomes)
  · have yields := Mutation.yields_run (becomes.counted occurs.counted) isAddition
    obtain ⟨place, mayBe, isStored, -, -⟩ := (ends_iff.mp yields).1 () after gave
    refine ⟨place, ?_, isStored, fun id isId => ?_⟩
    · rw [← Option.not_isSome_iff_eq_none]
      intro wasStored
      obtain ⟨id, -, isAsked, -⟩ := mayBe.free wasStored
      exact noneAsked id isAsked
    · rcases mayBe.given id isId with rfl | isAsked | isAwaited
      · exact .inr (isFreshSince_of_le occurs becomes (Int.le_refl _))
      · exact absurd isAsked (noneAsked id)
      · exact .inl isAwaited

/-- Names stand for ids below the next free one, and one that is new since some graph shares its
id with no other name. -/
structure NewNamesApart (start graph : Graph) : Prop where
  counted : ∀ key given, graph.ruleNames.get? key = some given → given.next - 1 < graph.nextId
  apart : ∀ key other given, graph.ruleNames.get? key = some given →
    graph.ruleNames.get? other = some given → start.ruleNames.get? key = none → key = other

theorem keepsApart_reserveRule (start : Graph) (name : Text) :
    (reserveRule (.text name) .null).Keeps start.NewNamesApart := by
  intro graph isApart
  refine ends_reserve isApart (fun _ _ _ _ => isApart) fun key given _ _ allots => ?_
  cases allots
  have isAbove : ∀ other given, graph.ruleNames.get? other = some given →
      given ≠ .whole graph.nextId := by
    rintro other _ isNamed rfl
    have isBelow : graph.nextId + 1 - 1 < graph.nextId := isApart.counted other _ isNamed
    omega
  refine ⟨fun other found isNamed => ?_, fun first second found isFirst isSecond isNew => ?_⟩
  · change found.next - 1 < max graph.nextId (graph.nextId + 1)
    rw [Table.get?_insert] at isNamed
    split at isNamed
    · cases isNamed
      change graph.nextId + 1 - 1 < _
      omega
    · have isBelow := isApart.counted other found isNamed
      omega
  · rw [Table.get?_insert] at isFirst isSecond
    split at isFirst <;> split at isSecond
    · rename_i isKey isOther
      exact isKey.trans isOther.symm
    · cases isFirst
      exact absurd rfl (isAbove _ _ isSecond)
    · cases isSecond
      exact absurd rfl (isAbove _ _ isFirst)
    · exact isApart.apart first second found isFirst isSecond isNew

theorem keepsApart_registerRules (start : Graph) (names : List Text) :
    (registerRules names).Keeps start.NewNamesApart :=
  keeps_mapM fun name => (keepsApart_reserveRule start name).bind fun _ => (onlyAsks_pure _).keeps

def inhabited : Graph := ofRun [
  .addLanguage { name := "A", shortName := "a" } Mutation.isNamed_a,
  .addWord [("text", .text "x"), ("language", .text "a"), ("id", .null)]]

/-- The same graph when its word has been deleted. -/
def deserted : Graph := ofRun [
  .addLanguage { name := "A", shortName := "a" } Mutation.isNamed_a,
  .addWord [("text", .text "x"), ("language", .text "a"), ("id", .null)],
  .deleteWord 1]

end Graph

end Diachrony
