import Diachrony.Proofs.Graph.Allotment
import Diachrony.Proofs.Graph.Sparing

/-!
# The names of rules stand for what they stood for

A rule is referred to by name, and the id that its name stood for when it was read is what is
followed from then on.  Names are reserved before their rules are there, are given back where a
rule cannot be read, and go with a rule that is deleted.  As long as rules are read from texts,
a name that some rule refers to is none of those that go: what stands in the way is that the
rule which it stands for may not be deleted.
-/
namespace Diachrony

namespace Graph

/-- Rules, and what their names stand for. -/
def ruleTables (graph : Graph) : Table Int Rule × Table Key GivenId :=
  (graph.rules, graph.ruleNames)

/-- A rule carries the id that it is stored under, its name stands for this id, and the names of
the rules that it refers to stand for these rules. -/
structure NamesRule (graph : Graph) (id : Int) (rule : Rule) : Prop where
  isOwn : rule.id = id
  named : ∃ given, graph.ruleNames.get? (.text rule.name) = some given ∧ given.number? = some id
  refers : ∀ other ∈ rule.logic.ruleRefs, graph.resolver other.name = some other

/-- A graph in which the names of the rules that are stored, and of those that they refer to,
stand for them. -/
def IsWellNamed (graph : Graph) : Prop :=
  ∀ id rule, graph.rules.get? id = some rule → graph.NamesRule id rule

variable {graph after : Graph}

theorem resolver_eq_some {name : Text} {rule : RuleRef} :
    graph.resolver name = some rule ↔
      ∃ given, graph.ruleNames.get? (.text name) = some given ∧
        (⟨given.number?.getD 0, name, given.isFlag⟩ : RuleRef) = rule :=
  Option.map_eq_some_iff

theorem NamesRule.mono {id : Int} {rule : Rule} (isNamed : graph.NamesRule id rule)
    (names : ∀ name given, given.number? = some id ∨
      (∃ other ∈ rule.logic.ruleRefs, given.number?.getD 0 = other.id) →
        graph.ruleNames.get? (.text name) = some given →
          after.ruleNames.get? (.text name) = some given) : after.NamesRule id rule where
  isOwn := isNamed.isOwn
  named := by
    obtain ⟨given, isGiven, isNumber⟩ := isNamed.named
    exact ⟨given, names _ given (.inl isNumber) isGiven, isNumber⟩
  refers := by
    intro other isReferred
    obtain ⟨given, isGiven, same⟩ := resolver_eq_some.mp (isNamed.refers other isReferred)
    have isId : given.number?.getD 0 = other.id := congrArg RuleRef.id same
    exact resolver_eq_some.mpr
      ⟨given, names _ given (.inr ⟨other, isReferred, isId⟩) isGiven, same⟩

theorem IsWellNamed.of_same (isWellNamed : graph.IsWellNamed)
    (same : after.ruleTables = graph.ruleTables) : after.IsWellNamed := by
  obtain ⟨sameRules, sameNames⟩ := Prod.mk.inj same
  intro id rule isStored
  rw [sameRules] at isStored
  refine (isWellNamed id rule isStored).mono fun name given _ isGiven => ?_
  rwa [sameNames]

/-- A name that stands for nothing yet may come to stand for any id. -/
theorem IsWellNamed.withName (isWellNamed : graph.IsWellNamed) {key : Key} {id : GivenId}
    {nextId : Int} (isNew : graph.ruleNames.get? key = none) :
    IsWellNamed { graph with nextId, ruleNames := graph.ruleNames.insert key id } := by
  intro other rule isStored
  refine (isWellNamed other rule isStored).mono fun name given _ isGiven => ?_
  change (graph.ruleNames.insert key id).get? (.text name) = some given
  rw [Table.get?_insert, if_neg, isGiven]
  rintro rfl
  cases isNew.symm.trans isGiven

/-- What was stored under the id before does not matter. -/
theorem IsWellNamed.putRule (isWellNamed : graph.IsWellNamed) {id : Int} {rule : Rule}
    (isNamed : graph.NamesRule id rule) :
    IsWellNamed { graph with rules := graph.rules.insert id rule } := by
  intro other found isStored
  change (graph.rules.insert id rule).get? other = some found at isStored
  rw [Table.get?_insert] at isStored
  split at isStored
  · rename_i isSame
    cases isStored
    cases isSame
    exact ⟨isNamed.isOwn, isNamed.named, isNamed.refers⟩
  · have others := isWellNamed other found isStored
    exact ⟨others.isOwn, others.named, others.refers⟩

/-- The name of a rule that is deleted stands for no other rule, and no other rule refers to
what it stands for. -/
theorem IsWellNamed.withoutRule (isWellNamed : graph.IsWellNamed) {id : Int} {rule : Rule}
    (isStored : graph.rules.get? id = some rule)
    (notUsed : ∀ other ∈ graph.rules.values, other.id ≠ id → id ∉ other.logic.references) :
    (Edit.withoutRule graph id rule.name).IsWellNamed := by
  obtain ⟨deleted, isDeleted, isNumber⟩ := (isWellNamed id rule isStored).named
  intro otherId other isOther
  change (graph.rules.erase id).get? otherId = some other at isOther
  rw [Table.get?_erase] at isOther
  split at isOther
  · cases isOther
  rename_i differs
  have isNamed := isWellNamed otherId other isOther
  have notReferred := notUsed other (Table.mem_values_of_get? isOther) (isNamed.isOwn ▸ differs)
  refine isNamed.mono fun name given stands isGiven => ?_
  change (graph.ruleNames.erase (.text rule.name)).get? (.text name) = some given
  rw [Table.get?_erase, if_neg, isGiven]
  intro isErased
  rw [isErased] at isGiven
  cases isDeleted.symm.trans isGiven
  rcases stands with isOwn | ⟨ref, isReferred, isId⟩
  · exact differs (Option.some.inj (isOwn.symm.trans isNumber))
  · rw [isNumber] at isId
    change id = ref.id at isId
    exact notReferred (List.mem_map.mpr ⟨ref, isReferred, isId.symm⟩)

end Graph

namespace Edit

open Diachrony.Graph (IsWellNamed)

variable {graph : Graph}

/-- Where a name is reserved, it stands for the id that is given, and it can be given back if it
was not reserved before. -/
theorem ends_reserve_named {name requested : Data} {key : Key} (isKey : name.key? = some key)
    (isWellNamed : graph.IsWellNamed) :
    (reserveRule name requested).Ends graph
      (fun given after => after.IsWellNamed ∧ after.ruleNames.get? key = some given ∧
        (graph.ruleNames.contains key = false →
          IsWellNamed { after with ruleNames := after.ruleNames.erase key })) IsWellNamed := by
  refine ends_reserve isWellNamed (fun other given isOther isNamed => ?_)
    fun other given isOther isNew _ => ?_
  · cases isKey.symm.trans isOther
    refine ⟨isWellNamed, isNamed, fun notReserved => ?_⟩
    rw [Table.contains_of_get? isNamed] at notReserved
    cases notReserved
  · cases isKey.symm.trans isOther
    refine ⟨isWellNamed.withName isNew, ?_, fun notReserved => ?_⟩
    · change (graph.ruleNames.insert key given).get? key = some given
      rw [Table.get?_insert, if_pos rfl]
    · exact isWellNamed.of_same (Prod.ext rfl (Table.erase_insert notReserved given))

theorem wellNamed_reserveRule (name requested : Data) :
    (reserveRule name requested).Keeps IsWellNamed :=
  fun _ isWellNamed => ends_reserve isWellNamed (fun _ _ _ _ => isWellNamed)
    fun _ _ _ isNew _ => isWellNamed.withName isNew

theorem wellNamed_registerRules (names : List Text) : (registerRules names).Keeps IsWellNamed :=
  keeps_mapM fun name =>
    (wellNamed_reserveRule (.text name) .null).bind fun _ => (onlyAsks_pure _).keeps

theorem wellNamed_addRule (requested : Data) {draft : RuleDraft} (noLogic : draft.logic = none)
    {describe : Rule → Except Error Rule}
    (describes : ∀ rule after, describe rule = .ok after → rule.SameButDetails after) :
    (addRule requested draft describe).Keeps IsWellNamed := by
  refine (onlyAsks_ask _).keeps.bind fun _ => ?_
  refine (onlyAsks_ask _).keeps.bind fun _ graph isWellNamed => ?_
  rw [ends_bind, ends_get, ends_bind, keyOf]
  cases isKey : draft.name.key? with
  | none => exact isWellNamed
  | some key =>
      rw [ends_pure]
      dsimp only
      rw [ends_bind, ends_refuseIf]
      refine ⟨fun _ => isWellNamed, fun _ => ?_⟩
      rw [ends_bind]
      refine (ends_reserve_named isKey isWellNamed).mono ?_ fun _ isWellNamed => isWellNamed
      rintro given after ⟨isWellNamed, isGiven, givesBack⟩
      rw [ends_bind]
      refine (onlyAsks_logicOf draft).ends_tryCatch (fun logic isLogic => ?_) fun error _ => ?_
      · simp only [ends_bind, ends_lift]
        refine ⟨fun id isId => ⟨fun name isName => ⟨fun sourceText isText =>
          ⟨fun rule isRule => ?_, fun _ _ => isWellNamed⟩, fun _ _ => isWellNamed⟩,
          fun _ _ => isWellNamed⟩, fun _ _ => isWellNamed⟩
        have same := describes _ rule isRule
        have isRead := logicOf_eq_ok noLogic isLogic isText
        refine isWellNamed.putRule ⟨same.id, ⟨given, ?_, GivenId.number?_of_asInt isId⟩, ?_⟩
        · rw [same.name]
          exact key_eq_of_asText isKey isName ▸ isGiven
        · rw [same.logic]
          exact Logic.found_of_read after.isByName_resolver isRead
      · split
        · rename_i isGivenBack
          rw [Bool.and_eq_true, Bool.not_eq_true'] at isGivenBack
          exact givesBack isGivenBack.1
        · exact isWellNamed

theorem wellNamed_enterRule (record : Fields) : (enterRule record none).Keeps IsWellNamed := by
  refine (onlyAsks_needField _ _).keeps.bind fun name => ?_
  refine (onlyAsks_needField _ _).keeps.bind fun source => ?_
  refine (onlyAsks_needField _ _).keeps.bind fun target => ?_
  refine (onlyAsks_needField _ _).keeps.bind fun sourceText => ?_
  refine (onlyAsks_needField _ _).keeps.bind fun requested => ?_
  refine (onlyAsks_ask _).keeps.bind fun fromLanguage => ?_
  refine (onlyAsks_ask _).keeps.bind fun toLanguage => ?_
  exact wellNamed_addRule requested rfl fun _ _ gave => Rule.sameButDetails_of_assignKnown gave

theorem wellNamed_replaceText (id : Int) (text : Text) :
    (replaceText id text).Keeps IsWellNamed := by
  refine keeps_ask fun rule graph isWellNamed isFound => ?_
  rw [ends_bind, ends_ask]
  refine ⟨fun logic isLogic => ?_, fun _ _ => isWellNamed⟩
  have isNamed := isWellNamed id rule (Graph.found_eq_ok isFound)
  exact isWellNamed.putRule ⟨isNamed.isOwn, isNamed.named,
    Logic.found_of_read graph.isByName_resolver (Logic.readFor_eq_ok.mp isLogic)⟩

theorem wellNamed_updateRule (id : Int) (text : Option Text) :
    (updateRule id text []).Keeps IsWellNamed := by
  refine (onlyAsks_ask _).keeps.bind fun rule => ?_
  refine (onlyAsks_refuseIf _ _).keeps.bind fun _ => Keeps.bind ?_ fun _ => ?_
  · cases text with
    | none => exact (onlyAsks_pure _).keeps
    | some text => exact wellNamed_replaceText id text
  · exact ((onlyAsks_pure _).bind fun _ => onlyAsks_ask _).keeps

theorem wellNamed_deleteRule (id : Int) : (deleteRule id).Keeps IsWellNamed := by
  intro graph isWellNamed
  unfold deleteRule
  rw [ends_bind, ends_get, ends_bind, ends_ask]
  refine ⟨fun rule isFound => ?_, fun _ _ => isWellNamed⟩
  rw [ends_bind, ends_refuse]
  refine ⟨fun _ _ => isWellNamed, fun noConflict => ?_⟩
  refine isWellNamed.withoutRule (Graph.found_eq_ok isFound)
    fun other isMember differs isReferred => ?_
  have notUsed := notUsed_of_deletionConflict? noConflict isMember differs
  rw [List.contains_iff_mem.mpr isReferred] at notUsed
  cases notUsed

end Edit

namespace Mutation

open Edit

/-- A mutation that gives a rule no logic but the one that a text is read as, and assigns none of
its fields. -/
def TakesTexts : Mutation → Prop
  | addRule _ logic => logic = none
  | updateRule _ _ changes => changes = []
  | _ => True

/-- A mutation that is not about rules does not matter to their names. -/
theorem wellNamed_of_isIgnored {mutation : Mutation}
    (ignored : mutation.IsIgnoredBy Graph.ruleTables) : mutation.run.Keeps Graph.IsWellNamed :=
  (spares_run ignored).keeps fun _ _ same isWellNamed => isWellNamed.of_same same

theorem wellNamed_run {mutation : Mutation} (takesTexts : mutation.TakesTexts) :
    mutation.run.Keeps Graph.IsWellNamed := by
  cases mutation with
  | reserveRule name requested => exact (wellNamed_reserveRule name requested).passOver
  | registerRules names => exact (wellNamed_registerRules names).passOver
  | addRule record logic =>
      cases takesTexts
      exact (wellNamed_enterRule record).passOver
  | updateRule id text changes =>
      cases takesTexts
      exact (wellNamed_updateRule id text).passOver
  | deleteRule id => exact wellNamed_deleteRule id
  | deleteWord id => exact wellNamed_of_isIgnored fun _ _ _ _ => rfl
  | addLanguage | setLanguage | addPhoneme | deletePhoneme | addLink | updateLink | deleteLink
  | advanceIds => exact wellNamed_of_isIgnored fun _ _ => rfl
  | addWord | updateWord | addSequence | updateSteps | addParadigm | addTemplate | setCell
  | addCompound => exact wellNamed_of_isIgnored fun _ _ _ => rfl

end Mutation

namespace Graph

theorem isWellNamed_empty : IsWellNamed {} := fun _ _ isStored => nomatch isStored

/-- Whatever ids were asked for and whatever failed on the way, as long as rules were made of
texts, each rule that a stored rule refers to is found under the name that it is referred to
by, and it is found under the id that the reference has. -/
theorem ruleRef_of_isReachedBy_texts {graph : Graph}
    (isReached : graph.IsReachedBy Mutation.TakesTexts) {id : Int} {rule : Rule}
    (isStored : graph.rules.get? id = some rule) {other : RuleRef}
    (isReferred : other ∈ rule.logic.ruleRefs) : graph.ruleRef other.name = .ok other := by
  have isWellNamed := isReached.kept isWellNamed_empty fun _ takesTexts =>
    Mutation.wellNamed_run takesTexts
  unfold ruleRef
  rw [(isWellNamed id rule isStored).refers other isReferred]

/-- A run in which a name is reserved before it is referred to, two names come to stand for the
same id, one is given back because its rule cannot be read, and no deletion succeeds but the one
of a rule that nothing refers to. -/
def crossReferring : Graph := .ofRun [
  .addLanguage { name := "A", shortName := "a" } Mutation.isNamed_a,
  .registerRules ["r"],
  .addRule [("name", .text "s"), ("from_language", .text "a"), ("to_language", .null),
    ("text", .text "- apply rule 'r'\n- apply rule 's'"), ("id", .null)] none,
  .addRule [("name", .text "t"), ("from_language", .text "a"), ("to_language", .null),
    ("text", .text "- apply rule 'u'"), ("id", .null)] none,
  .addRule [("name", .text "q"), ("from_language", .text "a"), ("to_language", .null),
    ("text", .text "- apply rule 's'"), ("id", .integer 1)] none,
  .deleteRule 1,
  .addRule [("name", .text "p"), ("from_language", .text "a"), ("to_language", .null),
    ("text", .text "- apply rule 's'"), ("id", .null)] none,
  .deleteRule 4,
  .updateRule 1 (some "- apply rule 'q'") []]

theorem ruleRef_of_isReachedBy_texts_crossReferring :
    crossReferring.IsReachedBy Mutation.TakesTexts ∧
      ∃ rule, crossReferring.rules.get? 2 = some rule ∧
        rule.logic.ruleRefs = [⟨1, "r", false⟩, ⟨2, "s", false⟩] ∧
        ∀ other ∈ rule.logic.ruleRefs, crossReferring.ruleRef other.name = .ok other := by
  have isReached : crossReferring.IsReachedBy Mutation.TakesTexts := by
    refine isReachedBy_ofRun ?_
    simp only [List.forall_mem_cons, List.not_mem_nil, false_implies, implies_true, and_true]
    exact ⟨trivial, trivial, rfl, rfl, rfl, trivial, rfl, trivial, rfl⟩
  have areReferred : (crossReferring.rules.get? 2).map (fun rule => rule.logic.ruleRefs) =
      some [⟨1, "r", false⟩, ⟨2, "s", false⟩] := by decide +kernel
  obtain ⟨rule, isStored, areRefs⟩ := Option.map_eq_some_iff.mp areReferred
  refine ⟨isReached, rule, isStored, areRefs, fun other isReferred => ?_⟩
  exact ruleRef_of_isReachedBy_texts isReached isStored isReferred

end Graph

end Diachrony
