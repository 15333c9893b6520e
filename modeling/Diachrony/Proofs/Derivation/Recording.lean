import Diachrony.Proofs.Derivation.Replay
import Diachrony.Proofs.Graph.Checks

/-!
# Recorded derivations

Recording a derivation changes one link or nothing: a complete derivation writes its
rules on the link, and these rules lead from the base to what the derivation made of
it.  A derivation that halted, and one that fails, changes nothing.
-/
namespace Diachrony

open Work

def Graph.withLink (graph : Graph) (link : Link) : Graph :=
  { graph with links := graph.links.insert link.key link }

/-- The link with the rules of a derivation and the sequence that they were part of. -/
def Link.recording (link : Link) (derivation : Derivation) (sequence : RuleSequence) : Link :=
  { link with rules := derivation.appliedRules, sequence := some sequence.id }

namespace Edit

variable {graph after : Graph}

/-- A link that is replaced is stored under its key, and nothing else changes. -/
theorem updateLink_eq_ok {link updated : Link}
    (gave : (updateLink link).on graph = (.ok updated, after)) :
    after = graph.withLink link := by
  unfold updateLink at gave
  obtain ⟨_, -, checked⟩ := (onlyAsks_requireLink link.key).on_bind_eq_ok.mp gave
  obtain ⟨_, -, stored⟩ := (onlyAsks_checkLink link).on_bind_eq_ok.mp checked
  cases stored
  rfl

theorem allOrNothing_updateLink (link : Link) : (updateLink link).AllOrNothing := by
  unfold updateLink putLink
  refine (onlyAsks_requireLink link.key).bind_allOrNothing fun _ => ?_
  refine (onlyAsks_checkLink link).bind_allOrNothing fun _ => ?_
  exact (allOrNothing_modify _).map fun _ => link

theorem allOrNothing_recordDerivation (source target id : Int) (marker : Text) :
    (recordDerivation source target id marker).AllOrNothing := by
  unfold recordDerivation recordOnLink
  refine (onlyAsks_ask _).bind_allOrNothing fun sequence => ?_
  refine onlyAsks_get.bind_allOrNothing fun graph => ?_
  dsimp only
  split
  · exact (onlyAsks_throw _).allOrNothing
  · refine (onlyAsks_ask _).bind_allOrNothing fun derivation => ?_
    split
    · exact (allOrNothing_updateLink _).map fun _ => derivation
    · exact (onlyAsks_pure _).allOrNothing

end Edit

namespace Graph

variable {graph after : Graph} {marker : Text}

theorem deriveLink_ok {link : Link} {sequence : RuleSequence}
    {derivation : Derivation}
    (derived : (graph.deriveLink link sequence marker).result = .ok derivation) :
    ∃ base, graph.words.get? link.target = some base ∧
      (graph.derive sequence base.form marker).result = .ok derivation := by
  unfold deriveLink at derived
  cases isStored : graph.words.get? link.target with
  | none =>
      simp only [Graph.word, isStored, found] at derived
      cases derived
  | some base =>
      simp only [Graph.word, isStored, found] at derived
      exact ⟨base, rfl, derived⟩

/-- What recording a derivation that succeeds leaves. -/
theorem recordDerivation_eq_ok {source target id : Int}
    {derivation : Derivation}
    (gave : (Edit.recordDerivation source target id marker).on graph = (.ok derivation, after)) :
    ∃ sequence link base, graph.sequences.get? id = some sequence ∧
      link ∈ graph.linksFrom source (some .derived) ∧ link.target = target ∧
      graph.words.get? target = some base ∧
      (graph.derive sequence base.form marker).result = .ok derivation ∧
      after = if derivation.isComplete then graph.withLink (link.recording derivation sequence)
        else graph := by
  unfold Edit.recordDerivation at gave
  obtain ⟨sequence, asked, gave⟩ := (Edit.onlyAsks_ask _).on_bind_eq_ok.mp gave
  obtain ⟨_, got, gave⟩ := Edit.onlyAsks_get.on_bind_eq_ok.mp gave
  cases got
  dsimp only at gave
  cases isLinked : (graph.linksFrom source (some .derived)).find?
      fun link => link.target == target with
  | none =>
      rw [isLinked] at gave
      cases gave
  | some link =>
      rw [isLinked] at gave
      unfold Edit.recordOnLink at gave
      obtain ⟨found, derived, gave⟩ := (Edit.onlyAsks_ask _).on_bind_eq_ok.mp gave
      rw [Edit.on_ask] at asked derived
      have isStored := found_eq_ok (Prod.mk.inj asked).1
      have isTarget : link.target = target := by
        simpa using List.find?_some isLinked
      obtain ⟨base, baseStored, derived⟩ := deriveLink_ok (Prod.mk.inj derived).1
      have isMember := List.mem_of_find?_eq_some isLinked
      dsimp only at gave
      split at gave
      · rename_i isComplete
        obtain ⟨_, between, updated, gave⟩ := Edit.on_bind_eq_ok.mp gave
        cases gave
        refine ⟨sequence, link, base, isStored, isMember, isTarget, isTarget ▸ baseStored,
          derived, ?_⟩
        rw [if_pos isComplete]
        exact Edit.updateLink_eq_ok updated
      · rename_i isHalted
        cases gave
        refine ⟨sequence, link, base, isStored, isMember, isTarget, isTarget ▸ baseStored,
          derived, ?_⟩
        rw [if_neg isHalted]

/-- Rules replay to a form: from whatever inventories of the stored languages they are
run, they end in it, and each of them applies on the way. -/
def ReplaysTo (graph : Graph) (marker : Text) (form : WordForm) (rules : List Int)
    (result : WordForm) :
    Prop :=
  ∀ made : Inventories, made.AreOf graph.languages →
    ((graph.replay form rules marker).on made).1 = .ok result ∧
      ∃ outcomes, ((graph.outcomes marker form rules).on made).1 = .ok outcomes ∧
        outcomes.length = rules.length ∧ ∀ outcome ∈ outcomes, outcome.applied = true

theorem Leads.replaysTo (shortNames : KeepShortNames graph.languages) {form result : WordForm}
    {rules : List Int} (leads : graph.Leads marker form rules result) :
    graph.ReplaysTo marker form rules result := by
  have alike := Alike.refl shortNames
  intro made areOf
  obtain ⟨outcomes, cameTo, sameLength, allApplied⟩ := leads.outcomes shortNames
  refine ⟨?_, outcomes, ?_, sameLength, allApplied⟩
  · rw [(agree_replay alike rules form marker).result_eq areOf]
    exact leads.replay shortNames
  · rw [(agree_outcomes alike rules form).result_eq areOf]
    exact cameTo

theorem alike_withLink (shortNames : KeepShortNames graph.languages) (link : Link) :
    Alike graph (graph.withLink link) :=
  ⟨rfl, rfl, shortNames⟩

/-- What a derivation records replays to its result, whether it ran to its end or halted.
When it is recorded on a link, the link is all that changes, and what stands on it replays
to the result of the derivation; nothing changes if the derivation halted or failed. -/
theorem recorded_rules_replay (graph : Graph) (keepsNames : graph.KeepsNames) (marker : Text) :
    (∀ sequence form derivation made, made.AreOf graph.languages →
      ((graph.derive sequence form marker).on made).1 = .ok derivation →
        graph.ReplaysTo marker form derivation.appliedRules derivation.result) ∧
    ∀ source target id result after,
      (Edit.recordDerivation source target id marker).on graph = (result, after) →
        match result with
        | .error _ => after = graph
        | .ok derivation =>
          if derivation.isComplete then
            ∃ sequence link base, graph.sequences.get? id = some sequence ∧
              link ∈ graph.linksFrom source (some .derived) ∧ link.target = target ∧
              graph.words.get? target = some base ∧
              after = graph.withLink (link.recording derivation sequence) ∧
              after.ReplaysTo marker base.form derivation.appliedRules derivation.result
          else after = graph := by
  have alike := Alike.refl keepsNames.shortNames
  constructor
  · intro sequence form derivation made areOf derived
    rw [(agree_derive alike sequence form marker).result_eq areOf] at derived
    exact (derive_leads keepsNames derived).replaysTo keepsNames.shortNames
  · intro source target id result after recorded
    cases result with
    | error failure =>
        exact Edit.allOrNothing_recordDerivation source target id marker graph _ _ recorded
    | ok derivation =>
        obtain ⟨sequence, link, base, isStored, isLink, isTarget, isBase, derived, left⟩ :=
          recordDerivation_eq_ok recorded
        dsimp only
        split
        · rename_i isComplete
          rw [if_pos isComplete] at left
          have alikeAfter := alike_withLink keepsNames.shortNames
            (link.recording derivation sequence)
          refine ⟨sequence, link, base, isStored, isLink, isTarget, isBase, left, ?_⟩
          have leads := (derive_leads keepsNames derived).of_alike alikeAfter
          rw [left]
          exact leads.replaysTo (alikeAfter.languages ▸ alikeAfter.shortNames)
        · rename_i isHalted
          rw [left, if_neg isHalted]

/-- A rule that appends a sound to the words that have a vowel at one of their edges. -/
def edgeRule (id : Int) (fromLanguage : Text) (edge : WordEdge) (sound : Text) : Rule where
  id := id
  name := sound
  fromLanguage := fromLanguage
  toLanguage := "a"
  logic := .branching [] [{
    condition := .holds { test := .wordEdge edge, pattern := some { soundClass := some "vowel" } }
    instructions := [{ kind := .attach .after, argument := some sound }] }]

def bothRules : RuleSequence where
  id := 3
  name := "q"
  fromLanguage := "b"
  toLanguage := "a"
  steps := [{ rule := 1, optional := true }, { rule := 2, optional := true }]

/-- A rule for each of two languages, of which the second one alone has a vowel. The id
that the first rule carries and the name by which the second language goes may be others
than those they are stored under. -/
def twoRules (id : Int) (shortName : Text) : Graph where
  languages := ⟨[("a", { name := "A", shortName := "a" }),
    ("b", { name := "B", shortName, phonemes := [{ spelling := "x", tags := ["vowel"] }] })]⟩
  rules := ⟨[(1, edgeRule id "b" .beginning "s"), (2, edgeRule 2 "a" .ending "t")]⟩
  sequences := ⟨[(3, bothRules)]⟩
  words := ⟨[(4, { id := 4, text := "xk", language := "b" }),
    (5, { id := 5, text := "xks", language := "a" })]⟩
  links := ⟨[(⟨5, 4, .derived⟩, { source := 5, target := 4 })]⟩

theorem keepsNames_of_entries
    (ruleIds : ∀ entry ∈ graph.rules.entries, entry.2.id = entry.1)
    (shortNames : ∀ entry ∈ graph.languages.entries, entry.2.shortName = entry.1) :
    graph.KeepsNames := by
  constructor
  · intro id rule isStored
    exact ruleIds _ (Table.mem_entries_of_get? isStored)
  · intro name language isStored
    exact shortNames _ (Table.mem_entries_of_get? isStored)

/-- The second rule fails, since its language has no vowel. -/
theorem recorded_rules_replay_twoRules :
    (twoRules 1 "b").KeepsNames ∧
    (twoRules 1 "b").ReplaysTo usualMarker { text := "xk", language := "b" } [1]
      { text := "xks", language := "a" } ∧
    ∃ derivation after,
      (Edit.recordDerivation 5 4 3).on (twoRules 1 "b") = (.ok derivation, after) ∧
        after.ReplaysTo usualMarker { text := "xk", language := "b", wordId := some 4 } [1]
          { text := "xks", language := "a", wordId := some 4 } := by
  have keepsNames : (twoRules 1 "b").KeepsNames :=
    keepsNames_of_entries (by decide) (by decide)
  obtain ⟨replays, records⟩ := recorded_rules_replay (twoRules 1 "b") keepsNames usualMarker
  refine ⟨keepsNames, ?_, ?_⟩
  · have derived : (((twoRules 1 "b").derive bothRules
        { text := "xk", language := "b" }).result.toOption.map fun derivation =>
          (derivation.appliedRules, derivation.result)) =
            some ([1], { text := "xks", language := "a" }) := by
      decide +kernel
    obtain ⟨derivation, derived, seen⟩ := Except.exists_of_toOption_map derived
    obtain ⟨applied, result⟩ := Prod.mk.inj seen
    have replayed := replays _ _ derivation {} (Inventories.areOf_empty _) derived
    rw [applied, result] at replayed
    exact replayed
  · have recorded : (((Edit.recordDerivation 5 4 3).on (twoRules 1 "b")).1.toOption.map
        fun derivation =>
          (derivation.isComplete, derivation.appliedRules, derivation.result)) =
            some (true, [1], { text := "xks", language := "a", wordId := some 4 }) := by
      decide +kernel
    obtain ⟨derivation, gave, seen⟩ := Except.exists_of_toOption_map recorded
    simp only [Prod.mk.injEq] at seen
    obtain ⟨isComplete, applied, result⟩ := seen
    have ran : (Edit.recordDerivation 5 4 3).on (twoRules 1 "b") =
        (.ok derivation, ((Edit.recordDerivation 5 4 3).on (twoRules 1 "b")).2) :=
      Prod.ext gave rfl
    refine ⟨derivation, _, ran, ?_⟩
    have kept := records 5 4 3 _ _ ran
    dsimp only at kept
    rw [if_pos isComplete] at kept
    obtain ⟨sequence, link, base, -, -, -, isBase, -, replayed⟩ := kept
    cases isBase
    rw [applied, result] at replayed
    exact replayed

/-- A rule that carries another id than its own cannot be found again, and a language that
goes by the name of another one may lend it its inventory, but only for a session. -/
theorem recorded_rules_need_not_replay :
    (∃ derivation,
      ((twoRules 99 "b").derive bothRules { text := "xk", language := "b" }).result =
        .ok derivation ∧
      ¬(twoRules 99 "b").ReplaysTo usualMarker
          { text := "xk", language := "b" } derivation.appliedRules
        derivation.result) ∧
    ∃ derivation,
      ((twoRules 1 "a").derive bothRules { text := "kx", language := "a" }).result =
        .ok derivation ∧
      ¬(twoRules 1 "a").ReplaysTo usualMarker
          { text := "kx", language := "a" } derivation.appliedRules
        derivation.result := by
  constructor
  · have derived : (((twoRules 99 "b").derive bothRules
        { text := "xk", language := "b" }).result.toOption.map Derivation.appliedRules) =
          some [99] := by
      decide +kernel
    obtain ⟨derivation, derived, applied⟩ := Except.exists_of_toOption_map derived
    refine ⟨derivation, derived, fun replays => ?_⟩
    have replayed := congrArg Except.toOption (replays {} (Inventories.areOf_empty _)).1
    have failed : (((twoRules 99 "b").replay { text := "xk", language := "b" } [99]).on
        {}).1.toOption = none := by
      decide +kernel
    rw [applied, failed] at replayed
    cases replayed
  · have derived : (((twoRules 1 "a").derive bothRules
        { text := "kx", language := "a" }).result.toOption.map Derivation.appliedRules) =
          some [2] := by
      decide +kernel
    obtain ⟨derivation, derived, applied⟩ := Except.exists_of_toOption_map derived
    refine ⟨derivation, derived, fun replays => ?_⟩
    have replayed := congrArg Except.toOption (replays {} (Inventories.areOf_empty _)).1
    have failed : (((twoRules 1 "a").replay { text := "kx", language := "a" } [2]).on
        {}).1.toOption = none := by
      decide +kernel
    rw [applied, failed] at replayed
    cases replayed

end Graph

end Diachrony
