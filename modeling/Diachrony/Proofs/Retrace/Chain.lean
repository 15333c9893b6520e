import Diachrony.Proofs.Derivation.Trace
import Diachrony.Proofs.Retrace.Independence
import Diachrony.Sequence.Retrace
import Mathlib

/-!
# What a retrace accounts for

Each source of a retrace leads to the target by texts that the trace of the steps accounts
for: at each step the text stays as it is, if the step may be left out, or a candidate of
that step's entry has been found to be made into the next text by one of the step's rules.

A retrace follows up a number of forms at a time.  The forms before a step are the
candidates found for it, with those behind it if it may be left out.  Each of them leads to
the target, and so does what is left when they are put in order and cut off at the limit.
-/
namespace Diachrony

open Work

/-- From some inventories, a rule makes a text of a form, but for marks and case. -/
def Graph.MakesFrom (graph : Graph) (marker : Text) (made : Inventories) (rule : Rule)
    (form : WordForm) (text : Text) : Prop :=
  ∃ outcome, ((graph.apply rule form marker).on made).1 = .ok outcome ∧ outcome.applied = true ∧
    comparable marker outcome.form.text = comparable marker text

section

variable {graph : Graph} {marker : Text}

theorem Graph.MakesFrom.elsewhere {made other : Inventories} {rule : Rule} {form : WordForm}
    {text : Text} (makes : graph.MakesFrom marker made rule form text)
    (shortNames : KeepShortNames graph.languages) (madeOwned : made.AreOf graph.languages)
    (otherOwned : other.AreOf graph.languages) : graph.MakesFrom marker other rule form text := by
  obtain ⟨outcome, gave, makes⟩ := makes
  have agreed := graph.agree_apply (Alike.refl shortNames) rule form marker
  rw [agreed.result_eq madeOwned, ← agreed.result_eq otherOwned] at gave
  exact ⟨outcome, gave, makes⟩

theorem Reversal.ensures_keepPassing {Kept : Inventories → Prop} {Fails : Error → Prop}
    {passes : WordForm → Session Bool} {Passes : WordForm → Prop} (limit : Int)
    {forms : List WordForm}
    (tries : ∀ form ∈ forms,
      (passes form).EnsuresFrom Kept Fails fun passed => passed = true → Passes form) :
    EnsuresFrom Kept Fails (fun kept => ∀ form ∈ kept, Passes form)
      (keepPassing passes limit forms) := by
  induction forms generalizing limit with
  | nil => exact ensures_pure fun form isMember => nomatch isMember
  | cons form forms inductionHypothesis =>
      obtain ⟨triesFirst, triesOthers⟩ := List.forall_mem_cons.mp tries
      refine ensures_bind triesFirst fun passed holds => ?_
      refine ensures_ite (fun hasPassed => ?_) fun _ => inductionHypothesis limit triesOthers
      have isFirst : ∀ other ∈ [form], Passes other :=
        List.forall_mem_singleton.mpr (holds hasPassed)
      refine ensures_ite (fun _ => ensures_pure isFirst) fun _ => ?_
      refine ensures_bind (inductionHypothesis _ triesOthers) fun others hold => ensures_pure ?_
      exact List.forall_mem_cons.mpr ⟨holds hasPassed, hold⟩

/-- A form is like those in front of another one: it has its classes, and no stress of its
own. -/
def WordForm.StandsBefore (form later : WordForm) : Prop :=
  form.classes = later.classes ∧ form.stressedIndex = none

/-- Inventories of some kind are left by the search for earlier forms, which finds such as
their rule makes into the form in question. -/
def Graph.Searches (graph : Graph) (marker : Text) (Kept : Inventories → Prop) : Prop :=
  ∀ rule form limit, (graph.reverse rule form limit marker).EnsuresFrom Kept AnyError fun earlier =>
    ∀ source ∈ earlier, source.StandsBefore form ∧
      ∃ made, Kept made ∧ graph.MakesFrom marker made rule source form.text

theorem Graph.searches_of_fails {Kept : Inventories → Prop}
    (texts : ∀ rule language text, graph.language rule.fromLanguage = .ok language →
      (Reversal.beforeRule graph language [] rule text).FailsOnlyFrom Kept AnyError)
    (applies : ∀ rule form, (graph.apply rule form marker).FailsOnlyFrom Kept AnyError) :
    graph.Searches marker Kept := by
  intro rule form limit
  have anyLookup {α : Type} (result : Except Error α) : FailsOnly AnyError result :=
    fun _ _ => trivial
  refine ensures_lookup (anyLookup _) fun language isFound => ?_
  refine ensures_lookup (anyLookup _) fun _ _ => ?_
  refine fails_bind (texts rule language form.text isFound) fun _ => ?_
  refine Reversal.ensures_keepPassing limit fun candidate isCandidate => ?_
  refine ensures_bind (applies rule candidate).gave fun outcome gave => ensures_pure ?_
  obtain ⟨made, isKept, gave⟩ := gave
  intro passed
  rw [Bool.and_eq_true, beq_iff_eq] at passed
  obtain ⟨text, -, rfl⟩ := List.mem_map.mp isCandidate
  exact ⟨⟨rfl, rfl⟩, made, isKept, outcome, gave, passed⟩

theorem Graph.searches_any : graph.Searches marker Inventories.Any :=
  searches_of_fails (fun _ _ _ _ => failsOnlyFrom_any _) fun _ _ => failsOnlyFrom_any _

theorem Graph.searches_areOf (shortNames : KeepShortNames graph.languages) :
    graph.Searches marker (Inventories.AreOf graph.languages) := by
  refine searches_of_fails (fun rule language text isFound => ?_) fun rule form => ?_
  · have isStored := stored_of_language_eq_ok shortNames isFound
    exact (Reversal.agree_beforeRule graph isStored [] rule text).failsOnlyFrom
  · exact (agree_apply (Alike.refl shortNames) rule form _).failsOnlyFrom

end

namespace Retrace

theorem mem_addForm {forms : List WordForm} {form other : WordForm}
    (isMember : other ∈ addForm forms form) : other ∈ forms ∨ other = form := by
  unfold addForm at isMember
  split at isMember
  · exact .inl isMember
  · simpa using isMember

theorem nodup_addForm {forms : List WordForm} (distinct : (forms.map WordForm.text).Nodup)
    (form : WordForm) : ((addForm forms form).map WordForm.text).Nodup := by
  unfold addForm
  split
  · exact distinct
  · rename_i isNew
    rw [List.map_append, List.nodup_append]
    refine ⟨distinct, List.nodup_singleton _, ?_⟩
    rintro text isMember _ (_ | ⟨_, ⟨⟩⟩) rfl
    obtain ⟨other, isMember, same⟩ := List.mem_map.mp isMember
    exact isNew (List.any_eq_true.mpr ⟨other, isMember, beq_iff_eq.mpr same⟩)

theorem addForm_ne_nil (forms : List WordForm) (form : WordForm) : addForm forms form ≠ [] := by
  unfold addForm
  split
  · rintro rfl
    contradiction
  · simp

theorem mem_foldl_addForm {added forms : List WordForm} {other : WordForm}
    (isMember : other ∈ added.foldl addForm forms) : other ∈ forms ∨ other ∈ added := by
  induction added generalizing forms with
  | nil => exact .inl isMember
  | cons form added inductionHypothesis =>
      obtain isEarlier | isLater := inductionHypothesis isMember
      · obtain isOld | rfl := mem_addForm isEarlier
        · exact .inl isOld
        · exact .inr List.mem_cons_self
      · exact .inr (List.mem_cons_of_mem _ isLater)

theorem nodup_foldl_addForm {forms : List WordForm} (distinct : (forms.map WordForm.text).Nodup)
    (added : List WordForm) : ((added.foldl addForm forms).map WordForm.text).Nodup := by
  induction added generalizing forms with
  | nil => exact distinct
  | cons form added inductionHypothesis => exact inductionHypothesis (nodup_addForm distinct form)

theorem foldl_addForm_eq_nil {added forms : List WordForm} :
    added.foldl addForm forms = [] ↔ forms = [] ∧ added = [] := by
  induction added generalizing forms with
  | nil => simp
  | cons form added inductionHypothesis =>
      rw [List.foldl_cons, inductionHypothesis]
      simp [addForm_ne_nil]

theorem sortForms_perm (forms : List WordForm) : (sortForms forms).Perm forms :=
  List.mergeSort_perm _ _

def InOrder (texts : List Text) : Prop :=
  texts.Pairwise fun left right => Text.precedes left right = true ∧ left ≠ right

theorem inOrder_sortForms {forms : List WordForm} (distinct : (forms.map WordForm.text).Nodup) :
    InOrder ((sortForms forms).map WordForm.text) := by
  have sorted : (sortForms forms).Pairwise fun left right =>
      Text.precedes left.text right.text = true :=
    List.pairwise_mergeSort
      (fun first second third => Text.precedes_trans first.text second.text third.text)
      (fun left right => Text.precedes_total left.text right.text) forms
  have staysDistinct : ((sortForms forms).map WordForm.text).Nodup :=
    ((sortForms_perm forms).map _).nodup_iff.mpr distinct
  exact (List.pairwise_map.mpr sorted).and staysDistinct

theorem takeUpTo_sublist {α : Type} (limit : Int) (items : List α) :
    (takeUpTo limit items).Sublist items :=
  List.take_sublist _ _

theorem length_takeUpTo_le {α : Type} {limit : Int} (isPositive : 0 < limit) (items : List α) :
    (takeUpTo limit items).length ≤ limit := by
  unfold takeUpTo
  rw [List.length_take, if_neg (by omega)]
  omega

theorem takeUpTo_ne_nil {α : Type} {limit : Int} (isPositive : 0 < limit) {items : List α}
    (nonempty : items ≠ []) : takeUpTo limit items ≠ [] := by
  unfold takeUpTo
  rw [if_neg (by omega), Ne, List.take_eq_nil_iff]
  rintro (none | rfl)
  · omega
  · contradiction

/-- A candidate stands for a rule of a step that makes its form, which has the classes of the
target, into what it is said to produce. -/
def Accounts (graph : Graph) (marker : Text) (Kept : Inventories → Prop) (target : WordForm)
    (step : SequenceStep) (candidate : RetraceCandidate) : Prop :=
  candidate.form.StandsBefore target ∧
  ∃ id ∈ step.rules, ∃ rule made, graph.rule id = .ok rule ∧ candidate.rule = rule.id ∧
    candidate.ruleName = rule.name ∧ Kept made ∧
    graph.MakesFrom marker made rule candidate.form candidate.produces

/-- Some steps lead from a text to the target, as the entries of a retrace account for it. -/
inductive Leads (graph : Graph) (marker : Text) (Kept : Inventories → Prop)
    (entries : List RetraceStep) (target : WordForm) : List (Nat × SequenceStep) → Text → Prop
  | ends : Leads graph marker Kept entries target [] target.text
  | leftOut {index : Nat} {step : SequenceStep} {steps : List (Nat × SequenceStep)} {text : Text}
      (mayBeLeftOut : step.optional = true ∨ step.dispreferred = true)
      (leads : Leads graph marker Kept entries target steps text) :
      Leads graph marker Kept entries target ((index, step) :: steps) text
  | undone {entry : RetraceStep} {step : SequenceStep} {steps : List (Nat × SequenceStep)}
      {candidate : RetraceCandidate} (isEntry : entry ∈ entries)
      (isFound : candidate ∈ entry.candidates)
      (accounts : Accounts graph marker Kept target step candidate)
      (leads : Leads graph marker Kept entries target steps candidate.produces) :
      Leads graph marker Kept entries target ((entry.index, step) :: steps) candidate.form.text

variable {graph : Graph} {marker : Text} {Kept : Inventories → Prop}

theorem Leads.elsewhere {entries : List RetraceStep} {target : WordForm} {text : Text}
    {steps : List (Nat × SequenceStep)}
    (leads : Leads graph marker (Inventories.AreOf graph.languages) entries target steps text)
    (shortNames : KeepShortNames graph.languages) {made : Inventories}
    (madeOwned : made.AreOf graph.languages) :
    Leads graph marker (· = made) entries target steps text := by
  induction leads with
  | ends => exact .ends
  | leftOut mayBeLeftOut _ inductionHypothesis => exact .leftOut mayBeLeftOut inductionHypothesis
  | undone isEntry isFound accounts _ inductionHypothesis =>
      obtain ⟨before, id, isTried, rule, other, isStored, isRule, isName, otherOwned, makes⟩ :=
        accounts
      exact .undone isEntry isFound ⟨before, id, isTried, rule, made, isStored, isRule, isName, rfl,
        makes.elsewhere shortNames otherOwned madeOwned⟩ inductionHypothesis

theorem Leads.further {entries others : List RetraceStep} {target : WordForm} {text : Text}
    {steps : List (Nat × SequenceStep)} (leads : Leads graph marker Kept entries target steps text)
    (areOthers : entries ⊆ others) : Leads graph marker Kept others target steps text := by
  induction leads with
  | ends => exact .ends
  | leftOut mayBeLeftOut _ inductionHypothesis => exact .leftOut mayBeLeftOut inductionHypothesis
  | undone isEntry isFound accounts _ inductionHypothesis =>
      exact .undone (areOthers isEntry) isFound accounts inductionHypothesis

theorem ensures_undoRule (searches : graph.Searches marker Kept) (limit : Int) (rule : Rule)
    (forms : List WordForm) :
    (undoRule graph marker limit rule forms).EnsuresFrom Kept AnyError fun (candidates, _) =>
      ∀ candidate ∈ candidates, candidate.rule = rule.id ∧ candidate.ruleName = rule.name ∧
        (∃ form ∈ forms, candidate.produces = form.text ∧ candidate.form.StandsBefore form) ∧
        ∃ made, Kept made ∧ graph.MakesFrom marker made rule candidate.form candidate.produces := by
  induction forms with
  | nil => exact ensures_pure fun candidate isMember => nomatch isMember
  | cons form forms inductionHypothesis =>
      refine ensures_bind (ensures_settle (searches rule form limit)) fun result met => ?_
      cases result with
      | error failure => exact ensures_pure fun candidate isMember => nomatch isMember
      | ok earlier =>
          refine ensures_bind inductionHypothesis fun found hold => ensures_pure ?_
          intro candidate isMember
          obtain isFirst | isLater := List.mem_append.mp isMember
          · obtain ⟨source, isSource, rfl⟩ := List.mem_map.mp isFirst
            obtain ⟨before, makes⟩ := met source isSource
            exact ⟨rfl, rfl, ⟨form, List.mem_cons_self, rfl, before⟩, makes⟩
          · obtain ⟨isRule, isName, ⟨other, isOther, same⟩, makes⟩ := hold candidate isLater
            exact ⟨isRule, isName, ⟨other, List.mem_cons_of_mem _ isOther, same⟩, makes⟩

theorem ensures_undoStep (searches : graph.Searches marker Kept) (limit : Int) {target : WordForm}
    {forms : List WordForm} (sameClasses : ∀ form ∈ forms, form.classes = target.classes)
    (index : Nat) (step : SequenceStep) :
    (undoStep graph marker limit forms index step).EnsuresFrom Kept AnyError fun entry =>
      entry.index = index ∧ entry.skippable = (step.optional || step.dispreferred) ∧
        ∀ candidate ∈ entry.candidates, Accounts graph marker Kept target step candidate ∧
          ∃ form ∈ forms, candidate.produces = form.text := by
  have found : (step.rules.mapM (undoRuleById graph marker limit forms)).EnsuresFrom Kept AnyError
      fun found => ∀ tried ∈ found, ∀ candidate ∈ tried.1,
        Accounts graph marker Kept target step candidate ∧
          ∃ form ∈ forms, candidate.produces = form.text := by
    refine ensures_mapM fun id isTried => ?_
    unfold undoRuleById
    cases isStored : graph.rule id with
    | error failure => exact ensures_pure fun candidate isMember => nomatch isMember
    | ok rule =>
        refine (ensures_undoRule searches limit rule forms).mono fun tried hold => ?_
        intro candidate isMember
        obtain ⟨isRule, isName, ⟨form, isForm, produces, before⟩, made, isKept, makes⟩ :=
          hold candidate isMember
        exact ⟨⟨⟨before.1.trans (sameClasses form isForm), before.2⟩, id, isTried, rule, made,
          isStored, isRule, isName, isKept, makes⟩, form, isForm, produces⟩
  refine ensures_bind found fun found hold => ensures_pure ⟨rfl, rfl, ?_⟩
  intro candidate isMember
  obtain ⟨tried, isTried, isMember⟩ := List.mem_flatMap.mp isMember
  exact hold tried isTried candidate isMember

/-- What is said of a retrace through some steps: the last of them were walked, and each of
the sources leads to the target; or the last step walked must not be left out and no
candidate was found for it. -/
structure Accounted (graph : Graph) (marker : Text) (Kept : Inventories → Prop) (limit : Int)
    (target : WordForm) (steps : List (Nat × SequenceStep)) (retrace : Retrace) : Prop where
  isTarget : retrace.target = target.text
  walked : retrace.steps.map RetraceStep.index <+: (steps.map Prod.fst).reverse
  inOrder : InOrder retrace.sources
  isFew : retrace.isComplete = true → 0 < limit → retrace.sources.length ≤ limit
  leads : ∀ source ∈ retrace.sources,
    Leads graph marker Kept retrace.steps target steps source
  halts : ∀ index, retrace.haltedAt = some index → retrace.sources = [] ∧
    ∃ last step, retrace.steps.getLast? = some last ∧ last.index = index ∧
      (index, step) ∈ steps ∧ last.skippable = (step.optional || step.dispreferred) ∧
      last.candidates = [] ∧ (0 < limit → last.skippable = false)

theorem leads_formsBefore {entries : List RetraceStep} {entry : RetraceStep} {target : WordForm}
    {step : SequenceStep} {passed : List (Nat × SequenceStep)} {forms sorted : List WordForm}
    (areForms : ∀ form ∈ sorted, form ∈ forms)
    (isSkippable : entry.skippable = (step.optional || step.dispreferred))
    (hold : ∀ candidate ∈ entry.candidates, Accounts graph marker Kept target step candidate ∧
      ∃ form ∈ sorted, candidate.produces = form.text)
    (leads : ∀ form ∈ forms, form.classes = target.classes ∧
      Leads graph marker Kept entries target passed form.text) :
    ∀ form ∈ formsBefore entry forms, form.classes = target.classes ∧
      Leads graph marker Kept (entries ++ [entry]) target ((entry.index, step) :: passed)
        form.text := by
  have lead (form : WordForm) (isForm : form ∈ forms) :
      Leads graph marker Kept (entries ++ [entry]) target passed form.text :=
    (leads form isForm).2.further (List.subset_append_left _ _)
  intro form isMember
  obtain isBehind | isFound := mem_foldl_addForm isMember
  · split at isBehind
    · rename_i mayBeLeftOut
      rw [isSkippable, Bool.or_eq_true] at mayBeLeftOut
      exact ⟨(leads form isBehind).1, .leftOut mayBeLeftOut (lead form isBehind)⟩
    · cases isBehind
  · obtain ⟨candidate, isCandidate, rfl⟩ := List.mem_map.mp isFound
    obtain ⟨accounts, form, isForm, produces⟩ := hold candidate isCandidate
    refine ⟨accounts.1.1, .undone (by simp) isCandidate accounts ?_⟩
    exact produces ▸ lead form (areForms form isForm)

theorem nodup_formsBefore (entry : RetraceStep) {forms : List WordForm}
    (distinct : (forms.map WordForm.text).Nodup) :
    ((formsBefore entry forms).map WordForm.text).Nodup := by
  refine nodup_foldl_addForm ?_ _
  split
  · exact distinct
  · exact List.nodup_nil

/-- Where no form is left before a step, none was left behind it, or it must not be left out,
and it has no candidate. -/
theorem accounted_of_noneBefore {limit : Int} {target : WordForm} {entries : List RetraceStep}
    {entry : RetraceStep} {forms : List WordForm} {step : SequenceStep}
    {steps passed : List (Nat × SequenceStep)}
    (walked : (entries ++ [entry]).map RetraceStep.index =
      (((entry.index, step) :: passed).map Prod.fst).reverse)
    (isSkippable : entry.skippable = (step.optional || step.dispreferred))
    (someBehind : 0 < limit → forms ≠ []) (noneBefore : formsBefore entry forms = []) :
    Accounted graph marker Kept limit target (steps ++ (entry.index, step) :: passed)
      ⟨target.text, entries ++ [entry], [], some entry.index⟩ := by
  obtain ⟨noneBehind, noCandidate⟩ := foldl_addForm_eq_nil.mp noneBefore
  rw [List.map_eq_nil_iff] at noCandidate
  refine ⟨rfl, ?_, List.Pairwise.nil, ?_, ?_, ?_⟩
  · rw [walked, List.map_append, List.reverse_append]
    exact List.prefix_append _ _
  · intro isComplete
    cases isComplete
  · intro source isSource
    cases isSource
  · rintro _ ⟨⟩
    refine ⟨rfl, entry, step, List.getLast?_concat, rfl, by simp, isSkippable, noCandidate,
      fun isPositive => ?_⟩
    by_contra mayBeLeftOut
    rw [if_pos (by simpa using mayBeLeftOut)] at noneBehind
    exact someBehind isPositive noneBehind

theorem ensures_undoSteps (searches : graph.Searches marker Kept) (limit : Int) (target : WordForm)
    {entries : List RetraceStep} {forms : List WordForm} {passed : List (Nat × SequenceStep)}
    (steps : List (Nat × SequenceStep))
    (walked : entries.map RetraceStep.index = (passed.map Prod.fst).reverse)
    (distinct : (forms.map WordForm.text).Nodup)
    (isFew : 0 < limit → forms ≠ [] ∧ forms.length ≤ limit)
    (leads : ∀ form ∈ forms, form.classes = target.classes ∧
      Leads graph marker Kept entries target passed form.text) :
    (undoSteps graph marker limit target.text entries forms steps).EnsuresFrom Kept AnyError
      (Accounted graph marker Kept limit target (steps.reverse ++ passed)) := by
  induction steps generalizing entries forms passed with
  | nil =>
      refine ensures_pure ⟨rfl, ?_, inOrder_sortForms distinct, ?_, ?_, ?_⟩
      · rw [List.reverse_nil, List.nil_append, walked]
      · intro _ isPositive
        rw [List.length_map, (sortForms_perm forms).length_eq]
        exact (isFew isPositive).2
      · intro source isSource
        obtain ⟨form, isForm, rfl⟩ := List.mem_map.mp isSource
        exact (leads form ((sortForms_perm forms).mem_iff.mp isForm)).2
      · intro index isHalted
        cases isHalted
  | cons entry steps inductionHypothesis =>
      obtain ⟨index, step⟩ := entry
      have areForms (form : WordForm) : form ∈ sortForms forms → form ∈ forms :=
        (sortForms_perm forms).mem_iff.mp
      refine ensures_bind (ensures_undoStep searches limit
        (fun form isForm => (leads form (areForms form isForm)).1) index step) ?_
      rintro entry ⟨rfl, isSkippable, hold⟩
      have staysWalked : (entries ++ [entry]).map RetraceStep.index =
          (((entry.index, step) :: passed).map Prod.fst).reverse := by
        simp [walked]
      have lead := leads_formsBefore areForms isSkippable hold leads
      have asWhole : ((entry.index, step) :: steps).reverse ++ passed =
          steps.reverse ++ (entry.index, step) :: passed := by
        rw [List.reverse_cons, List.append_assoc]
        rfl
      rw [asWhole]
      refine ensures_ite (fun noneLeft => ?_) fun someLeft => ?_
      · exact ensures_pure (accounted_of_noneBefore staysWalked isSkippable
          (fun isPositive => (isFew isPositive).1) (List.isEmpty_iff.mp noneLeft))
      · have isSome : formsBefore entry forms ≠ [] := by simpa using someLeft
        have areFormsBefore := takeUpTo_sublist limit (sortForms (formsBefore entry forms))
        refine inductionHypothesis staysWalked ?_ (fun isPositive => ⟨?_, ?_⟩) fun form isForm => ?_
        · have sorted := ((sortForms_perm (formsBefore entry forms)).map _).nodup_iff.mpr
            (nodup_formsBefore entry distinct)
          exact sorted.sublist (areFormsBefore.map _)
        · refine takeUpTo_ne_nil isPositive ?_
          rw [Ne, ← List.length_eq_zero_iff, (sortForms_perm _).length_eq]
          simpa using isSome
        · exact length_takeUpTo_le isPositive _
        · exact lead form ((sortForms_perm _).mem_iff.mp (areFormsBefore.subset isForm))

theorem ensures_retrace (searches : graph.Searches marker Kept) (sequence : RuleSequence)
    (form : WordForm) (limit : Option Int) (setLimit : Int) :
    (graph.retrace sequence form limit marker setLimit).EnsuresFrom Kept AnyError
      (Accounted graph marker Kept (limitInEffect setLimit limit) form
        (SequenceStep.numbered sequence.steps)) := by
  have isFew (limit : Int) (isPositive : 0 < limit) :
      [form] ≠ [] ∧ (([form] : List WordForm).length : Int) ≤ limit :=
    ⟨List.cons_ne_nil _ _, isPositive⟩
  have walked : (undoSteps graph marker (limitInEffect setLimit limit) form.text [] [form]
      (SequenceStep.numbered sequence.steps).reverse).EnsuresFrom Kept AnyError
        (Accounted graph marker Kept (limitInEffect setLimit limit) form
          ((SequenceStep.numbered sequence.steps).reverse.reverse ++ [])) :=
    ensures_undoSteps searches (limitInEffect setLimit limit) form _ rfl (List.nodup_singleton _)
      (isFew _) (List.forall_mem_singleton.mpr ⟨rfl, .ends⟩)
  rw [List.reverse_reverse, List.append_nil] at walked
  exact walked

/-- Undoing a rule that stands alone in its step, on a single form. -/
theorem on_undoStep {limit : Int} {form : WordForm} {index : Nat} {step : SequenceStep}
    {rule : Rule} {earlier : List WordForm} {made left : Inventories}
    (isAlone : step.alternative = none) (isStored : graph.rule step.rule = .ok rule)
    (found : (graph.reverse rule form limit marker).on made = (.ok earlier, left)) :
    (undoStep graph marker limit [form] index step).on made =
      (.ok ⟨index, earlier.map fun source => ⟨rule.id, rule.name, source, form.text⟩,
        step.optional || step.dispreferred, none⟩, left) := by
  simp [undoStep, SequenceStep.rules, isAlone, undoRuleById, isStored, undoRule, on_bind,
    on_settle, found, Error.settle]

/-- The walk goes on with a single form. -/
theorem on_undoSteps {limit : Int} (isPositive : 0 < limit) {target : Text}
    {entries : List RetraceStep} {entry : RetraceStep} {form earlier : WordForm} {index : Nat}
    {step : SequenceStep} {steps : List (Nat × SequenceStep)} {made left : Inventories}
    (undone : (undoStep graph marker limit [form] index step).on made = (.ok entry, left))
    (isOnly : formsBefore entry [form] = [earlier]) :
    (undoSteps graph marker limit target entries [form] ((index, step) :: steps)).on made =
      (undoSteps graph marker limit target (entries ++ [entry]) [earlier] steps).on left := by
  have staysOnly : takeUpTo limit (sortForms [earlier]) = [earlier] := by
    unfold takeUpTo sortForms
    rw [List.mergeSort_singleton, if_neg (by omega), List.take_of_length_le (by simp; omega)]
  have isSorted : sortForms [form] = [form] := List.mergeSort_singleton form
  rw [undoSteps, isSorted, on_bind, undone]
  dsimp only
  rw [isOnly, staysOnly]
  rfl

end Retrace

namespace Graph

open Retrace

/-- Whatever limit is given or set, what a retrace gives is accounted for: by what its rules
made when they were checked and, where every language goes by the short name it is stored under,
by what they make from whatever inventories. -/
theorem retrace_accounted {graph : Graph} {sequence : RuleSequence} {form : WordForm}
    {limit : Option Int} {marker : Text} {setLimit : Int} {made : Inventories} {retrace : Retrace}
    (gave : ((graph.retrace sequence form limit marker setLimit).on made).1 = .ok retrace) :
    Accounted graph marker Inventories.Any (limitInEffect setLimit limit) form
      (SequenceStep.numbered sequence.steps) retrace ∧
    (KeepShortNames graph.languages → made.AreOf graph.languages →
      ∀ other : Inventories, other.AreOf graph.languages →
        Accounted graph marker (· = other) (limitInEffect setLimit limit) form
          (SequenceStep.numbered sequence.steps) retrace) := by
  constructor
  · have searches : graph.Searches marker Inventories.Any := searches_any
    have met := (ensures_retrace searches sequence form limit setLimit made trivial).1
    rw [gave] at met
    exact met
  · intro shortNames madeOwned other otherOwned
    have searches : graph.Searches marker _ := searches_areOf shortNames
    have met := (ensures_retrace searches sequence form limit setLimit made madeOwned).1
    rw [gave] at met
    exact { met with
      leads := fun source isSource => (met.leads source isSource).elsewhere shortNames otherOwned }

def attachingRule (id : Int) (language : Text) (instruction : Instruction) : Rule where
  id := id
  name := "s"
  fromLanguage := language
  toLanguage := "a"
  logic := .sequential [{ instruction with kind := .attach .after }]

/-- Attaches an s. -/
def pluralRule : Rule :=
  attachingRule 1 "b" { kind := .attach .after, argument := some "s" }

/-- Attaches the first vowel once more. -/
def echoRule : Rule :=
  attachingRule 2 "a"
    { kind := .attach .after, seek := some { ordinal := 1, soundClass := some "vowel" } }

/-- A rule for each of two languages, of which the one of the first rule alone has a vowel. -/
def attachingRules (shortName : Text) : Graph where
  languages := ⟨[("a", { name := "A", shortName := "a" }),
    ("b", { name := "B", shortName, phonemes := [{ spelling := "x", tags := ["vowel"] }] })]⟩
  rules := ⟨[(1, pluralRule), (2, echoRule)]⟩

def attachingSequence (steps : List SequenceStep) : RuleSequence where
  id := 3
  name := "q"
  fromLanguage := "b"
  toLanguage := "a"
  steps := steps

theorem retrace_accounted_attachingRules :
    ∃ retrace,
      (((attachingRules "b").retrace (attachingSequence [{ rule := 1, optional := true }])
        { text := "xs", language := "a" } none).on {}).1 = .ok retrace ∧
      retrace.sources = ["x", "xs"] ∧ retrace.isComplete = true ∧
      Accounted (attachingRules "b") usualMarker Inventories.Any usualLimit
        { text := "xs", language := "a" } [(0, { rule := 1, optional := true })] retrace ∧
      ∀ other : Inventories, other.AreOf (attachingRules "b").languages →
        Accounted (attachingRules "b") usualMarker (· = other) usualLimit
          { text := "xs", language := "a" } [(0, { rule := 1, optional := true })] retrace := by
  have seen : (((attachingRules "b").retrace (attachingSequence [{ rule := 1, optional := true }])
      { text := "xs", language := "a" } none).on {}).1.toOption.map
        (fun retrace => (retrace.sources, retrace.isComplete)) =
          some ((["x", "xs"], true) : List Text × Bool) := by
    cbv
  obtain ⟨retrace, gave, same⟩ := Except.exists_of_toOption_map seen
  obtain ⟨sources, isComplete⟩ := Prod.mk.inj same
  have shortNames : KeepShortNames (attachingRules "b").languages :=
    (keepsNames_of_entries (by decide) (by decide)).shortNames
  obtain ⟨accounted, elsewhere⟩ := retrace_accounted gave
  exact ⟨retrace, gave, sources, isComplete, accounted,
    elsewhere shortNames (Inventories.areOf_empty _)⟩

/-- A limit of zero is none at all.  One below zero may leave no form to go on with, so that
the retrace halts at a step that may be left out.  And where a language goes by the name of
another one, a candidate may have been found with an inventory that was lent to its rule. -/
theorem retrace_need_not_be_accounted :
    (∃ retrace,
      ((attachingRules "b").retrace (attachingSequence [{ rule := 1, optional := true }])
        { text := "xs", language := "a" } (some 0)).result = .ok retrace ∧
      retrace.isComplete = true ∧ ¬(retrace.sources.length : Int) ≤ 0) ∧
    (∃ retrace last,
      ((attachingRules "b").retrace
        (attachingSequence [{ rule := 1, optional := true }, { rule := 1, optional := true }])
        { text := "x", language := "a" } (some (-1))).result = .ok retrace ∧
      retrace.isComplete = false ∧ retrace.steps.getLast? = some last ∧ last.skippable = true) ∧
    ∃ retrace entry candidate rule,
      ((attachingRules "a").retrace (attachingSequence [{ rule := 2 }, { rule := 1 }])
        { text := "xxs", language := "a" } none).result = .ok retrace ∧
      retrace.steps.getLast? = some entry ∧ entry.candidates = [candidate] ∧
      (attachingRules "a").rule candidate.rule = .ok rule ∧
      ¬(attachingRules "a").MakesFrom usualMarker {} rule candidate.form candidate.produces := by
  refine ⟨?_, ?_, ?_⟩
  · have seen : ((attachingRules "b").retrace
        (attachingSequence [{ rule := 1, optional := true }]) { text := "xs", language := "a" }
        (some 0)).result.toOption.map (fun retrace => (retrace.sources, retrace.isComplete)) =
          some ((["x", "xs"], true) : List Text × Bool) := by
      cbv
    obtain ⟨retrace, gave, same⟩ := Except.exists_of_toOption_map seen
    obtain ⟨sources, isComplete⟩ := Prod.mk.inj same
    exact ⟨retrace, gave, isComplete, by rw [sources]; decide⟩
  · have seen : ((attachingRules "b").retrace
        (attachingSequence [{ rule := 1, optional := true }, { rule := 1, optional := true }])
        { text := "x", language := "a" } (some (-1))).result.toOption.map
          (fun retrace => (retrace.isComplete, retrace.steps.getLast?.map RetraceStep.skippable)) =
            some (false, some true) := by
      cbv
    obtain ⟨retrace, gave, same⟩ := Except.exists_of_toOption_map seen
    obtain ⟨isHalted, last⟩ := Prod.mk.inj same
    obtain ⟨last, isLast, isSkippable⟩ := Option.map_eq_some_iff.mp last
    exact ⟨retrace, last, gave, isHalted, isLast, isSkippable⟩
  · let lent : Inventories := ⟨[("a", .ofLanguage
      { name := "B", shortName := "a", phonemes := [{ spelling := "x", tags := ["vowel"] }] })]⟩
    have plural : ((attachingRules "a").reverse pluralRule { text := "xxs", language := "a" }
        64).on {} = (.ok [{ text := "xx", language := "b" }], lent) := by
      unfold lent
      cbv
    have texts : (Reversal.beforeRule (attachingRules "a") { name := "A", shortName := "a" } []
        echoRule "xx").on lent = (.ok ["x"], lent) := by
      cbv
    obtain ⟨left, echo⟩ : ∃ left,
        ((attachingRules "a").reverse echoRule { text := "xx", language := "b" } 64).on lent =
          (.ok [{ text := "x", language := "a" }], left) := by
      refine ⟨_, Prod.ext ?_ rfl⟩
      change ((Reversal.beforeRule (attachingRules "a") { name := "A", shortName := "a" } []
        echoRule "xx" >>= _).on lent).1 = _
      rw [on_bind, texts, ← Except.toOption_eq_some]
      decide +kernel
    have walked : ((attachingRules "a").retrace (attachingSequence [{ rule := 2 }, { rule := 1 }])
        { text := "xxs", language := "a" } none).result = .ok ⟨"xxs",
          [⟨1, [⟨1, "s", { text := "xx", language := "b" }, "xxs"⟩], false, none⟩,
            ⟨0, [⟨2, "s", { text := "x", language := "a" }, "xx"⟩], false, none⟩], ["x"], none⟩ := by
      change ((undoSteps (attachingRules "a") usualMarker 64 "xxs" [] [_]
        [(1, { rule := 1 }), (0, { rule := 2 })]).on {}).1 = _
      rw [on_undoSteps (by decide) (on_undoStep rfl rfl plural) rfl,
        on_undoSteps (by decide) (on_undoStep rfl rfl echo) rfl,
        undoSteps, sortForms, List.mergeSort_singleton]
      rfl
    refine ⟨_, _, _, echoRule, walked, rfl, rfl, rfl, ?_⟩
    rintro ⟨outcome, applied, -⟩
    have failed : (((attachingRules "a").apply echoRule
        { text := "x", language := "a" }).on {}).1.toOption.isNone = true := by
      decide +kernel
    rw [applied] at failed
    cases failed

end Graph

end Diachrony
