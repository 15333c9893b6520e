import Diachrony.Proofs.Application.Frames
import Diachrony.Proofs.Application.References
import Diachrony.Reversal
import Diachrony.Text.SetOrder
import Mathlib.Data.List.DropRight

/-!
# Trying a rule on earlier texts

A rule is undone on texts alone and then tried on each of them.  While it asks for no other
language than its own, every trial is made with the same inventory.  So if no trial fails, and
as many forms may be kept as there are texts, each text is kept that the rule makes into the
text in question.
-/
namespace Diachrony

open Work

/-- A text without a mark at its end is bare. -/
theorem bareText_eq_self {marker text : Text} :
    bareText marker text = text ↔ ∀ nonempty : text ≠ [], text.getLast nonempty ∉ marker := by
  have asList : bareText marker text = text.rdropWhile marker.contains := rfl
  simp [asList, List.rdropWhile_eq_self_iff]

/-- A bare text that ends with the mark ends with nothing. -/
theorem marker_eq_nil_of_endsWith {marker text : Text} (isBare : bareText marker text = text)
    (endsSo : Text.endsWith marker text = true) : marker = [] := by
  obtain ⟨front, isFront⟩ := Option.isSome_iff_exists.mp endsSo
  obtain rfl := Text.before?_eq_some.mp isFront
  by_contra nonempty
  refine bareText_eq_self.mp isBare (by simp [nonempty]) ?_
  rw [List.getLast_append_of_ne_nil _ nonempty]
  exact List.getLast_mem nonempty

theorem Frame.withMarkOf_of_bare {frame : Frame} {form : WordForm}
    (isBare : bareText frame.marker form.text = form.text) (text : Text) :
    frame.withMarkOf form text = text := by
  unfold withMarkOf
  split
  · rename_i endsSo
    rw [marker_eq_nil_of_endsWith isBare endsSo, List.append_nil]
  · rfl

namespace Text

theorem sortedSet_singleton (text : Text) : sortedSet [text] = [text] := by
  rw [sortedSet, List.mergeSort_singleton, dropRepeats]

end Text

/-- Inventories with which a certain one serves for a language, whether it is there yet or is
made when it is needed. -/
def Inventories.Serve (language : Language) (inventory : Inventory) (made : Inventories) : Prop :=
  (serve made language).1 = inventory

theorem Work.ensures_served {language : Language} {inventory : Inventory}
    {Fails : Error → Prop} :
    (Work.inventory language).EnsuresFrom (Inventories.Serve language inventory) Fails
      (· = inventory) := by
  intro made serves
  refine ⟨serves, ?_⟩
  change (serve (serve made language).2 language).1 = inventory
  rw [serve_serve]
  exact serves

section

variable {Kept : Inventories → Prop} {Fails : Error → Prop} {Holds : Outcome → Prop}

/-- Where an outcome comes from: it applies as the run of the logic did, and has its text and
its classes. -/
structure Outcome.ComesOf (outcome ran : Outcome) : Prop where
  applied : outcome.applied = ran.applied
  text : ran.applied = true → outcome.form.text = ran.form.text
  classes : ran.applied = true → outcome.form.classes = ran.form.classes

theorem Frame.ensures_runWhole_of_runLogic {frame : Frame} {rule : Rule} {form : WordForm}
    (runs : (frame.runLogic rule.logic form).EnsuresFrom Kept Fails Holds)
    (declares : ∀ form, FailsOnly Fails (frame.declareCategories rule form)) :
    (frame.runWhole rule form).EnsuresFrom Kept Fails
      fun outcome => ∃ ran, Holds ran ∧ outcome.ComesOf ran := by
  refine ensures_bind runs fun ran holds => ?_
  refine ensures_ite (fun isApplied => ?_) fun notApplied => ?_
  · refine ensures_lookup (declares ran.form) fun declared gave => ensures_pure ?_
    obtain ⟨categories, rfl⟩ := exists_of_declareCategories gave
    exact ⟨ran, holds, isApplied.symm, fun _ => rfl, fun _ => rfl⟩
  · refine ensures_pure ⟨ran, holds, ?_, ?_, ?_⟩
    · exact (Bool.not_eq_true _ ▸ notApplied).symm
    · exact fun isApplied => absurd isApplied notApplied
    · exact fun isApplied => absurd isApplied notApplied

end

namespace Graph

variable {graph : Graph} {marker : Text} {rule : Rule} {source : Language}
  {inventory : Inventory}

/-- A rule that has given an outcome is from a language of the graph, and what it refers to is
there. -/
theorem exists_source_of_apply {form : WordForm} {made : Inventories} {outcome : Outcome}
    (gave : ((graph.apply rule form marker).on made).1 = .ok outcome) :
    ∃ source, graph.language rule.fromLanguage = .ok source ∧
      (graph.outerFrame marker source (serve made source).1).checkReferences rule = .ok () := by
  cases isSource : graph.language rule.fromLanguage with
  | error failure =>
      unfold apply at gave
      rw [applyWithin_eq, isSource] at gave
      cases gave
  | ok source =>
      refine ⟨source, rfl, ?_⟩
      rw [on_apply isSource] at gave
      revert gave
      cases (graph.outerFrame marker source (serve made source).1).checkReferences rule with
      | error failure => exact fun gave => nomatch gave
      | ok => exact fun _ => rfl

/-- The language that a rule leads to is looked up with the rest of what it refers to. -/
theorem exists_target_of_check {frame : Frame} (isChecked : frame.checkReferences rule = .ok ()) :
    ∃ target, frame.graph.language rule.toLanguage = .ok target := by
  obtain ⟨-, areChecked⟩ := Except.check_eq_ok.mp isChecked
  obtain ⟨-, categories⟩ := Except.check_eq_ok.mp areChecked
  obtain ⟨languages, isFound, -⟩ := Except.bind_eq_ok.mp categories
  obtain ⟨target, isTarget, -⟩ := Except.bind_eq_ok.mp isFound
  exact ⟨target, isTarget⟩

/-- If what a rule refers to is there, it does what its logic does. -/
theorem ensures_apply_of_runLogic {Holds : Outcome → Prop} {form : WordForm}
    (isSource : graph.language rule.fromLanguage = .ok source)
    (isChecked : (graph.outerFrame marker source inventory).checkReferences rule = .ok ())
    (runs : ((graph.frameWithin marker [rule.ref] [] source inventory).runLogic rule.logic
      form).EnsuresFrom (Inventories.Serve source inventory) (fun _ => False) Holds) :
    (graph.apply rule form marker).EnsuresFrom (Inventories.Serve source inventory)
      (fun _ => False) fun outcome => ∃ ran, Holds ran ∧ outcome.ComesOf ran := by
  have sameCheck : (graph.frameWithin marker [rule.ref] [] source inventory).checkReferences rule =
      .ok () := isChecked
  obtain ⟨-, areChecked⟩ := Except.check_eq_ok.mp isChecked
  obtain ⟨-, categories⟩ := Except.check_eq_ok.mp areChecked
  unfold apply
  rw [applyWithin_eq, isSource]
  refine ensures_lookup (failsOnly_ok source) fun _ same => ?_
  cases same
  refine ensures_bind ensures_served fun served same => ?_
  subst same
  refine ensures_adapt (fun _ isAllowed => isAllowed) ?_
  refine ensures_lookup (failsOnly_of_eq_ok sameCheck) fun _ _ => ?_
  exact Frame.ensures_runWhole_of_runLogic runs (Frame.failsOnly_declareCategories categories)

end Graph

/-- If as many forms may be kept as there are, those that pass are kept, all of them. -/
theorem Reversal.ensures_keepPassing_all {Kept : Inventories → Prop} {Fails : Error → Prop}
    {passes : WordForm → Session Bool} (MustPass : WordForm → Prop) {limit : Int}
    {forms : List WordForm} (areFew : (forms.length : Int) ≤ limit)
    (tries : ∀ form ∈ forms,
      (passes form).EnsuresFrom Kept Fails fun passed => MustPass form → passed = true) :
    (keepPassing passes limit forms).EnsuresFrom Kept Fails fun kept =>
      kept.Sublist forms ∧ ∀ form ∈ forms, MustPass form → form ∈ kept := by
  induction forms generalizing limit with
  | nil => exact ensures_pure ⟨.slnil, fun _ isMember => nomatch isMember⟩
  | cons form forms inductionHypothesis =>
      obtain ⟨triesFirst, triesOthers⟩ := List.forall_mem_cons.mp tries
      rw [List.length_cons] at areFew
      refine ensures_bind triesFirst fun passed mustPass => ?_
      refine ensures_ite (fun _ => ?_) fun notPassed => ?_
      · refine ensures_ite (fun isLast => ensures_pure ?_) fun _ => ?_
        · have noneLeft : forms = [] := List.length_eq_zero_iff.mp (by omega)
          subst noneLeft
          exact ⟨.refl _, fun _ isMember _ => isMember⟩
        · refine ensures_bind (inductionHypothesis (by omega) triesOthers) fun kept keeps => ?_
          refine ensures_pure ⟨keeps.1.cons_cons form, List.forall_mem_cons.mpr ⟨?_, ?_⟩⟩
          · exact fun _ => List.mem_cons_self
          · exact fun other isMember must => List.mem_cons_of_mem _ (keeps.2 other isMember must)
      · refine (inductionHypothesis (by omega) triesOthers).mono fun kept keeps => ?_
        exact ⟨keeps.1.cons form, List.forall_mem_cons.mpr
          ⟨fun must => absurd (mustPass must) notPassed, keeps.2⟩⟩

/-- If no trial fails and as many forms may be kept as there are texts, the forms that are found
stand on these texts, and one stands on each text that the rule makes into that of the form. -/
theorem Graph.exists_reverse {graph : Graph} {marker : Text} {rule : Rule}
    {source target : Language} {Kept : Inventories → Prop} {form : WordForm}
    {later left : Inventories} {limit : Int} {texts : List Text} (Returns : Text → Prop)
    (isSource : graph.language rule.fromLanguage = .ok source)
    (isTarget : graph.language rule.toLanguage = .ok target)
    (undone : (Reversal.beforeRule graph source [] rule form.text).on later = (.ok texts, left))
    (isKept : Kept left) (areFew : (texts.length : Int) ≤ limit)
    (applies : ∀ text ∈ texts,
      (graph.apply rule (Reversal.candidate rule form text) marker).EnsuresFrom Kept
        (fun _ => False) fun outcome => Returns text →
          outcome.applied = true ∧ outcome.form.text = form.text) :
    ∃ earlier, ((graph.reverse rule form limit marker).on later).1 = .ok earlier ∧
      (earlier.map WordForm.text).Sublist texts ∧
      ∀ text ∈ texts, Returns text → text ∈ earlier.map WordForm.text := by
  have sameTexts : (texts.map (Reversal.candidate rule form)).map WordForm.text = texts := by
    rw [List.map_map]
    exact List.map_id _
  let passes (candidate : WordForm) : Session Bool := do
    let outcome ← graph.apply rule candidate marker
    return outcome.applied &&
      comparable marker outcome.form.text == comparable marker form.text
  have tries : ∀ candidate ∈ texts.map (Reversal.candidate rule form),
      (passes candidate).EnsuresFrom Kept (fun _ => False) fun passed =>
        Returns candidate.text → passed = true := by
    intro candidate isCandidate
    obtain ⟨text, isText, rfl⟩ := List.mem_map.mp isCandidate
    refine ensures_bind (applies text isText) fun outcome returns => ensures_pure fun must => ?_
    obtain ⟨isApplied, isSame⟩ := returns must
    rw [isApplied, isSame, beq_self_eq_true]
    rfl
  have sameCount : (texts.map (Reversal.candidate rule form)).length = texts.length :=
    List.length_map _
  obtain ⟨earlier, _, kept, keeps, -⟩ :=
    (Reversal.ensures_keepPassing_all _ (sameCount ▸ areFew) tries).exists_value isKept
  refine ⟨earlier, ?_, sameTexts ▸ keeps.1.map WordForm.text, fun text isText must => ?_⟩
  · unfold reverse
    rw [isSource, found_bind, isTarget, found_bind, on_bind, undone]
    exact congrArg Prod.fst kept
  · have isCandidate := List.mem_map_of_mem (f := Reversal.candidate rule form) isText
    exact List.mem_map_of_mem (f := WordForm.text) (keeps.2 _ isCandidate must)

end Diachrony
