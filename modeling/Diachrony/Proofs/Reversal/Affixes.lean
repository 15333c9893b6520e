import Diachrony.Proofs.Reversal.Candidates

/-!
# Taking affixes off again

A row of affixes is undone from the last one back.  Each affix is taken off at the side at
which it was put on, so there is never more than one text before it, and that is the text it was
put on, even if the word began or ended so of itself.  No mark is lost on the way: there is none
at the end of the word, and an affix brings none.
-/
namespace Diachrony

open Work

namespace Instruction

/-- An instruction attaches an affix: a text that is not empty and has no mark in it. -/
structure IsAffix (marker : Text) (instruction : Instruction) (side : Side)
    (affix : Text) : Prop where
  attaches : instruction.kind = .attach side
  copiesNone : instruction.seek = none
  isText : instruction.argument = some affix
  nonempty : affix ≠ []
  unmarked : ∀ char ∈ affix, char ∉ marker

def affixed (text : Text) (instruction : Instruction) : Text :=
  match instruction.kind with
  | .attach .before => instruction.argument.getD [] ++ text
  | .attach .after => text ++ instruction.argument.getD []
  | _ => text

namespace IsAffix

variable {marker affix : Text} {instruction : Instruction} {side : Side}

theorem affixed_eq (isAffix : instruction.IsAffix marker side affix) (text : Text) :
    affixed text instruction =
      match side with
      | .before => affix ++ text
      | .after => text ++ affix := by
  unfold affixed
  rw [isAffix.attaches, isAffix.isText]
  cases side <;> rfl

/-- A text that ends without a mark still does so with an affix. -/
theorem bareText_affixed (isAffix : instruction.IsAffix marker side affix) {text : Text}
    (isBare : bareText marker text = text) :
    bareText marker (affixed text instruction) = affixed text instruction := by
  rw [bareText_eq_self] at isBare ⊢
  rw [isAffix.affixed_eq text]
  have endsBare : affix.getLast isAffix.nonempty ∉ marker :=
    isAffix.unmarked _ (List.getLast_mem _)
  cases side with
  | before =>
      intro _
      by_cases isEmpty : text = []
      · subst isEmpty
        simpa using endsBare
      · simpa [List.getLast_append, isEmpty] using isBare isEmpty
  | after =>
      intro _
      simpa [List.getLast_append, isAffix.nonempty] using endsBare

/-- Carrying out an affix on a bare text attaches it. -/
theorem carryOut_eq {frame : Frame} (isAffix : instruction.IsAffix frame.marker side affix)
    (branch : Option Branch) {form : WordForm}
    (isBare : bareText frame.marker form.text = form.text) :
    frame.carryOut branch form instruction =
      pure (form.withText (affixed form.text instruction)) := by
  unfold Frame.carryOut
  rw [isAffix.attaches, isAffix.affixed_eq form.text]
  dsimp only
  unfold Frame.attach Frame.affix?
  rw [isAffix.copiesNone, isAffix.isText, isBare]
  cases side <;> rfl

/-- There is one text before an affix, the one that it was put on. -/
theorem undo_affixed (isAffix : instruction.IsAffix marker side affix)
    (undoing : Reversal.Undoing) (branch : Option Branch) (text : Text) :
    Reversal.undo undoing branch (affixed text instruction) instruction = pure [text] := by
  unfold Reversal.undo
  rw [isAffix.attaches, isAffix.affixed_eq text]
  dsimp only
  unfold Reversal.withoutAffix
  rw [isAffix.copiesNone, isAffix.isText]
  obtain ⟨char, rest, rfl⟩ := List.exists_cons_of_ne_nil isAffix.nonempty
  cases side with
  | before =>
      dsimp only
      rw [Text.after?_append]
      rfl
  | after =>
      dsimp only
      rw [Text.before?_append]
      rfl

theorem checkInstruction_eq (isAffix : instruction.IsAffix marker side affix) (frame : Frame) :
    frame.checkInstruction instruction = .ok () := by
  unfold Frame.checkInstruction
  rw [isAffix.attaches, isAffix.copiesNone]
  rfl

end IsAffix

end Instruction

def AreAffixes (marker : Text) (instructions : List Instruction) : Prop :=
  ∀ instruction ∈ instructions, ∃ side affix, instruction.IsAffix marker side affix

/-- A text with the affixes of a row of instructions, from the first to the last. -/
abbrev affixedAll (text : Text) (instructions : List Instruction) : Text :=
  instructions.foldl Instruction.affixed text

theorem Frame.carryOutAll_affixes (frame : Frame) {instructions : List Instruction}
    (areAffixes : AreAffixes frame.marker instructions) (branch : Option Branch)
    {form : WordForm} (isBare : bareText frame.marker form.text = form.text) :
    ∃ last, frame.carryOutAll branch form instructions = pure last ∧
      last.text = affixedAll form.text instructions := by
  unfold carryOutAll
  induction instructions generalizing form with
  | nil => exact ⟨form, rfl, rfl⟩
  | cons instruction instructions inductionHypothesis =>
      obtain ⟨⟨side, affix, isAffix⟩, others⟩ := List.forall_mem_cons.mp areAffixes
      rw [List.foldlM_cons, isAffix.carryOut_eq branch isBare, pure_bind]
      exact inductionHypothesis others (isAffix.bareText_affixed isBare)

/-- The affixes of a row come off in the opposite order, and leave the text that they were put
on and no other. -/
theorem Reversal.undoAll_affixes {marker : Text} {instructions : List Instruction}
    (areAffixes : AreAffixes marker instructions) (undoing : Undoing) (branch : Option Branch)
    (text : Text) :
    undoAll undoing branch instructions.reverse [affixedAll text instructions] = pure [text] := by
  induction instructions using List.reverseRecOn with
  | nil =>
      rw [List.reverse_nil, undoAll, Text.sortedSet_singleton]
      rfl
  | append_singleton instructions last inductionHypothesis =>
      obtain ⟨others, isLast⟩ := List.forall_mem_append.mp areAffixes
      obtain ⟨side, affix, isAffix⟩ := List.forall_mem_singleton.mp isLast
      rw [List.reverse_concat, undoAll, affixedAll, List.foldl_concat, List.mapM_cons,
        isAffix.undo_affixed, List.mapM_nil]
      change undoAll undoing branch instructions.reverse
        (Text.sortedSet [affixedAll text instructions]) = _
      rw [Text.sortedSet_singleton]
      exact inductionHypothesis others

/-- A row of affixes refers to nothing, so only the categories of its rule are looked up. -/
theorem Frame.checkReferences_affixes (frame : Frame) {rule : Rule}
    {instructions : List Instruction} (isSequential : rule.logic = .sequential instructions)
    (areAffixes : AreAffixes frame.marker instructions) :
    frame.checkReferences rule = frame.checkCategories rule := by
  have areChecked : rule.logic.instructions.forM frame.checkInstruction = .ok () := by
    refine Except.forM_eq_ok.mpr fun instruction isMember => ?_
    have sameInstructions : rule.logic.instructions = instructions := by
      rw [isSequential]
      exact List.append_nil instructions
    obtain ⟨side, affix, isAffix⟩ := areAffixes instruction (sameInstructions ▸ isMember)
    exact isAffix.checkInstruction_eq frame
  unfold checkReferences
  rw [areChecked, isSequential]
  rfl

namespace Graph

variable {graph : Graph} {marker : Text} {rule : Rule} {source : Language}
  {inventory : Inventory} {instructions : List Instruction}

theorem ensures_apply_affixes (isSequential : rule.logic = .sequential instructions)
    (areAffixes : AreAffixes marker instructions)
    (isSource : graph.language rule.fromLanguage = .ok source)
    (isChecked : (graph.outerFrame marker source inventory).checkReferences rule = .ok ())
    {form : WordForm} (isBare : bareText marker form.text = form.text) :
    (graph.apply rule form marker).EnsuresFrom (Inventories.Serve source inventory)
      (fun _ => False) fun outcome =>
        outcome.applied = true ∧ outcome.form.text = affixedAll form.text instructions := by
  let frame := graph.frameWithin marker [rule.ref] [] source inventory
  obtain ⟨last, attached, isText⟩ := frame.carryOutAll_affixes areAffixes none isBare
  have runs : (frame.runLogic rule.logic form).EnsuresFrom (Inventories.Serve source inventory)
      (fun _ => False) (· = ⟨true, last⟩) := by
    rw [isSequential, Frame.runLogic, attached]
    exact ensures_pure rfl
  refine (ensures_apply_of_runLogic isSource isChecked runs).mono ?_
  rintro outcome ⟨_, rfl, comes⟩
  exact ⟨comes.applied, (comes.text rfl).trans isText⟩

/-- A row of affixes is taken off again, and nothing but the text that it was put on is left.
If a rule only attaches affixes and has given an outcome for a form without a mark at its end,
then the search for forms before that outcome finds just one, and it has the text of the form.
It does not matter which inventories the search goes on from. -/
theorem reverse_affixes (graph : Graph) (marker : Text) {rule : Rule}
    {instructions : List Instruction} (isSequential : rule.logic = .sequential instructions)
    (areAffixes : AreAffixes marker instructions)
    {form : WordForm} (isBare : bareText marker form.text = form.text)
    {made : Inventories} {outcome : Outcome}
    (gave : ((graph.apply rule form marker).on made).1 = .ok outcome)
    {limit : Int} (isPositive : 1 ≤ limit) (later : Inventories) :
    ∃ earlier, ((graph.reverse rule outcome.form limit marker).on later).1 = .ok [earlier] ∧
      earlier.text = form.text := by
  obtain ⟨source, isSource, isChecked⟩ := exists_source_of_apply gave
  obtain ⟨target, isTarget⟩ := exists_target_of_check isChecked
  have categories : ∀ inventory,
      (graph.outerFrame marker source inventory).checkReferences rule = .ok () := by
    intro inventory
    have sameCheck (inventory : Inventory) :=
      (graph.outerFrame marker source inventory).checkReferences_affixes isSequential areAffixes
    rw [sameCheck] at isChecked ⊢
    exact isChecked
  have attaches (inventory : Inventory) {form : WordForm}
      (isBare : bareText marker form.text = form.text) :=
    ensures_apply_affixes isSequential areAffixes isSource (categories inventory) isBare
  have isText : outcome.form.text = affixedAll form.text instructions :=
    ((attaches _ isBare).of_on rfl gave).2
  have undone : (Reversal.beforeRule graph source [] rule outcome.form.text).on later =
      (.ok [form.text], later) := by
    rw [Reversal.beforeRule, isSequential, isText]
    unfold Reversal.beforeLogic
    dsimp only
    rw [Reversal.undoAll_affixes areAffixes]
    rfl
  have returns : ∀ text ∈ [form.text],
      (graph.apply rule (Reversal.candidate rule outcome.form text) marker).EnsuresFrom
        (Inventories.Serve source (serve later source).1) (fun _ => False) fun again =>
          text = form.text → again.applied = true ∧ again.form.text = outcome.form.text := by
    refine List.forall_mem_singleton.mpr ?_
    have isCandidateBare : bareText marker
        (Reversal.candidate rule outcome.form form.text).text = form.text := isBare
    refine (attaches _ isCandidateBare).mono fun again attached _ => ?_
    exact ⟨attached.1, attached.2.trans isText.symm⟩
  have serves : Inventories.Serve source (serve later source).1 later := rfl
  obtain ⟨earlier, found, areTexts, isFound⟩ := exists_reverse (· = form.text) isSource isTarget
    undone serves (by simpa using isPositive) returns
  obtain isNone | isOne := List.sublist_singleton.mp areTexts
  · have isMember := isFound form.text (List.mem_singleton_self _) rfl
    rw [isNone] at isMember
    cases isMember
  · obtain ⟨only, rfl, isText⟩ := List.map_eq_singleton_iff.mp isOne
    exact ⟨only, found, isText⟩

def twoLanguages (rule : Rule) : Graph where
  languages := ⟨[
    ("a", { name := "A", shortName := "a" }),
    ("b", { name := "B", shortName := "b" })]⟩
  rules := ⟨[(1, rule)]⟩

/-- A rule that attaches an affix on either side, and the first one once more. -/
def affixing : Rule where
  id := 1
  name := "affixing"
  fromLanguage := "a"
  toLanguage := "b"
  logic := .sequential [
    { kind := .attach .before, argument := some "re" },
    { kind := .attach .after, argument := some "en" },
    { kind := .attach .before, argument := some "re" }]

/-- The word "reen" begins and ends with these affixes itself, and keeps its own. -/
theorem reverse_affixes_reen :
    AreAffixes "-" affixing.logic.openingInstructions ∧
    bareText "-" "reen" = "reen" ∧
    ∃ outcome,
      (((twoLanguages affixing).apply affixing { text := "reen", language := "a" } "-").on {}).1 =
        .ok outcome ∧
      outcome.form.text = ("rerereenen" : Text) ∧
      ∃ earlier, (((twoLanguages affixing).reverse affixing outcome.form 5 "-").on {}).1 =
        .ok [earlier] ∧ earlier.text = ("reen" : Text) := by
  have areAffixes : AreAffixes "-" affixing.logic.openingInstructions := by
    intro instruction isMember
    simp only [affixing, Logic.openingInstructions, List.mem_cons, List.not_mem_nil, or_false]
      at isMember
    obtain rfl | rfl | rfl := isMember
    · exact ⟨.before, "re", rfl, rfl, rfl, by decide, by decide⟩
    · exact ⟨.after, "en", rfl, rfl, rfl, by decide, by decide⟩
    · exact ⟨.before, "re", rfl, rfl, rfl, by decide, by decide⟩
  have isBare : bareText "-" "reen" = "reen" := by decide
  have isSeen : (((twoLanguages affixing).apply affixing
      { text := "reen", language := "a" } "-").on {}).1.toOption.map
        (fun outcome => outcome.form.text) = some ("rerereenen" : Text) := by
    decide +kernel
  obtain ⟨outcome, gave, isText⟩ := Except.exists_of_toOption_map isSeen
  exact ⟨areAffixes, isBare, outcome, gave, isText,
    reverse_affixes (twoLanguages affixing) "-" rfl areAffixes isBare gave (by decide) {}⟩

end Graph

end Diachrony
