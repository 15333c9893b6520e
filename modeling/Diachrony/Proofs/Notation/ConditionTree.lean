import Diachrony.Proofs.Notation.Phrase

/-!
# Condition trees

The tree that is read of a text has no "all" directly in an "all" and no "any" directly
in an "any", whatever its predicates are: these are made of the words between two brackets
or connectives.
-/
namespace Diachrony

open Text (joinWith isBlank)

/-- A word that stays in one piece and is no connective: it has neither a blank nor a
bracket outside of quotations, and all its quotations are closed. -/
structure IsUnit (word : Text) : Prop where
  isSome : word ≠ []
  together : holdsTogether false word = true
  notAnd : word ≠ "and"
  notOr : word ≠ "or"

instance (word : Text) : Decidable (IsUnit word) :=
  decidable_of_iff (word ≠ [] ∧ holdsTogether false word = true ∧ word ≠ "and" ∧ word ≠ "or")
    ⟨fun ⟨isSome, together, notAnd, notOr⟩ => ⟨isSome, together, notAnd, notOr⟩,
      fun ⟨isSome, together, notAnd, notOr⟩ => ⟨isSome, together, notAnd, notOr⟩⟩

/-- Words with a single space between neighbours. -/
def IsWording (text : Text) : Prop :=
  ∃ words : List Text, words ≠ [] ∧ joinWith " " words = text ∧ ∀ word ∈ words, IsUnit word

theorem IsUnit.isWord {word : Text} (isUnit : IsUnit word) : Condition.isWord word = true := by
  obtain ⟨-, together, notAnd, notOr⟩ := isUnit
  have notBracket : ∀ bracket ∈ (["(", ")"] : List Text), word ≠ bracket := by
    intro bracket isBracket isWord
    have apart : ∀ bracket ∈ (["(", ")"] : List Text), holdsTogether false bracket = false := by
      decide
    rw [isWord, apart bracket isBracket] at together
    cases together
  rw [Condition.isWord, Bool.not_eq_true', List.contains_eq_mem, decide_eq_false_iff_not]
  rintro (_ | ⟨_, _ | ⟨_, isBracket⟩⟩)
  · exact notAnd rfl
  · exact notOr rfl
  · exact notBracket word isBracket rfl

theorem IsWord.isUnit {word : Text} (isWord : IsWord word) : IsUnit word where
  isSome := isWord.isSome
  together := isWord.together
  notAnd := by
    rintro rfl
    cases isWord.isWord
  notOr := by
    rintro rfl
    cases isWord.isWord

theorem IsPhrase.isWording {text : Text} (isPhrase : IsPhrase text) : IsWording text := by
  induction isPhrase with
  | @word word isWord =>
      exact ⟨[word], List.cons_ne_nil _ _, rfl, by simpa using isWord.isUnit⟩
  | @more word others isWord isOthers inductionHypothesis =>
      obtain ⟨words, isSome, isJoined, areUnits⟩ := inductionHypothesis
      refine ⟨word :: words, List.cons_ne_nil _ _, ?_,
        List.forall_mem_cons.mpr ⟨isWord.isUnit, areUnits⟩⟩
      rw [Text.joinWith_cons _ _ isSome, isJoined, List.append_assoc]
      rfl

namespace Condition

/-- The words of a wording are what is read of it as tokens. -/
theorem tokenizes_joinWith {words : List Text} (isSome : words ≠ [])
    (areUnits : ∀ word ∈ words, IsUnit word) : Tokenizes (joinWith " " words) words := by
  induction words with
  | nil => exact absurd rfl isSome
  | cons word words inductionHypothesis =>
      have isUnit := areUnits word List.mem_cons_self
      have isFirst : Tokenizes word [word] := .of_word isUnit.isSome isUnit.together
      cases words with
      | nil => exact isFirst
      | cons next words =>
          rw [Text.joinWith_cons _ _ (List.cons_ne_nil _ _), List.append_assoc]
          exact isFirst.append (inductionHypothesis (List.cons_ne_nil _ _)
            fun other isMember => areUnits other (List.mem_cons_of_mem _ isMember))

/-- A tree that is nested no deeper than "and" and "or" need: what is joined has at least two
members, and none of them is joined in the same way. -/
inductive IsNormal : Condition → Prop
  | holds (predicate : Predicate) : IsNormal (holds predicate)
  | all {members : List Condition} : 2 ≤ members.length →
      (∀ member ∈ members, IsNormal member) →
      (∀ member ∈ members, ∀ inner, member ≠ all inner) → IsNormal (all members)
  | any {members : List Condition} : 2 ≤ members.length →
      (∀ member ∈ members, IsNormal member) →
      (∀ member ∈ members, ∀ inner, member ≠ any inner) → IsNormal (any members)

section

variable {condition member : Condition} {members : List Condition}

@[simp] theorem factors_holds (predicate : Predicate) :
    (holds predicate).factors = [holds predicate] := rfl

@[simp] theorem factors_all (members : List Condition) : (all members).factors = members := rfl

@[simp] theorem factors_any (members : List Condition) :
    (any members).factors = [any members] := rfl

@[simp] theorem alternatives_holds (predicate : Predicate) :
    (holds predicate).alternatives = [holds predicate] := rfl

@[simp] theorem alternatives_all (members : List Condition) :
    (all members).alternatives = [all members] := rfl

@[simp] theorem alternatives_any (members : List Condition) :
    (any members).alternatives = members := rfl

theorem factors_eq_self_iff : condition.factors = [condition] ↔ ∀ inner, condition ≠ all inner := by
  cases condition with
  | holds | any => simp
  | all members =>
      rw [factors_all]
      constructor
      · intro isSelf
        have sameSize := congrArg sizeOf isSelf
        simp only [List.cons.sizeOf_spec, all.sizeOf_spec] at sameSize
        omega
      · intro apart
        exact absurd rfl (apart members)

theorem alternatives_eq_self_iff :
    condition.alternatives = [condition] ↔ ∀ inner, condition ≠ any inner := by
  cases condition with
  | holds | all => simp
  | any members =>
      rw [alternatives_any]
      constructor
      · intro isSelf
        have sameSize := congrArg sizeOf isSelf
        simp only [List.cons.sizeOf_spec, any.sizeOf_spec] at sameSize
        omega
      · intro apart
        exact absurd rfl (apart members)

theorem IsNormal.factors_ne_nil (normal : condition.IsNormal) : condition.factors ≠ [] := by
  cases normal with
  | holds | any => exact List.cons_ne_nil _ _
  | all areMany => exact List.ne_nil_of_length_pos (Nat.lt_of_lt_of_le Nat.zero_lt_two areMany)

theorem IsNormal.alternatives_ne_nil (normal : condition.IsNormal) :
    condition.alternatives ≠ [] := by
  cases normal with
  | holds | all => exact List.cons_ne_nil _ _
  | any areMany => exact List.ne_nil_of_length_pos (Nat.lt_of_lt_of_le Nat.zero_lt_two areMany)

theorem isNormal_of_mem_factors (normal : condition.IsNormal)
    (isMember : member ∈ condition.factors) :
    member.IsNormal ∧ ∀ inner, member ≠ all inner := by
  cases normal with
  | holds predicate =>
      cases List.mem_singleton.mp isMember
      exact ⟨.holds predicate, by simp⟩
  | all areMany areNormal apart => exact ⟨areNormal member isMember, apart member isMember⟩
  | any areMany areNormal apart =>
      cases List.mem_singleton.mp isMember
      exact ⟨.any areMany areNormal apart, by simp⟩

theorem isNormal_of_mem_alternatives (normal : condition.IsNormal)
    (isMember : member ∈ condition.alternatives) :
    member.IsNormal ∧ ∀ inner, member ≠ any inner := by
  cases normal with
  | holds predicate =>
      cases List.mem_singleton.mp isMember
      exact ⟨.holds predicate, by simp⟩
  | all areMany areNormal apart =>
      cases List.mem_singleton.mp isMember
      exact ⟨.all areMany areNormal apart, by simp⟩
  | any areMany areNormal apart => exact ⟨areNormal member isMember, apart member isMember⟩

theorem length_le_flatMap {parts : Condition → List Condition}
    (areSome : ∀ member ∈ members, parts member ≠ []) :
    members.length ≤ (members.flatMap parts).length := by
  induction members with
  | nil => exact Nat.le_refl _
  | cons first members inductionHypothesis =>
      have isSome := List.length_pos_iff.mpr (areSome first List.mem_cons_self)
      have others := inductionHypothesis fun member isMember =>
        areSome member (List.mem_cons_of_mem _ isMember)
      rw [List.flatMap_cons, List.length_append, List.length_cons]
      omega

theorem two_le_length (areSome : members ≠ []) (notOne : ∀ member, members = [member] → False) :
    2 ≤ members.length := by
  match members with
  | [] => exact absurd rfl areSome
  | [member] => exact (notOne member rfl).elim
  | _ :: _ :: _ => simp

theorem isNormal_allOf (areSome : members ≠ []) (areNormal : ∀ member ∈ members, member.IsNormal) :
    (allOf members).IsNormal := by
  unfold allOf
  split
  · exact areNormal _ List.mem_cons_self
  · rename_i notOne
    have areMany := two_le_length areSome notOne
    have parts : ∀ part ∈ members.flatMap factors,
        part.IsNormal ∧ ∀ inner, part ≠ all inner := by
      intro part isPart
      obtain ⟨member, isMember, isPart⟩ := List.mem_flatMap.mp isPart
      exact isNormal_of_mem_factors (areNormal member isMember) isPart
    exact .all (areMany.trans (length_le_flatMap fun member isMember =>
      (areNormal member isMember).factors_ne_nil)) (fun part isPart => (parts part isPart).1)
      fun part isPart => (parts part isPart).2

theorem isNormal_anyOf (areSome : members ≠ []) (areNormal : ∀ member ∈ members, member.IsNormal) :
    (anyOf members).IsNormal := by
  unfold anyOf
  split
  · exact areNormal _ List.mem_cons_self
  · rename_i notOne
    have areMany := two_le_length areSome notOne
    have parts : ∀ part ∈ members.flatMap alternatives,
        part.IsNormal ∧ ∀ inner, part ≠ any inner := by
      intro part isPart
      obtain ⟨member, isMember, isPart⟩ := List.mem_flatMap.mp isPart
      exact isNormal_of_mem_alternatives (areNormal member isMember) isPart
    exact .any (areMany.trans (length_le_flatMap fun member isMember =>
      (areNormal member isMember).alternatives_ne_nil)) (fun part isPart => (parts part isPart).1)
      fun part isPart => (parts part isPart).2

theorem memberPredicates_eq (members : List Condition) :
    memberPredicates members = members.flatMap predicates := by
  induction members with
  | nil => rfl
  | cons member members inductionHypothesis =>
      rw [memberPredicates, inductionHypothesis, List.flatMap_cons]

theorem mem_memberPredicates {predicate : Predicate} :
    predicate ∈ memberPredicates members ↔
      ∃ member ∈ members, predicate ∈ member.predicates := by
  rw [memberPredicates_eq, List.mem_flatMap]

theorem memberPredicates_flatMap {parts : Condition → List Condition}
    (same : ∀ member, memberPredicates (parts member) = member.predicates)
    (members : List Condition) :
    memberPredicates (members.flatMap parts) = memberPredicates members := by
  rw [memberPredicates_eq, memberPredicates_eq, List.flatMap_assoc]
  refine List.flatMap_congr fun member isMember => ?_
  rw [← memberPredicates_eq, same]

theorem predicates_allOf (members : List Condition) :
    (allOf members).predicates = memberPredicates members := by
  unfold allOf
  split
  · simp [memberPredicates]
  · rw [predicates, memberPredicates_flatMap]
    intro member
    cases member <;> simp [predicates, memberPredicates]

theorem predicates_anyOf (members : List Condition) :
    (anyOf members).predicates = memberPredicates members := by
  unfold anyOf
  split
  · simp [memberPredicates]
  · rw [predicates, memberPredicates_flatMap]
    intro member
    cases member <;> simp [predicates, memberPredicates]

end

structure IsNormalWith (Fits : Predicate → Prop) (condition : Condition) : Prop where
  normal : condition.IsNormal
  fits : ∀ predicate ∈ condition.predicates, Fits predicate

section

variable {Fits : Predicate → Prop} {members : List Condition}

theorem isNormalWith_allOf (areSome : members ≠ [])
    (areNormal : ∀ member ∈ members, member.IsNormalWith Fits) :
    (allOf members).IsNormalWith Fits where
  normal := isNormal_allOf areSome fun member isMember => (areNormal member isMember).normal
  fits := by
    intro predicate isPredicate
    rw [predicates_allOf, mem_memberPredicates] at isPredicate
    obtain ⟨member, isMember, isPredicate⟩ := isPredicate
    exact (areNormal member isMember).fits predicate isPredicate

theorem isNormalWith_anyOf (areSome : members ≠ [])
    (areNormal : ∀ member ∈ members, member.IsNormalWith Fits) :
    (anyOf members).IsNormalWith Fits where
  normal := isNormal_anyOf areSome fun member isMember => (areNormal member isMember).normal
  fits := by
    intro predicate isPredicate
    rw [predicates_anyOf, mem_memberPredicates] at isPredicate
    obtain ⟨member, isMember, isPredicate⟩ := isPredicate
    exact (areNormal member isMember).fits predicate isPredicate

/-- Tokens whose words make predicates with a property, wherever they are read as one. -/
def Make (Fits : Predicate → Prop) (tokens : List Text) : Prop :=
  ∀ words, words ≠ [] → (∀ word ∈ words, word ∈ tokens ∧ isWord word = true) →
    ∀ predicate, Predicate.read (joinWith " " words) = .ok predicate → Fits predicate

theorem Make.subset {tokens rest : List Text} (make : Make Fits tokens) (isPart : rest ⊆ tokens) :
    Make Fits rest := by
  intro words isSome areWords
  exact make words isSome fun word isMember =>
    ⟨isPart (areWords word isMember).1, (areWords word isMember).2⟩

/-- What reading a list of conditions comes to: the tokens left are some of those given, and there
is a condition at least, each in normal form. -/
structure Lists (Fits : Predicate → Prop) (tokens rest : List Text) (members : List Condition) :
    Prop where
  isPart : rest ⊆ tokens
  areSome : members ≠ []
  areNormal : ∀ member ∈ members, member.IsNormalWith Fits

theorem lists_single {tokens rest : List Text} {member : Condition} (isPart : rest ⊆ tokens)
    (isNormal : member.IsNormalWith Fits) : Lists Fits tokens rest [member] where
  isPart := isPart
  areSome := List.cons_ne_nil _ _
  areNormal := by simpa using isNormal

/-- A first condition, and the others if the word that joins them stands behind it. -/
theorem lists_of_joined {separator : Text} {tokens left rest : List Text} {first : Condition}
    {further : List Text → Except ReadingFault (List Condition × List Text)}
    (make : Make Fits tokens) (isLeft : left ⊆ tokens) (isFirst : first.IsNormalWith Fits)
    (ofFurther : ∀ {behind rest : List Text} {others : List Condition},
      further behind = .ok (others, rest) → Make Fits behind → Lists Fits behind rest others)
    (gave : (match left with
      | [] => return ([first], [])
      | token :: left =>
          if token = separator then do
            let (others, rest) ← further left
            return (first :: others, rest)
          else return ([first], token :: left)) = Except.ok (members, rest)) :
    Lists Fits tokens rest members := by
  cases left with
  | nil =>
      cases gave
      exact lists_single isLeft isFirst
  | cons token behind =>
      dsimp only at gave
      split at gave
      · obtain ⟨⟨others, rest⟩, areOthers, gave⟩ := Except.bind_eq_ok.mp gave
        cases gave
        have isBehind : behind ⊆ tokens := List.subset_of_cons_subset isLeft
        have lists := ofFurther areOthers (make.subset isBehind)
        exact
          { isPart := List.Subset.trans lists.isPart isBehind
            areSome := List.cons_ne_nil _ _
            areNormal := List.forall_mem_cons.mpr ⟨isFirst, lists.areNormal⟩ }
      · cases gave
        exact lists_single isLeft isFirst

/-- What the readers make of tokens, and that they take all they leave from these. -/
theorem isNormalWith_of_readTokens (calls : Nat) :
    (∀ {tokens rest : List Text} {members : List Condition},
      readAlternatives calls tokens = .ok (members, rest) → Make Fits tokens →
      Lists Fits tokens rest members) ∧
    (∀ {tokens rest : List Text} {members : List Condition},
      readFactors calls tokens = .ok (members, rest) → Make Fits tokens →
      Lists Fits tokens rest members) ∧
    (∀ {tokens rest : List Text} {member : Condition},
      readAtom calls tokens = .ok (member, rest) → Make Fits tokens →
      rest ⊆ tokens ∧ member.IsNormalWith Fits) := by
  induction calls with
  | zero =>
      refine ⟨?_, ?_, ?_⟩
      all_goals
        intro tokens rest found gave
        cases gave
  | succ calls inductionHypothesis =>
      obtain ⟨ofAlternatives, ofFactors, ofAtom⟩ := inductionHypothesis
      refine ⟨?_, ?_, ?_⟩
      · intro tokens rest members gave make
        rw [readAlternatives] at gave
        obtain ⟨⟨found, left⟩, isFound, gave⟩ := Except.bind_eq_ok.mp gave
        have lists := ofFactors isFound make
        have isFirst := isNormalWith_allOf lists.areSome lists.areNormal
        exact lists_of_joined make lists.isPart isFirst ofAlternatives gave
      · intro tokens rest members gave make
        rw [readFactors] at gave
        obtain ⟨⟨found, left⟩, isFound, gave⟩ := Except.bind_eq_ok.mp gave
        obtain ⟨isLeft, isFirst⟩ := ofAtom isFound make
        exact lists_of_joined make isLeft isFirst ofFactors gave
      · intro tokens rest member gave make
        rw [readAtom] at gave
        split at gave
        · obtain ⟨⟨members, left⟩, areMembers, gave⟩ := Except.bind_eq_ok.mp gave
          have isInside := (List.tail_sublist tokens).subset
          have lists := ofAlternatives areMembers (make.subset isInside)
          dsimp only at gave
          split at gave
          · cases gave
            have isBehind := List.Subset.trans (List.tail_sublist left).subset lists.isPart
            exact ⟨List.Subset.trans isBehind isInside, isNormalWith_anyOf lists.areSome lists.areNormal⟩
          · cases gave
        · dsimp only at gave
          split at gave
          · cases gave
          · rename_i notNone
            obtain ⟨predicate, isPredicate, gave⟩ := Except.bind_eq_ok.mp gave
            cases gave
            have isFit := make _ (by simpa using notNone) (fun word isMember =>
              ⟨(List.takeWhile_sublist isWord).subset isMember, List.mem_takeWhile_imp isMember⟩)
              predicate isPredicate
            exact ⟨(List.dropWhile_sublist isWord).subset,
              ⟨.holds predicate, by simpa [predicates] using isFit⟩⟩

theorem tokensBehind_append_blank {back : Text} (blank : ∀ char ∈ back, isBlank char = true)
    (isOpen : Bool) (token text : Text) :
    tokensBehind isOpen token (text ++ back) = tokensBehind isOpen token text := by
  induction text generalizing isOpen token with
  | nil =>
      rw [List.nil_append]
      induction back generalizing token with
      | nil => rfl
      | cons char back atBack =>
          have isBlank := blank char List.mem_cons_self
          have behind := fun token => atBack (fun other isMember =>
            blank other (List.mem_cons_of_mem _ isMember)) token
          have notQuote : char ≠ Text.quoteMark := by
            rintro rfl
            cases isBlank
          have notBracket : ¬(char = '(' ∨ char = ')') := by
            rintro (rfl | rfl) <;> cases isBlank
          cases isOpen with
          | true => simp only [tokensBehind, if_neg notQuote, if_true, behind]
          | false =>
              simp only [tokensBehind, if_neg notQuote, Bool.false_eq_true, if_false]
              rw [if_neg (by simpa using notBracket), if_pos isBlank, behind]
              rfl
  | cons char text inductionHypothesis =>
      simp only [List.cons_append, tokensBehind, inductionHypothesis]

/-- Blanks around a text make no tokens. -/
theorem tokens_trim (text : Text) : tokens (Text.trim text) = tokens text := by
  obtain ⟨front, back, isText, frontBlank, backBlank⟩ := Text.trim_spec text
  have atFront : ∀ rest, tokens (front ++ rest) = tokens rest := by
    intro rest
    clear isText
    induction front with
    | nil => rfl
    | cons char front inductionHypothesis =>
        rw [List.cons_append, tokens_cons_of_blank (frontBlank char List.mem_cons_self)]
        exact inductionHypothesis fun other isMember =>
          frontBlank other (List.mem_cons_of_mem _ isMember)
  have atBack := tokensBehind_append_blank backBlank false [] (Text.trim text)
  conv_rhs => rw [isText, atFront]
  exact atBack.symm

/-- What is read of a text is in normal form, and its predicates are as the tokens of the
text make them. -/
theorem isNormalWith_of_read {text : Text} {condition : Condition}
    (make : ∀ found, tokens text = .ok found → Make Fits found)
    (isFit : Fits Predicate.otherwise) (gave : read text = .ok condition) :
    condition.IsNormalWith Fits := by
  unfold read at gave
  dsimp only at gave
  split at gave
  · cases gave
    exact ⟨.holds _, by simpa [predicates] using isFit⟩
  · obtain ⟨found, areTokens, gave⟩ := Except.bind_eq_ok.mp gave
    rw [tokens_trim] at areTokens
    obtain ⟨⟨members, rest⟩, areMembers, gave⟩ := Except.bind_eq_ok.mp gave
    obtain ⟨-, areSome, areNormal⟩ :=
      (isNormalWith_of_readTokens _).1 areMembers (make found areTokens)
    dsimp only at gave
    split at gave
    · cases gave
      exact isNormalWith_anyOf areSome areNormal
    · cases gave

end

end Condition

end Diachrony
