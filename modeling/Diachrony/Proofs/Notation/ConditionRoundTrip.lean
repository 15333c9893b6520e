import Diachrony.Proofs.Notation.ConditionTree

/-!
# Reading conditions as they are printed

The printed form of a tree has just the brackets that are needed to read the same tree again.
What the predicates are does not matter for it, as long as the printed form of each of them is
a wording: so a tree in normal form is read as it is printed, once its predicates are.
-/
namespace Diachrony

open Text (joinWith)

namespace Condition

mutual

/-- What is read of the printed form of a condition: a tree of the same shape, with what
is read of the printed forms of the predicates. -/
def reread : Condition → Except ReadingFault Condition
  | holds predicate => (Predicate.read predicate.print).map holds
  | all members => (rereadMembers members).map all
  | any members => (rereadMembers members).map any

def rereadMembers : List Condition → Except ReadingFault (List Condition)
  | [] => .ok []
  | member :: members => do return (← reread member) :: (← rereadMembers members)

end

/-- A text is read by a reader of tokens as one unit, if nothing but one of some tokens
stands behind it. Each token is worth three calls, of which some may be spared. -/
def ReadsAs {α : Type} (reader : Nat → List Text → Except ReadingFault (α × List Text))
    (spared : Nat) (ends : List Text) (text : Text) (result : Except ReadingFault α) : Prop :=
  ∃ found, found ≠ [] ∧ Tokenizes text found ∧ ∀ calls rest,
    3 * found.length ≤ calls + spared → (∀ token, rest.head? = some token → token ∈ ends) →
    reader calls (found ++ rest) = result.map (·, rest)

abbrev ReadsAsAtom : Text → Except ReadingFault Condition → Prop :=
  ReadsAs readAtom 2 ["and", "or", ")"]

abbrev ReadsAsFactors : Text → Except ReadingFault (List Condition) → Prop :=
  ReadsAs readFactors 1 ["or", ")"]

abbrev ReadsAsAlternatives : Text → Except ReadingFault (List Condition) → Prop :=
  ReadsAs readAlternatives 0 [")"]

section

variable {text right : Text}

theorem readsAsAtom_predicate {predicate : Predicate} (isWording : IsWording predicate.print) :
    ReadsAsAtom predicate.print (reread (holds predicate)) := by
  obtain ⟨words, isSome, isJoined, areUnits⟩ := isWording
  have areTokens := isJoined ▸ tokenizes_joinWith isSome areUnits
  refine ⟨words, isSome, areTokens, fun calls rest enough ends => ?_⟩
  have isPositive := List.length_pos_iff.mpr isSome
  have notWord : ∀ token, rest.head? = some token → isWord token = false := by
    have reserved : ∀ token ∈ (["and", "or", ")"] : List Text), isWord token = false := by decide
    exact fun token isFirst => reserved token (ends token isFirst)
  have notBracket : (words ++ rest).head? ≠ some "(".toList := by
    obtain ⟨first, others, rfl⟩ := List.exists_cons_of_ne_nil isSome
    intro isBracket
    have isWord := (areUnits first List.mem_cons_self).isWord
    cases isBracket
    cases isWord
  have areTaken : (words ++ rest).takeWhile isWord = words := by
    rw [List.takeWhile_append_of_pos fun word isMember => (areUnits word isMember).isWord]
    cases rest with
    | nil => exact List.append_nil words
    | cons token rest => simp [notWord token rfl]
  have areLeft : (words ++ rest).dropWhile isWord = rest := by
    rw [List.dropWhile_append_of_pos fun word isMember => (areUnits word isMember).isWord]
    cases rest with
    | nil => rfl
    | cons token rest => simp [notWord token rfl]
  cases calls with
  | zero => omega
  | succ calls =>
      rw [readAtom, if_neg notBracket]
      dsimp only
      rw [areTaken, areLeft, if_neg (by simpa using isSome),
        show joinWith " ".toList words = predicate.print from isJoined, reread]
      cases Predicate.read predicate.print <;> rfl

theorem readsAsAtom_bracket {result : Except ReadingFault (List Condition)}
    (reads : ReadsAsAlternatives text result) :
    ReadsAsAtom ('(' :: text ++ [')']) (result.map anyOf) := by
  obtain ⟨found, isSome, areTokens, areRead⟩ := reads
  refine ⟨_, List.cons_ne_nil _ _, areTokens.bracket, fun calls rest enough ends => ?_⟩
  rw [List.length_cons, List.length_append, List.length_singleton] at enough
  cases calls with
  | zero => omega
  | succ calls =>
      have inside := areRead calls (")".toList :: rest) (by omega) (by
        intro token isFirst
        cases isFirst
        exact List.mem_cons_self)
      rw [readAtom, List.cons_append, List.head?_cons, if_pos rfl, List.tail_cons,
        List.append_assoc, List.singleton_append, inside]
      cases result <;> rfl

theorem readsAsFactors_single {result : Except ReadingFault Condition}
    (reads : ReadsAsAtom text result) :
    ReadsAsFactors text (result.map fun member => [member]) := by
  obtain ⟨found, isSome, areTokens, areRead⟩ := reads
  refine ⟨found, isSome, areTokens, fun calls rest enough ends => ?_⟩
  have isPositive := List.length_pos_iff.mpr isSome
  cases calls with
  | zero => omega
  | succ calls =>
      rw [readFactors, areRead calls rest (by omega) fun token isFirst =>
        List.mem_cons_of_mem _ (ends token isFirst)]
      cases result with
      | error fault => rfl
      | ok member =>
          cases rest with
          | nil => rfl
          | cons token rest =>
              have notAnd : token ≠ "and" := by
                have apart : ∀ token ∈ (["or", ")"] : List Text), token ≠ "and" := by decide
                exact apart token (ends token rfl)
              exact if_neg notAnd

theorem readsAsFactors_cons {result : Except ReadingFault Condition}
    {others : Except ReadingFault (List Condition)} (reads : ReadsAsAtom text result)
    (readsOthers : ReadsAsFactors right others) :
    ReadsAsFactors (text ++ " and " ++ right) (do return (← result) :: (← others)) := by
  obtain ⟨found, isSome, areTokens, areRead⟩ := reads
  obtain ⟨behind, behindSome, behindTokens, behindRead⟩ := readsOthers
  have isWhole : Tokenizes (text ++ " and ".toList ++ right)
      (found ++ (["and".toList] ++ behind)) := by
    have isAnd : Tokenizes "and" ["and".toList] := .of_word (by decide) (by decide)
    rw [List.append_assoc]
    exact areTokens.append (isAnd.append behindTokens)
  refine ⟨_, by simp, isWhole, fun calls rest enough ends => ?_⟩
  have isPositive := List.length_pos_iff.mpr isSome
  rw [List.length_append, List.length_append, List.length_singleton] at enough
  cases calls with
  | zero => omega
  | succ calls =>
      rw [readFactors, List.append_assoc, List.append_assoc,
        areRead calls _ (by omega) (by
          intro token isFirst
          cases isFirst
          exact List.mem_cons_self)]
      have later := behindRead calls rest (by omega) ends
      cases result with
      | error fault => rfl
      | ok member =>
          have isRun : (readFactors calls (behind ++ rest) >>= fun found =>
              pure (member :: found.1, found.2)) = _ := congrArg (· >>= _) later
          refine isRun.trans ?_
          cases others <;> rfl

theorem readsAsAlternatives_single {result : Except ReadingFault (List Condition)}
    (reads : ReadsAsFactors text result) :
    ReadsAsAlternatives text (result.map fun members => [allOf members]) := by
  obtain ⟨found, isSome, areTokens, areRead⟩ := reads
  refine ⟨found, isSome, areTokens, fun calls rest enough ends => ?_⟩
  have isPositive := List.length_pos_iff.mpr isSome
  cases calls with
  | zero => omega
  | succ calls =>
      rw [readAlternatives, areRead calls rest (by omega) fun token isFirst =>
        List.mem_cons_of_mem _ (ends token isFirst)]
      cases result with
      | error fault => rfl
      | ok members =>
          cases rest with
          | nil => rfl
          | cons token rest =>
              have notOr : token ≠ "or" := by
                rw [List.mem_singleton.mp (ends token rfl)]
                decide
              exact if_neg notOr

theorem readsAsAlternatives_cons {result others : Except ReadingFault (List Condition)}
    (reads : ReadsAsFactors text result) (readsOthers : ReadsAsAlternatives right others) :
    ReadsAsAlternatives (text ++ " or " ++ right)
      (do return (← result.map allOf) :: (← others)) := by
  obtain ⟨found, isSome, areTokens, areRead⟩ := reads
  obtain ⟨behind, behindSome, behindTokens, behindRead⟩ := readsOthers
  have isWhole : Tokenizes (text ++ " or ".toList ++ right)
      (found ++ (["or".toList] ++ behind)) := by
    have isOr : Tokenizes "or" ["or".toList] := .of_word (by decide) (by decide)
    rw [List.append_assoc]
    exact areTokens.append (isOr.append behindTokens)
  refine ⟨_, by simp, isWhole, fun calls rest enough ends => ?_⟩
  have isPositive := List.length_pos_iff.mpr isSome
  rw [List.length_append, List.length_append, List.length_singleton] at enough
  cases calls with
  | zero => omega
  | succ calls =>
      rw [readAlternatives, List.append_assoc, List.append_assoc,
        areRead calls _ (by omega) (by
          intro token isFirst
          cases isFirst
          exact List.mem_cons_self)]
      have later := behindRead calls rest (by omega) ends
      cases result with
      | error fault => rfl
      | ok members =>
          have isRun : (readAlternatives calls (behind ++ rest) >>= fun found =>
              pure (allOf members :: found.1, found.2)) = _ := congrArg (· >>= _) later
          refine isRun.trans ?_
          cases others <;> rfl

end

theorem rereadMembers_single (member : Condition) :
    rereadMembers [member] = (reread member).map fun found => [found] := by
  rw [rereadMembers, rereadMembers]
  cases reread member <;> rfl

theorem rereadMembers_eq_ok {members found : List Condition}
    (gave : rereadMembers members = .ok found) :
    found.length = members.length ∧
      ∀ again ∈ found, ∃ member ∈ members, reread member = .ok again := by
  induction members generalizing found with
  | nil =>
      cases gave
      exact ⟨rfl, fun again isMember => nomatch isMember⟩
  | cons member members inductionHypothesis =>
      rw [rereadMembers] at gave
      obtain ⟨again, isAgain, gave⟩ := Except.bind_eq_ok.mp gave
      obtain ⟨others, areOthers, gave⟩ := Except.bind_eq_ok.mp gave
      cases gave
      obtain ⟨sameLength, areRead⟩ := inductionHypothesis areOthers
      refine ⟨congrArg (· + 1) sameLength, fun other isMember => ?_⟩
      rcases List.mem_cons.mp isMember with rfl | isMember
      · exact ⟨member, List.mem_cons_self, isAgain⟩
      · obtain ⟨origin, isOrigin, isRead⟩ := areRead other isMember
        exact ⟨origin, List.mem_cons_of_mem _ isOrigin, isRead⟩

/-- What is read again has a shape that is merged with its neighbours only if the
condition had such a shape. -/
theorem ne_all_of_reread {condition again : Condition} (apart : ∀ inner, condition ≠ all inner)
    (gave : reread condition = .ok again) : ∀ inner, again ≠ all inner := by
  cases condition with
  | holds =>
      obtain ⟨predicate, -, rfl⟩ := Except.map_eq_ok.mp gave
      simp
  | all members => exact absurd rfl (apart members)
  | any =>
      obtain ⟨members, -, rfl⟩ := Except.map_eq_ok.mp gave
      simp

theorem ne_any_of_reread {condition again : Condition} (apart : ∀ inner, condition ≠ any inner)
    (gave : reread condition = .ok again) : ∀ inner, again ≠ any inner := by
  cases condition with
  | holds =>
      obtain ⟨predicate, -, rfl⟩ := Except.map_eq_ok.mp gave
      simp
  | all =>
      obtain ⟨members, -, rfl⟩ := Except.map_eq_ok.mp gave
      simp
  | any members => exact absurd rfl (apart members)

theorem flatMap_eq_self {parts : Condition → List Condition} {members : List Condition}
    (areWhole : ∀ member ∈ members, parts member = [member]) : members.flatMap parts = members := by
  rw [List.flatMap_congr areWhole, List.flatMap_singleton']

theorem allOf_of_apart {members : List Condition} (areMany : 2 ≤ members.length)
    (apart : ∀ member ∈ members, ∀ inner, member ≠ all inner) : allOf members = all members := by
  unfold allOf
  split
  · exact absurd areMany (by simp)
  · rw [flatMap_eq_self fun member isMember => factors_eq_self_iff.mpr (apart member isMember)]

theorem anyOf_of_apart {members : List Condition} (areMany : 2 ≤ members.length)
    (apart : ∀ member ∈ members, ∀ inner, member ≠ any inner) : anyOf members = any members := by
  unfold anyOf
  split
  · exact absurd areMany (by simp)
  · rw [flatMap_eq_self fun member isMember => alternatives_eq_self_iff.mpr (apart member isMember)]

/-- Factors that are read again make the condition that is read again. -/
theorem map_allOf_reread {condition : Condition} (normal : condition.IsNormal) :
    (rereadMembers condition.factors).map allOf = reread condition := by
  cases normal with
  | holds =>
      rw [factors_holds, rereadMembers_single]
      cases reread _ <;> rfl
  | any =>
      rw [factors_any, rereadMembers_single]
      cases reread _ <;> rfl
  | @all members areMany areNormal apart =>
      rw [factors_all, reread]
      cases areFound : rereadMembers members with
      | error fault => rfl
      | ok found =>
          obtain ⟨sameLength, again⟩ := rereadMembers_eq_ok areFound
          refine congrArg Except.ok (allOf_of_apart (sameLength ▸ areMany) fun other isMember => ?_)
          obtain ⟨member, isOrigin, isAgain⟩ := again other isMember
          exact ne_all_of_reread (apart member isOrigin) isAgain

/-- Alternatives that are read again make the condition that is read again. -/
theorem map_anyOf_reread {condition : Condition} (normal : condition.IsNormal) :
    (rereadMembers condition.alternatives).map anyOf = reread condition := by
  cases normal with
  | holds =>
      rw [alternatives_holds, rereadMembers_single]
      cases reread _ <;> rfl
  | all =>
      rw [alternatives_all, rereadMembers_single]
      cases reread _ <;> rfl
  | @any members areMany areNormal apart =>
      rw [alternatives_any, reread]
      cases areFound : rereadMembers members with
      | error fault => rfl
      | ok found =>
          obtain ⟨sameLength, again⟩ := rereadMembers_eq_ok areFound
          refine congrArg Except.ok (anyOf_of_apart (sameLength ▸ areMany) fun other isMember => ?_)
          obtain ⟨member, isOrigin, isAgain⟩ := again other isMember
          exact ne_any_of_reread (apart member isOrigin) isAgain

def printFactor : Condition → Text
  | any members => '(' :: print (any members) ++ [')']
  | member => print member

theorem printFactors_eq (members : List Condition) :
    printFactors members = members.map printFactor := by
  induction members with
  | nil => rw [printFactors, List.map_nil]
  | cons member members inductionHypothesis =>
      cases member <;> simp only [printFactors, printFactor, List.map_cons, inductionHypothesis]

theorem printAlternatives_eq (members : List Condition) :
    printAlternatives members = members.map print := by
  induction members with
  | nil => rw [printAlternatives, List.map_nil]
  | cons member members inductionHypothesis =>
      rw [printAlternatives, inductionHypothesis, List.map_cons]

theorem readsAsFactors_join {members : List Condition} (areSome : members ≠ [])
    (areRead : ∀ member ∈ members, ReadsAsAtom (printFactor member) (reread member)) :
    ReadsAsFactors (joinWith " and " (members.map printFactor)) (rereadMembers members) := by
  induction members with
  | nil => exact absurd rfl areSome
  | cons member members inductionHypothesis =>
      have isRead := areRead member List.mem_cons_self
      cases members with
      | nil =>
          rw [rereadMembers_single]
          exact readsAsFactors_single isRead
      | cons next members =>
          rw [rereadMembers, List.map_cons, Text.joinWith_cons _ _ (by simp)]
          exact readsAsFactors_cons isRead (inductionHypothesis (List.cons_ne_nil _ _)
            fun other isMember => areRead other (List.mem_cons_of_mem _ isMember))

theorem readsAsAlternatives_join (members : List Condition) (areSome : members ≠ [])
    (areNormal : ∀ member ∈ members, member.IsNormal)
    (areRead : ∀ member ∈ members, ReadsAsFactors member.print (rereadMembers member.factors)) :
    ReadsAsAlternatives (joinWith " or " (members.map print)) (rereadMembers members) := by
  induction members with
  | nil => exact absurd rfl areSome
  | cons member members inductionHypothesis =>
      have isRead := areRead member List.mem_cons_self
      have isWhole := map_allOf_reread (areNormal member List.mem_cons_self)
      cases members with
      | nil =>
          have alone := readsAsAlternatives_single isRead
          rw [rereadMembers_single, ← isWhole]
          cases areFound : rereadMembers member.factors <;> rw [areFound] at alone <;> exact alone
      | cons next members =>
          rw [rereadMembers, List.map_cons, Text.joinWith_cons _ _ (by simp), ← isWhole]
          exact readsAsAlternatives_cons isRead (inductionHypothesis (List.cons_ne_nil _ _)
            (fun other isMember => areNormal other (List.mem_cons_of_mem _ isMember))
            fun other isMember => areRead other (List.mem_cons_of_mem _ isMember))

/-- The printed form of a condition is read as the condition that is read again. -/
theorem readsAs_print {condition : Condition} (normal : condition.IsNormal)
    (areWordings : ∀ predicate ∈ condition.predicates, IsWording predicate.print) :
    ((∀ inner, condition ≠ all inner) →
      ReadsAsAtom (printFactor condition) (reread condition)) ∧
    ((∀ inner, condition ≠ any inner) →
      ReadsAsFactors condition.print (rereadMembers condition.factors)) ∧
    ReadsAsAlternatives condition.print (rereadMembers condition.alternatives) := by
  induction normal with
  | holds predicate =>
      have asAtom : ReadsAsAtom (printFactor (holds predicate)) (reread (holds predicate)) := by
        rw [printFactor, print]
        · exact readsAsAtom_predicate (areWordings predicate (by simp [predicates]))
        · simp
      have asFactors : ReadsAsFactors (holds predicate).print (rereadMembers [holds predicate]) :=
        rereadMembers_single _ ▸ readsAsFactors_single asAtom
      have asAlternatives := readsAsAlternatives_join [holds predicate] (by simp)
        (by simpa using .holds predicate) (by simpa using asFactors)
      exact ⟨fun _ => asAtom, fun _ => asFactors, asAlternatives⟩
  | @all members areMany areNormal apart inductionHypothesis =>
      have areSome : members ≠ [] := List.ne_nil_of_length_pos (by omega)
      have ofMember := fun member isMember => inductionHypothesis member isMember
        fun predicate isPredicate =>
          areWordings predicate (mem_memberPredicates.mpr ⟨member, isMember, isPredicate⟩)
      have asFactors : ReadsAsFactors (all members).print (rereadMembers members) := by
        rw [print, printFactors_eq]
        exact readsAsFactors_join areSome fun member isMember =>
          (ofMember member isMember).1 (apart member isMember)
      have asAlternatives := readsAsAlternatives_join [all members] (by simp)
        (by simpa using .all areMany areNormal apart) (by simpa using asFactors)
      exact ⟨fun isApart => absurd rfl (isApart members), fun _ => asFactors, asAlternatives⟩
  | @any members areMany areNormal apart inductionHypothesis =>
      have areSome : members ≠ [] := List.ne_nil_of_length_pos (by omega)
      have ofMember := fun member isMember => inductionHypothesis member isMember
        fun predicate isPredicate =>
          areWordings predicate (mem_memberPredicates.mpr ⟨member, isMember, isPredicate⟩)
      have isAny := map_anyOf_reread (.any areMany areNormal apart)
      have asAlternatives : ReadsAsAlternatives (any members).print (rereadMembers members) := by
        rw [print, printAlternatives_eq]
        exact readsAsAlternatives_join members areSome areNormal fun member isMember =>
          (ofMember member isMember).2.1 (apart member isMember)
      refine ⟨fun _ => ?_, fun isApart => absurd rfl (isApart members), asAlternatives⟩
      rw [printFactor, ← isAny]
      exact readsAsAtom_bracket asAlternatives

theorem ofTokens_otherwise :
    ofTokens ["otherwise".toList] = .ok (holds Predicate.otherwise) := by
  have isAtom : ∀ calls, readAtom (calls + 1) ["otherwise".toList] =
      .ok (holds Predicate.otherwise, []) := by
    intro calls
    rw [readAtom, if_neg (by decide)]
    rfl
  rw [ofTokens, readAlternatives, readFactors, isAtom]
  rfl

/-- A text that is read as a row of alternatives is read as one condition, whether or not it
says "otherwise" alone. -/
theorem read_of_readsAs {text : Text} {result : Except ReadingFault (List Condition)}
    (reads : ReadsAsAlternatives text result) : read text = result.map anyOf := by
  obtain ⟨found, isSome, areTokens, areRead⟩ := reads
  have isWhole : tokens text = .ok found := by
    have whole := areTokens [] endsWord_nil
    rw [List.append_nil] at whole
    simpa [Except.map, tokens, tokensBehind, closeToken] using whole
  have ofFound : ofTokens found = result.map anyOf := by
    have gave := areRead (3 * found.length + 3) [] (by omega) (by simp)
    rw [List.append_nil] at gave
    rw [ofTokens, gave]
    cases result <;> rfl
  have isTrimmed := (tokens_trim text).trans isWhole
  unfold read
  dsimp only
  split
  · rename_i isOtherwise
    rw [Bool.or_eq_true, List.isEmpty_iff, decide_eq_true_eq] at isOtherwise
    rcases isOtherwise with isNone | isOtherwise
    · rw [isNone] at isTrimmed
      cases isTrimmed
      exact absurd rfl isSome
    · rw [isOtherwise, show tokens "otherwise" = .ok ["otherwise".toList] from rfl] at isTrimmed
      cases isTrimmed
      exact ofTokens_otherwise.symm.trans ofFound
  · rw [isTrimmed]
    exact ofFound

/-- The printed form of a condition in normal form is read as the same tree, of what is
read of the printed forms of its predicates. -/
theorem read_print {condition : Condition} (normal : condition.IsNormal)
    (areWordings : ∀ predicate ∈ condition.predicates, IsWording predicate.print) :
    read condition.print = reread condition := by
  rw [read_of_readsAs (readsAs_print normal areWordings).2.2, map_anyOf_reread normal]

mutual

theorem reread_eq_ok_iff : ∀ condition : Condition,
    reread condition = .ok condition ↔
      ∀ predicate ∈ condition.predicates, Predicate.read predicate.print = .ok predicate
  | holds predicate => by
      rw [reread, predicates, Except.map_eq_ok]
      simp
  | all members => by
      rw [reread, predicates, Except.map_eq_ok, ← rereadMembers_eq_ok_iff members]
      simp
  | any members => by
      rw [reread, predicates, Except.map_eq_ok, ← rereadMembers_eq_ok_iff members]
      simp

theorem rereadMembers_eq_ok_iff : ∀ members : List Condition,
    rereadMembers members = .ok members ↔
      ∀ predicate ∈ memberPredicates members, Predicate.read predicate.print = .ok predicate
  | [] => by simp [rereadMembers, memberPredicates]
  | member :: members => by
      rw [rereadMembers, memberPredicates, List.forall_mem_append, ← reread_eq_ok_iff member,
        ← rereadMembers_eq_ok_iff members, Except.bind_eq_ok]
      simp only [Except.bind_eq_ok]
      constructor
      · rintro ⟨again, isAgain, others, areOthers, ⟨⟩⟩
        exact ⟨isAgain, areOthers⟩
      · rintro ⟨isAgain, areOthers⟩
        exact ⟨member, isAgain, members, areOthers, rfl⟩

end

/-- Whatever text is accepted, the tree that is read of it is in normal form; and a tree in
normal form is what is read of its printed form, if each of its predicates is what is read of
its own printed form and that is a wording. -/
theorem normal_trees_round_trip :
    (∀ (text : Text) (condition : Condition), read text = .ok condition → condition.IsNormal) ∧
    ∀ condition : Condition, condition.IsNormal →
      (∀ predicate ∈ condition.predicates,
        Predicate.read predicate.print = .ok predicate ∧ IsWording predicate.print) →
      read condition.print = .ok condition := by
  constructor
  · intro text condition gave
    have makesAny : ∀ found, tokens text = .ok found → Make (fun _ => True) found := by
      intro found areTokens words isSome areWords predicate isRead
      trivial
    exact (isNormalWith_of_read makesAny trivial gave).normal
  · intro condition normal leaves
    rw [read_print normal fun predicate isMember => (leaves predicate isMember).2,
      reread_eq_ok_iff]
    exact fun predicate isMember => (leaves predicate isMember).1

/-- A tree with an "all" in an "any" in an "all", of which a predicate quotes brackets and a
connective. -/
def nestedTree : Condition :=
  let noun : Predicate := { test := .wordClass, value := some "noun" }
  let notVerb : Predicate := { test := .wordClass, value := some "verb", negated := true }
  let ending : Predicate :=
    { test := .wordEdge .ending, pattern := some { literal := some "a) and (b" } }
  all [any [holds noun, all [holds notVerb, holds ending]], holds ending]

theorem normal_trees_round_trip_nestedTree :
    nestedTree.print = ("(word is noun or word is not verb and word ends with 'a) and (b')" ++
      " and word ends with 'a) and (b'" : Text) ∧
    read nestedTree.print = .ok nestedTree ∧ nestedTree.IsNormal := by
  have normal : nestedTree.IsNormal := by
    refine .all (by decide) ?_ (by simp)
    refine List.forall_mem_cons.mpr ⟨.any (by decide) ?_ (by simp), by simp [IsNormal.holds]⟩
    refine List.forall_mem_cons.mpr ⟨.holds _, List.forall_mem_singleton.mpr ?_⟩
    exact .all (by decide) (by simp [IsNormal.holds]) (by simp)
  have leaves : ∀ predicate ∈ nestedTree.predicates,
      Predicate.read predicate.print = .ok predicate ∧ IsWording predicate.print := by
    have noun : IsWording "word is noun" := ⟨["word", "is", "noun"], by decide⟩
    have notVerb : IsWording "word is not verb" := ⟨["word", "is", "not", "verb"], by decide⟩
    have ending : IsWording "word ends with 'a) and (b'" :=
      ⟨["word", "ends", "with", "'a) and (b'"], by decide⟩
    refine List.forall_mem_cons.mpr ⟨⟨by decide +kernel, noun⟩, ?_⟩
    refine List.forall_mem_cons.mpr ⟨⟨by decide +kernel, notVerb⟩, ?_⟩
    exact List.forall_mem_cons.mpr ⟨⟨by decide +kernel, ending⟩,
      List.forall_mem_singleton.mpr ⟨by decide +kernel, ending⟩⟩
  have reads := normal_trees_round_trip.2 nestedTree normal leaves
  exact ⟨by decide +kernel, reads, normal_trees_round_trip.1 nestedTree.print nestedTree reads⟩

end Condition

end Diachrony
