import Dift.Foundation.Loop

/-!
Owns the loop that looks for the first occurrence of a word of two different
letters, replaces it, and looks again from the beginning. A replacement that
contains the word keeps such a loop going. Otherwise letters at the seams may
join to new occurrences. They only do so without end when the replacement begins
with two letters that may end the word and ends with two that may begin it, and
some occurrence does not stand apart from such letters.
-/

namespace Dift.Foundation.Rewriting

section Occurrences

variable {α : Type*} {a b : α} {replacement : List α}

/-! ### Occurrences -/

/-- An occurrence lies in the first part, or at the seam, or in the second. -/
theorem occurrence_append {first second other behind : List α}
    (same : first ++ second = other ++ a :: b :: behind) :
    (∃ middle, first = other ++ a :: b :: middle) ∨
      (first = other ++ [a] ∧ second = b :: behind) ∨
      ∃ middle, second = middle ++ a :: b :: behind ∧ other = first ++ middle := by
  rcases List.append_eq_append_iff.mp same with ⟨more, isOther, tail⟩ | ⟨more, isFirst, tail⟩
  · exact Or.inr (Or.inr ⟨more, tail, isOther⟩)
  · match more with
    | [] =>
        rw [List.append_nil] at isFirst
        exact Or.inr (Or.inr ⟨[], tail.symm, by rw [isFirst, List.append_nil]⟩)
    | [c] =>
        rw [List.cons_append, List.cons.injEq] at tail
        rcases tail with ⟨rfl, isSecond⟩
        exact Or.inr (Or.inl ⟨isFirst, isSecond.symm⟩)
    | c :: d :: middle =>
        rw [List.cons_append, List.cons_append, List.cons.injEq, List.cons.injEq] at tail
        rcases tail with ⟨rfl, rfl, -⟩
        exact Or.inl ⟨middle, isFirst⟩

/-- The first occurrence is replaced. -/
structure Replaces (a b : α) (replacement text next left right : List α) : Prop where
  before : text = left ++ a :: b :: right
  after : next = left ++ (replacement ++ right)
  first : ∀ other behind, text = other ++ a :: b :: behind → left.length ≤ other.length

/-- Occurrences are later than the first, or the first. -/
theorem Replaces.later {text next left right other behind : List α} (differ : a ≠ b)
    (replaces : Replaces a b replacement text next left right)
    (same : text = other ++ a :: b :: behind) :
    (other = left ∧ behind = right) ∨
      ∃ middle, right = middle ++ a :: b :: behind ∧ other = left ++ a :: b :: middle := by
  have first := replaces.first other behind same
  rw [replaces.before] at same
  rcases occurrence_append same with ⟨middle, isLeft⟩ | ⟨isLeft, -⟩ | ⟨middle, tail, isOther⟩
  · rw [isLeft, List.length_append, List.length_cons] at first
    omega
  · rw [isLeft, List.length_append, List.length_singleton] at first
    omega
  · match middle with
    | [] =>
        rw [List.nil_append, List.cons.injEq, List.cons.injEq] at tail
        rw [List.append_nil] at isOther
        exact Or.inl ⟨isOther, tail.2.2.symm⟩
    | [c] =>
        rw [List.cons_append, List.nil_append, List.cons.injEq, List.cons.injEq] at tail
        exact absurd tail.2.1.symm differ
    | c :: d :: middle =>
        rw [List.cons_append, List.cons_append, List.cons.injEq, List.cons.injEq] at tail
        rcases tail with ⟨rfl, rfl, isRight⟩
        exact Or.inr ⟨middle, isRight, isOther⟩

/-- No occurrence stands behind a letter that may begin one, or in front of one
that may end it, or in front of another. -/
def Apart (a b : α) (text : List α) : Prop :=
  ∀ left right, text = left ++ a :: b :: right →
    left.getLast? ≠ some a ∧ right.head? ≠ some b ∧ ¬ [a, b] <+: right

/-- A replacement that begins and ends badly keeps an occurrence that does not
stand apart. -/
theorem Replaces.not_apart {text next left right : List α} (differ : a ≠ b)
    (replaces : Replaces a b replacement text next left right) (first : [b, b] <+: replacement)
    (last : [a, a] <:+ replacement) (crowded : ¬ Apart a b text) : ¬ Apart a b next := by
  intro apart
  apply crowded
  rcases first with ⟨inner, isFirst⟩
  rcases last with ⟨front, isLast⟩
  have isNext := replaces.after
  intro other behind same
  rcases replaces.later differ same with ⟨rfl, rfl⟩ | ⟨middle, rfl, rfl⟩
  · refine ⟨fun ends => ?_, fun begins => ?_, ?_⟩
    · rcases List.getLast?_eq_some_iff.mp ends with ⟨before, rfl⟩
      have bad := apart before (b :: (inner ++ behind)) (by rw [isNext, ← isFirst]; simp)
      exact bad.2.1 rfl
    · rcases List.head?_eq_some_iff.mp begins with ⟨rest, rfl⟩
      have bad := apart (other ++ front ++ [a]) rest (by rw [isNext, ← isLast]; simp)
      exact bad.1 (by simp)
    · intro begins
      obtain ⟨rest, rfl⟩ := begins
      have bad := apart (other ++ replacement) rest (by rw [isNext]; simp)
      exact bad.1 (by rw [← isLast]; simp)
  · have good := apart (left ++ (replacement ++ middle)) behind (by rw [isNext]; simp)
    refine ⟨fun ends => good.1 ?_, good.2⟩
    cases reversed : middle.getLast? with
    | none =>
        rw [List.getLast?_eq_none_iff.mp reversed] at ends
        exact absurd (by simpa using ends) differ.symm
    | some c =>
        have isEnd : c = a := by simpa [List.getLast?_cons, reversed] using ends
        rw [List.getLast?_append, List.getLast?_append, reversed, isEnd]
        rfl

/-- Occurrences that stand apart do so after a replacement, and are those behind
it. -/
theorem Replaces.apart {text next left right : List α}
    (replaces : Replaces a b replacement text next left right) (free : ¬ [a, b] <:+: replacement)
    (apart : Apart a b text) {other behind : List α} (same : next = other ++ a :: b :: behind) :
    ∃ middle, right = middle ++ a :: b :: behind ∧ other = left ++ (replacement ++ middle) := by
  rcases apart left right replaces.before with ⟨before, after, next'⟩
  have isNext := replaces.after
  rw [same] at isNext
  rcases occurrence_append isNext.symm with ⟨middle, isLeft⟩ | ⟨isLeft, -⟩ | ⟨more, tail, isOther⟩
  · have first := replaces.first other (middle ++ a :: b :: right) (by
      rw [replaces.before, isLeft]
      simp)
    rw [isLeft, List.length_append, List.length_cons] at first
    omega
  · rw [isLeft] at before
    exact absurd (by simp) before
  · rcases occurrence_append tail with ⟨inner, inside⟩ | ⟨-, isRight⟩ | ⟨middle, isRight, isMore⟩
    · exact absurd ⟨more, inner, by rw [inside]; simp⟩ free
    · rw [isRight] at after
      exact absurd rfl after
    · exact ⟨middle, isRight, by rw [isOther, isMore]⟩

theorem Replaces.apart_next {text next left right : List α}
    (replaces : Replaces a b replacement text next left right) (free : ¬ [a, b] <:+: replacement)
    (apart : Apart a b text) : Apart a b next := by
  intro other behind same
  rcases replaces.apart free apart same with ⟨middle, isRight, isOther⟩
  have earlier := apart (left ++ a :: b :: middle) behind (by
    rw [replaces.before, isRight]
    simp)
  refine ⟨fun ends => ?_, earlier.2⟩
  cases reversed : middle.getLast? with
  | none =>
      rw [List.getLast?_eq_none_iff.mp reversed, List.nil_append] at isRight
      exact (apart left right replaces.before).2.2 ⟨behind, isRight.symm⟩
  | some c =>
      have isEnd : c = a := by simpa [isOther, reversed] using ends
      apply earlier.1
      rw [List.getLast?_append, List.getLast?_cons, List.getLast?_cons, reversed, isEnd]
      rfl

/-- A replacement that contains the word nowhere and does not end with two
letters that may begin it. -/
structure Light (a b : α) (word : List α) : Prop where
  free : ¬ [a, b] <:+: word
  last : ¬ [a, a] <:+ word

theorem Light.tail {c : α} {rest : List α} (light : Light a b (c :: rest)) : Light a b rest where
  free inside := light.free (inside.trans (List.suffix_cons c rest).isInfix)
  last ends := light.last (ends.trans (List.suffix_cons c rest))

end Occurrences

variable {α : Type*} [DecidableEq α]

/-! ### Looking for a word -/

/-- The position of the first occurrence. -/
def find (word : List α) : List α → Option Nat
  | [] => if word = [] then some 0 else none
  | c :: rest => if word <+: c :: rest then some 0 else (find word rest).map (· + 1)

theorem find_eq_none {word text : List α} (nowhere : find word text = none) :
    ¬ word <:+: text := by
  induction text with
  | nil =>
      rw [find] at nowhere
      split_ifs at nowhere with empty
      rwa [List.infix_nil]
  | cons c rest inductionHypothesis =>
      rw [find] at nowhere
      split_ifs at nowhere with here
      rw [Option.map_eq_none_iff] at nowhere
      rw [List.infix_cons_iff]
      exact not_or.mpr ⟨here, inductionHypothesis nowhere⟩

/-- The first occurrence is one, and no other comes before it. -/
theorem find_eq_some {word text : List α} {position : Nat}
    (found : find word text = some position) :
    ∃ left right, text = left ++ (word ++ right) ∧ left.length = position ∧
      ∀ other behind, text = other ++ (word ++ behind) → left.length ≤ other.length := by
  induction text generalizing position with
  | nil =>
      rw [find] at found
      split_ifs at found with empty
      cases found
      exact ⟨[], [], by simp [empty], rfl, fun _ _ _ => Nat.zero_le _⟩
  | cons c rest inductionHypothesis =>
      rw [find] at found
      split_ifs at found with here
      · cases found
        rcases here with ⟨right, whole⟩
        exact ⟨[], right, whole.symm, rfl, fun _ _ _ => Nat.zero_le _⟩
      · rcases Option.map_eq_some_iff.mp found with ⟨later, isLater, rfl⟩
        rcases inductionHypothesis isLater with ⟨left, right, rfl, counted, first⟩
        refine ⟨c :: left, right, rfl, congrArg (· + 1) counted, fun other behind same => ?_⟩
        cases other with
        | nil => exact absurd ⟨behind, same.symm⟩ here
        | cons d other =>
            exact Nat.succ_le_succ (first other behind (List.cons.inj same).2)

/-! ### The loop -/

variable (a b : α) (replacement : List α)

/-- One round. -/
def round (text : List α) : Round (List α) (List α) :=
  match find [a, b] text with
  | none => .leave text
  | some position => .again (text.take position ++ replacement ++ text.drop (position + 2))

variable {a b replacement}

theorem replaces_of_round {text next : List α} (step : round a b replacement text = .again next) :
    ∃ left right, Replaces a b replacement text next left right ∧
      find [a, b] text = some left.length := by
  rw [round] at step
  split at step
  case h_1 => cases step
  case h_2 position found =>
    cases step
    rcases find_eq_some found with ⟨left, right, rfl, rfl, first⟩
    refine ⟨left, right, ⟨rfl, ?_, first⟩, found⟩
    rw [List.take_left, List.drop_length_add_append, List.append_assoc]
    rfl

theorem not_infix_of_leave {text result : List α}
    (step : round a b replacement text = .leave result) : ¬ [a, b] <:+: text := by
  rw [round] at step
  split at step
  case h_1 nowhere => exact find_eq_none nowhere
  case h_2 => cases step

/-! ### Termination by a weight -/

/-- What letters ahead weigh: those that may end the word count, and each that
may begin it multiplies what follows, since it may be replaced across it. -/
def weight (a b : α) (factor : Nat) : List α → Nat
  | [] => 0
  | c :: rest =>
      if c = b then weight a b factor rest + 1
      else if c = a then factor * weight a b factor rest
      else 0

/-- The weights behind all letters that may begin the word. -/
def total (a b : α) (factor : Nat) : List α → Nat
  | [] => 0
  | c :: rest => (if c = a then weight a b factor rest else 0) + total a b factor rest

/-- The letters at the beginning that may end the word. -/
def leading (b : α) : List α → Nat
  | [] => 0
  | c :: rest => if c = b then leading b rest + 1 else 0

/-- Behind a letter that may begin the word there are only such letters or no
weight, when the word does not occur. -/
theorem weight_behind (differ : a ≠ b) (factor : Nat) {word : List α}
    (free : ¬ [a, b] <:+: a :: word) :
    word = List.replicate word.length a ∨ ∀ right, weight a b factor (word ++ right) = 0 := by
  induction word with
  | nil => exact Or.inl rfl
  | cons c rest inductionHypothesis =>
      by_cases isEnd : c = b
      · rw [isEnd] at free
        exact absurd (List.prefix_append [a, b] rest).isInfix free
      · by_cases isBegin : c = a
        · rw [isBegin] at free ⊢
          have less : ¬ [a, b] <:+: a :: rest := fun inside =>
            free (inside.trans (List.suffix_cons a _).isInfix)
          rcases inductionHypothesis less with all | none
          · refine Or.inl ?_
            rw [List.length_cons, List.replicate_succ, ← all]
          · apply Or.inr
            intro right
            rw [List.cons_append, weight, if_neg differ, if_pos rfl, none, Nat.mul_zero]
        · apply Or.inr
          intro right
          rw [List.cons_append, weight, if_neg isEnd, if_neg isBegin]

/-- A letter that may begin the word is the last one or has no weight behind it. -/
theorem Light.behind (differ : a ≠ b) {rest : List α} (light : Light a b (a :: rest))
    (factor : Nat) : rest = [] ∨ ∀ right, weight a b factor (rest ++ right) = 0 := by
  rcases weight_behind differ factor light.free with all | none
  · cases size : rest.length with
    | zero => exact Or.inl (List.length_eq_zero_iff.mp size)
    | succ less =>
        have whole : a :: rest = List.replicate less a ++ [a, a] := by
          rw [all, size, ← List.replicate_succ, List.replicate_succ', List.replicate_succ',
            List.append_assoc]
          rfl
        refine absurd ?_ light.last
        rw [whole]
        exact List.suffix_append _ _
  · exact Or.inr none

theorem weight_append_le (differ : a ≠ b) {factor : Nat} (positive : 0 < factor)
    {word : List α} (light : Light a b word) (right : List α) :
    weight a b factor (word ++ right) ≤ leading b word + factor * weight a b factor right := by
  induction word with
  | nil => simpa [leading] using Nat.le_mul_of_pos_left _ positive
  | cons c rest inductionHypothesis =>
      rw [List.cons_append, weight, leading]
      split_ifs with isEnd isBegin
      · have later := inductionHypothesis light.tail
        omega
      · rw [isBegin] at light
        rcases light.behind differ factor with rfl | none
        · simp
        · simp [none]
      · exact Nat.zero_le _

theorem total_append_le (differ : a ≠ b) (factor : Nat) {word : List α} (light : Light a b word)
    (right : List α) :
    total a b factor (word ++ right) ≤ weight a b factor right + total a b factor right := by
  induction word with
  | nil => exact Nat.le_add_left _ _
  | cons c rest inductionHypothesis =>
      have later := inductionHypothesis light.tail
      rw [List.cons_append, total]
      split_ifs with isBegin
      · rw [isBegin] at light
        rcases light.behind differ factor with rfl | none
        · exact le_rfl
        · rw [none, Nat.zero_add]
          exact later
      · rwa [Nat.zero_add]

theorem weight_mono (factor : Nat) (left : List α) {first second : List α}
    (le : weight a b factor first ≤ weight a b factor second) :
    weight a b factor (left ++ first) ≤ weight a b factor (left ++ second) := by
  induction left with
  | nil => exact le
  | cons c rest inductionHypothesis =>
      simp only [List.cons_append, weight]
      split_ifs
      · exact Nat.succ_le_succ inductionHypothesis
      · exact Nat.mul_le_mul_left factor inductionHypothesis
      · exact le_rfl

/-- Replacing an occurrence by a light word makes the weights less. -/
theorem total_lt (differ : a ≠ b) {word : List α} (light : Light a b word) (left right : List α) :
    total a b (leading b word + 1) (left ++ (word ++ right)) <
      total a b (leading b word + 1) (left ++ a :: b :: right) := by
  induction left with
  | nil =>
      have bound := total_append_le differ (leading b word + 1) light right
      simp only [List.nil_append, total, weight, if_true, if_neg differ.symm]
      omega
  | cons c rest inductionHypothesis =>
      have here : weight a b (leading b word + 1) (word ++ right) ≤
          weight a b (leading b word + 1) (a :: b :: right) := by
        have bound := @weight_append_le _ _ _ _ differ (leading b word + 1) (by omega) _ light right
        rw [weight, if_neg differ, if_pos rfl, weight, if_pos rfl, Nat.mul_add_one]
        omega
      have ahead := weight_mono (leading b word + 1) rest here
      simp only [List.cons_append, total]
      split_ifs <;> omega

/-- Replacements that do not both begin and end with two letters of the other
kind come with a measure. -/
theorem exists_measure (differ : a ≠ b) (free : ¬ [a, b] <:+: replacement)
    (mild : ¬ ([b, b] <+: replacement ∧ [a, a] <:+ replacement)) :
    ∃ measure : List α → Nat, ∀ left right,
      measure (left ++ (replacement ++ right)) < measure (left ++ a :: b :: right) := by
  by_cases last : [a, a] <:+ replacement
  · -- read backwards, the replacement ends well
    have light : Light b a replacement.reverse := by
      constructor
      · rw [← List.reverse_infix, List.reverse_reverse]
        exact free
      · rw [← List.reverse_prefix, List.reverse_reverse]
        exact fun first => mild ⟨first, last⟩
    refine ⟨fun text => total b a (leading a replacement.reverse + 1) text.reverse,
      fun left right => ?_⟩
    have less := total_lt differ.symm light right.reverse left.reverse
    simpa using less
  · exact ⟨total a b (leading b replacement + 1), total_lt differ ⟨free, last⟩⟩

/-- What is left of a text from the first occurrence on. -/
def ahead (a b : α) (text : List α) : Nat :=
  match find [a, b] text with
  | none => 0
  | some position => text.length - position

/-- When occurrences stand apart, less is left after each replacement. -/
theorem Replaces.ahead_lt {text next left right : List α}
    (replaces : Replaces a b replacement text next left right) (free : ¬ [a, b] <:+: replacement)
    (apart : Apart a b text) (found : find [a, b] text = some left.length) :
    ahead a b next < ahead a b text := by
  have before : ahead a b text = right.length + 2 := by
    rw [ahead, found, replaces.before]
    simp
  rw [before, ahead]
  cases foundNext : find [a, b] next with
  | none => exact Nat.succ_pos _
  | some position =>
      rcases find_eq_some foundNext with ⟨other, behind, same, rfl, -⟩
      rcases replaces.apart free apart same with ⟨middle, isRight, -⟩
      rw [same, isRight]
      simp
      omega

/-! ### When the loop leaves -/

/-- The loop leaves exactly when there is nothing to replace, or when the
replacement does not contain the word and either does not begin and end badly or
meets occurrences that stand apart. -/
theorem exists_returns_iff (differ : a ≠ b) (text : List α) :
    (∃ result, Returns (round a b replacement) text result) ↔
      ¬ [a, b] <:+: text ∨ ¬ [a, b] <:+: replacement ∧
        (¬ ([b, b] <+: replacement ∧ [a, a] <:+ replacement) ∨ Apart a b text) := by
  constructor
  · intro returned
    obtain ⟨result, returns⟩ := returned
    by_contra never
    rw [not_or, not_not, not_and_or, not_not, not_or, not_not] at never
    rcases never with ⟨occurs, inside | ⟨⟨first, last⟩, crowded⟩⟩
    · -- every replacement brings the word in again
      refine Returns.invariant (fun text => [a, b] <:+: text) (fun _ => False) ?_ ?_ occurs returns
      · intro before after _ step
        rcases replaces_of_round step with ⟨left, right, replaces, -⟩
        rw [replaces.after]
        exact inside.trans (List.infix_append' left replacement right)
      · intro before value holds step
        exact not_infix_of_leave step holds
    · refine Returns.invariant (fun text => ¬ Apart a b text) (fun _ => False) ?_ ?_ crowded returns
      · intro before after holds step
        rcases replaces_of_round step with ⟨left, right, replaces, -⟩
        exact replaces.not_apart differ first last holds
      · intro before value holds step
        apply holds
        intro left right same
        refine absurd ⟨left, right, ?_⟩ (not_infix_of_leave step)
        rw [same]
        simp
  · intro mild
    rcases mild with nowhere | ⟨free, mild | apart⟩
    · refine ⟨text, .of_leave ?_⟩
      rw [round]
      split
      case h_1 => rfl
      case h_2 position found =>
        rcases find_eq_some found with ⟨left, right, same, -, -⟩
        exact absurd ⟨left, right, by rw [same, List.append_assoc]⟩ nowhere
    · rcases exists_measure differ free mild with ⟨measure, less⟩
      refine exists_returns (fun _ => True) measure ?_ trivial
      intro before after _ step
      rcases replaces_of_round step with ⟨left, right, replaces, -⟩
      rw [replaces.before, replaces.after]
      exact ⟨trivial, less left right⟩
    · refine exists_returns (Apart a b) (ahead a b) ?_ apart
      intro before after holds step
      rcases replaces_of_round step with ⟨left, right, replaces, found⟩
      exact ⟨replaces.apart_next free holds, replaces.ahead_lt free holds found⟩

end Dift.Foundation.Rewriting
